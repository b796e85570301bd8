/-
  Battle/HomeClear.lean --- the doors along a run, and who a finished fight holds.

  The sessions a finished fight still holds have all been disconnected, and nobody
  enters it any more: its deregistration takes no session's home away.
-/
import SessionServer.Battle.HomeCount

set_option autoImplicit false

namespace SessionServer.Battle

open SessionServer.Foundation

namespace Server

/-! ## The doors -/

theorem Doors.frame {s s' : Server} (h : Doors s) (hframe : Frame s s')
    (hmatch : s'.match_ = s.match_) (hq : s'.ctrlQ = s.ctrlQ) : Doors s' := by
  refine h.of_same hframe.phaseOf (fun id hk => by rw [hframe.known]; exact hk) hframe.accepting
    hframe.acceptStopped hmatch (by rw [hq]; exact id) (by rw [hframe.contentsMap]) fun id hm => ?_
  simpa only [Mentions, hmatch, hq, hframe.posting, hframe.queue, hframe.entering] using hm

theorem tryMove_match (s : Server) (id : SessionID) (n : ContentsNum) :
    (s.tryMoveSessionToContents id n).1.match_ = s.match_ := by
  unfold tryMoveSessionToContents
  split <;> rfl

theorem Doors.fightEnter {s : Server} (h : Doors s) (handle : FightHandle) (id : SessionID) :
    Doors (s.fightEnter handle id) := by
  unfold Server.fightEnter
  split
  · exact h.fightEvent handle _
  · exact (h.frame (s.tryMove_frame id _) (s.tryMove_match id _)
      (tryMove_ctrlQ _ _ _)).fightEvent handle _

theorem Doors.accept {s : Server} (h : Doors s) {id : SessionID} (hrun : s.acceptStopped = false)
    (hidle : s.accepting = none) (hnew : s.sessions id = none) :
    Doors { s with
      accepting := some id
      sessions := fun id' =>
        if id' = id then some ⟨.accepting, false, MATCH⟩ else s.sessions id' } := by
  have hphase : ∀ id', phaseOf { s with
      accepting := some id
      sessions := fun id' =>
        if id' = id then some ⟨.accepting, false, MATCH⟩ else s.sessions id' } id' =
      if id' = id then some .accepting else s.phaseOf id' := by
    intro id'
    simp only [phaseOf]
    split <;> rfl
  have hnone : s.phaseOf id = none := by simp [phaseOf, hnew]
  constructor
  · intro id'
    rw [hphase]
    split
    · rename_i heq
      simp [heq]
    · rename_i hne
      refine ⟨fun hacc => absurd (Option.some.inj hacc).symm hne, fun hp => ?_⟩
      rw [← h.accepting, hidle] at hp
      simp at hp
  · intro id' hp
    rw [hphase] at hp
    split at hp
    · simp at hp
    · exact h.known id' hp
  · exact h.stopRequested
  · intro hs
    exact absurd (hrun.symm.trans hs) (by simp)
  · exact h.deregister
  · exact h.match_
  · intro id' hm
    obtain ⟨h1, h2⟩ := h.past id' hm
    have hne : id' ≠ id := by
      rintro rfl
      exact h1 hnone
    exact ⟨by rwa [hphase, if_neg hne], by rwa [hphase, if_neg hne]⟩

theorem Doors.onRelease {s : Server} (h : Doors s) {id : SessionID}
    (hphase : s.phaseOf id = some .left) :
    Doors { s.setPhase id .released with
      playerMap := fun id' => if id' = id then none else s.playerMap id' } := by
  have hset := h.setPhase id .released (by simp [hphase]) (by simp) (by simp)
  refine ⟨hset.accepting, ?_, hset.stopRequested, hset.acceptStopped, hset.deregister, hset.match_,
    hset.past⟩
  intro id' hp
  have hp : (s.setPhase id .released).phaseOf id' = some .live := hp
  have hne : id' ≠ id := by
    rintro rfl
    rw [phaseOf_setPhase, if_pos rfl, hphase] at hp
    simp at hp
  simp only [if_neg hne]
  exact hset.known id' hp

/-- The control thread takes a request; the match stays registered. -/
theorem Doors.control {s s' : Server} (h : Doors s) {control : Control} {rest : List Control}
    (hq : s.ctrlQ = control :: rest) (hsessions : s'.sessions = s.sessions)
    (hplayers : s'.playerMap = s.playerMap) (hacc : s'.accepting = s.accepting)
    (hstopped : s'.acceptStopped = s.acceptStopped) (hmatch : s'.match_ = s.match_)
    (hq' : s'.ctrlQ = rest) (hmap : s'.contentsMap MATCH = s.contentsMap MATCH)
    (hposting : ∀ id, (∃ posting ∈ s'.posting, id ∈ posting.2) →
      (∃ posting ∈ s.posting, id ∈ posting.2) ∨ control.Holds id)
    (hqueue : s'.queue = s.queue) (hentering : s'.entering = s.entering) : Doors s' := by
  have hrest : ∀ c ∈ s'.ctrlQ, c ∈ s.ctrlQ := by
    intro c hc
    rw [hq'] at hc
    rw [hq]
    exact List.mem_cons_of_mem _ hc
  refine h.of_same (fun id => by simp only [phaseOf, hsessions])
    (fun id hk => by rw [hplayers]; exact hk) hacc hstopped hmatch (hrest _) hmap ?_
  rintro id (hm | ⟨c, hc, hholds⟩ | hm | hm | hm)
  · rw [hmatch] at hm
    exact Or.inl hm
  · exact Or.inr (Or.inl ⟨c, hrest c hc, hholds⟩)
  · rcases hposting id hm with hm | hm
    · exact Or.inr (Or.inr (Or.inl hm))
    · exact Or.inr (Or.inl ⟨control, by rw [hq]; simp, hm⟩)
  · rw [hqueue] at hm
    exact Or.inr (Or.inr (Or.inr (Or.inl hm)))
  · rw [hentering] at hm
    exact Or.inr (Or.inr (Or.inr (Or.inr hm)))

theorem Doors.step {s s' : Server} {step : Step} (h : Doors s) (hbook : Book s)
    (hreg : Register s) (hcounted : Counted s) (hstep : Stepped s step s') : Doors s' := by
  cases hstep with
  | accept id hrun hidle hnew => exact h.accept hrun hidle hnew
  | onAccept pooled id hacc hnew =>
      refine h.of_same (fun _ => rfl) (fun id' hk => ?_) rfl rfl rfl (fun hm => hm) rfl fun _ hm => hm
      simp only
      split
      · rfl
      · exact hk
  | acceptEnter id entered hacc hknown hentered =>
      obtain ⟨_, hmap⟩ := h.running hacc
      rcases hentered with ⟨contents, hmap', rfl⟩ | ⟨hnone, _⟩
      · rw [hreg.match_contents hmap']
        exact h.acceptEnter hacc hknown
      · rw [hmap] at hnone
        simp at hnone
  | disconnect id => exact h.frame (s.disconnect_frame id) rfl rfl
  | release id hphase => exact h.setPhase id _ (by simp [hphase]) (by simp) (by simp)
  | releaseFetch id hphase => exact h.setPhase id _ (by simp [hphase]) (by simp) (by simp)
  | releaseLeave id contents hphase =>
      have hleft : Doors (s.contentsLeave id contents) ∧
          (s.contentsLeave id contents).phaseOf id = s.phaseOf id := by
        cases contents with
        | match_ => exact ⟨h.matchLeave id, (s.matchLeave_frame id).frame.phaseOf id⟩
        | fight handle => exact ⟨h.fightEvent handle _, s.fightEvent_phaseOf handle _ id⟩
      exact hleft.1.setPhase id _ (by simp [hleft.2, hphase]) (by simp) (by simp)
  | releaseNone id hphase => exact h.setPhase id _ (by simp [hphase]) (by simp) (by simp)
  | onRelease id hphase => exact h.onRelease hphase
  | fetchEnter id n contents hmem hmap =>
      refine h.of_same (fun _ => rfl) (fun _ hk => hk) rfl rfl rfl (fun hm => hm) rfl ?_
      rintro id' (hm | hm | hm | ⟨n', hm⟩ | ⟨c, hm⟩)
      · exact Or.inl hm
      · exact Or.inr (Or.inl hm)
      · exact Or.inr (Or.inr (Or.inl hm))
      · exact Or.inr (Or.inr (Or.inr (Or.inl ⟨n', List.mem_of_mem_erase hm⟩)))
      · rcases List.mem_cons.mp hm with heq | hm
        · rw [Prod.mk.injEq] at heq
          exact Or.inr (Or.inr (Or.inr (Or.inl ⟨n, heq.1 ▸ hmem⟩)))
        · exact Or.inr (Or.inr (Or.inr (Or.inr ⟨c, hm⟩)))
  | dropEnter id n hmem hmap =>
      obtain ⟨handle, hm⟩ := hcounted.queued id n hmem
      rw [hmap] at hm
      simp at hm
  | runEnter id contents hmem =>
      obtain ⟨handle, rfl, _⟩ := hcounted.entering id contents hmem
      have herase : Doors { s with entering := s.entering.erase (id, .fight handle) } := by
        refine h.of_same (fun _ => rfl) (fun _ hk => hk) rfl rfl rfl (fun hm => hm) rfl ?_
        rintro id' (hm | hm | hm | hm | ⟨c, hm⟩)
        · exact Or.inl hm
        · exact Or.inr (Or.inl hm)
        · exact Or.inr (Or.inr (Or.inl hm))
        · exact Or.inr (Or.inr (Or.inr (Or.inl hm)))
        · exact Or.inr (Or.inr (Or.inr (Or.inr ⟨c, List.mem_of_mem_erase hm⟩)))
      exact herase.fightEnter handle id
  | event step handle event hstep hhandle => exact h.fightEvent handle event
  | rehashMatch order place hperm =>
      refine h.matchChange (by constructor <;> intros <;> first | rfl | assumption)
        (fun id hid => hperm.mem_iff.mp hid) id h.stopRequested (Or.inl rfl)
  | fightAlloc pooled matchID group rest hidle hq =>
      rw [handleFightAlloc_eq]
      refine h.control hq rfl rfl rfl rfl rfl rfl ?_ ?_ rfl rfl
      · simp only
        rw [if_neg]
        rintro ⟨hn, _⟩
        exact range_ne_match hreg.next.2 hn.symm
      · rintro id ⟨posting, hp, hid⟩
        simp only [Option.mem_def, Option.some.injEq] at hp
        rw [← hp] at hid
        exact Or.inr hid
  | fightFree pooled matchID handle rest hidle hq =>
      obtain ⟨hlt, _⟩ := fightFree_registered hreg hbook hq
      refine h.control hq rfl rfl rfl rfl rfl rfl ?_ (fun _ hp => Or.inl hp) rfl rfl
      simp only [handleFightFree, deregisterContents]
      rw [if_neg (range_ne_match (hreg.range handle hlt).2).symm]
  | matchDeregister pooled matchID rest hidle hq =>
      obtain ⟨hs, hnil⟩ := h.deregister (by rw [hq]; simp)
      have hrest : ∀ c ∈ rest, c ∈ s.ctrlQ := by
        intro c hc
        rw [hq]
        exact List.mem_cons_of_mem _ hc
      refine ⟨h.accepting, h.known, h.stopRequested, h.acceptStopped,
        fun hm => h.deregister (hrest _ hm), Or.inr ⟨?_, hs, hnil⟩, ?_⟩
      · simp [handleMatchDeregister, deregisterContents]
      · rintro id (hm | ⟨c, hc, hholds⟩ | hm | hm | hm)
        · exact h.past id (Or.inl hm)
        · exact h.past id (Or.inr (Or.inl ⟨c, hrest c hc, hholds⟩))
        · exact h.past id (Or.inr (Or.inr (Or.inl hm)))
        · exact h.past id (Or.inr (Or.inr (Or.inr (Or.inl hm))))
        · exact h.past id (Or.inr (Or.inr (Or.inr (Or.inr hm))))
  | post n id rest hposting =>
      refine h.of_same (fun _ => rfl) (fun _ hk => hk) rfl rfl rfl (fun hm => hm) rfl ?_
      rintro id' (hm | hm | ⟨p, hp, hid⟩ | ⟨n', hm⟩ | hm)
      · exact Or.inl hm
      · exact Or.inr (Or.inl hm)
      · simp only [Option.mem_def, Option.some.injEq] at hp
        rw [← hp] at hid
        exact Or.inr (Or.inr (Or.inl ⟨_, hposting, List.mem_cons_of_mem _ hid⟩))
      · rcases List.mem_append.mp hm with hm | hm
        · exact Or.inr (Or.inr (Or.inr (Or.inl ⟨n', hm⟩)))
        · simp only [List.mem_singleton, Prod.mk.injEq] at hm
          exact Or.inr (Or.inr (Or.inl ⟨_, hposting, by rw [hm.1]; simp⟩))
      · exact Or.inr (Or.inr (Or.inr (Or.inr hm)))
  | postDone n hposting =>
      refine h.of_same (fun _ => rfl) (fun _ hk => hk) rfl rfl rfl (fun hm => hm) rfl ?_
      rintro id' (hm | hm | ⟨p, hp, _⟩ | hm | hm)
      · exact Or.inl hm
      · exact Or.inr (Or.inl hm)
      · simp at hp
      · exact Or.inr (Or.inr (Or.inr (Or.inl hm)))
      · exact Or.inr (Or.inr (Or.inr (Or.inr hm)))
  | stopAccept hidle =>
      exact ⟨h.accepting, h.known, fun _ => rfl, fun _ => hidle, h.deregister, h.match_, h.past⟩
  | shutDown hstop => exact h.matchShutDown hstop
  | shutDownLate hmap => exact h

/-! ## Finished fights -/

/-- The player maps, and who a finished fight still holds. -/
structure Cleared (s : Server) : Prop where
  own : OwnIDs s.playerMap
  keyed : ∀ handle < s.created, (s.fights handle).playerMap.Keyed
  entered : ∀ handle < s.created, ∀ id ∈ (s.fights handle).playerMap.keys, s.phaseOf id ≠ none
  gone : ∀ handle < s.created, (s.fights handle).end_ = false →
    ∀ id ∈ (s.fights handle).playerMap.keys, Cut s.sessions id

theorem cleared_initial (pooled : FightContents) : Cleared (initialServer pooled) where
  own := by simp [initialServer, OwnIDs]
  keyed := by simp [initialServer]
  entered := by simp [initialServer]
  gone := by simp [initialServer]

theorem Cleared.of_same {s s' : Server} (h : Cleared s) (hfights : s'.fights = s.fights)
    (hcreated : s'.created = s.created) (hown : OwnIDs s'.playerMap)
    (hphase : ∀ id, s.phaseOf id ≠ none → s'.phaseOf id ≠ none)
    (hcut : ∀ id, s.phaseOf id ≠ none → Cut s.sessions id → Cut s'.sessions id) :
    Cleared s' where
  own := hown
  keyed := by rw [hcreated, hfights]; exact h.keyed
  entered := by
    rw [hcreated, hfights]
    exact fun handle hlt id hid => hphase id (h.entered handle hlt id hid)
  gone := by
    rw [hcreated, hfights]
    exact fun handle hlt hend id hid =>
      hcut id (h.entered handle hlt id hid) (h.gone handle hlt hend id hid)

theorem Cleared.frame {s s' : Server} (h : Cleared s) (hframe : Frame s s') : Cleared s' :=
  h.of_same hframe.fights hframe.created (hframe.own h.own)
    (fun id hp => by rwa [hframe.phaseOf]) (fun id _ => hframe.cut id)

theorem Cleared.setPhase {s : Server} (h : Cleared s) (id : SessionID) (phase : Phase)
    (hphase : (phase = .live ∨ phase = .accepting) → s.phaseOf id = some .accepting) :
    Cleared (s.setPhase id phase) := by
  refine h.of_same rfl rfl h.own ?_ ?_
  · intro id' hp
    rw [phaseOf_setPhase]
    split
    · cases hs : s.phaseOf id' with
      | none => exact absurd hs hp
      | some _ => simp
    · exact hp
  · intro id' _ hcut session hs hlive
    simp only [Server.setPhase, modifySession] at hs
    split at hs
    · rename_i heq
      obtain ⟨old, hold, rfl⟩ := Option.map_eq_some_iff.mp hs
      refine hcut old hold (Or.inl ?_)
      have hp := hphase hlive.symm
      rw [← heq, phaseOf, hold] at hp
      simpa using hp
    · exact hcut session hs hlive

/-- An event of a fight, given what it adds to the player map. -/
theorem Cleared.fightEvent {s : Server} (h : Cleared s) {handle : FightHandle}
    (hhandle : handle < s.created) {event : FightEvent}
    (hkeyed : ((s.fights handle).counted event).playerMap.Keyed)
    (hnew : ∀ id ∈ ((s.fights handle).counted event).playerMap.keys,
      id ∈ (s.fights handle).playerMap.keys ∨
        ((s.fights handle).end_ = true ∧ s.phaseOf id ≠ none)) :
    Cleared (s.fightEvent handle event) := by
  obtain ⟨-, -, hplayers, -, -, hcreated, -, -, -, -, -, hfights⟩ := s.fightEvent_rest handle event
  have hreq := s.fightEvent_spec handle event
  have hkept := (s.fights handle).fightStep_kept event
  have hend := (s.fights handle).fightStep_end event
  constructor
  · rw [hplayers]
    exact h.own
  · intro k hk
    rw [hcreated] at hk
    rw [hfights]
    simp only
    split
    · exact hkept.keyed hkeyed
    · exact h.keyed k hk
  · intro k hk id hid
    rw [hcreated] at hk
    rw [hfights] at hid
    rw [fightEvent_phaseOf]
    simp only at hid
    split at hid
    · rcases hnew id (hkept.keys.mem_iff.mp hid) with hold | ⟨_, hp⟩
      · exact h.entered handle hhandle id hold
      · exact hp
    · exact h.entered k hk id hid
  · intro k hk hf id hid
    rw [hcreated] at hk
    rw [hfights] at hf hid
    simp only at hf hid
    split at hf
    · rename_i heq
      rw [if_pos heq] at hid
      have hid := hkept.keys.mem_iff.mp hid
      rcases (s.fights handle).fightStep_cases event with ⟨_, pre, _, hout⟩ | ⟨hnot, _⟩
      · -- The fight ends here, and disconnects everybody it holds.
        refine hreq.cut id ?_
        obtain ⟨entry, hentry, rfl⟩ := List.mem_map.mp hid
        obtain ⟨winLoss, hjudged⟩ := ((s.fights handle).counted event).checkGameEnd_fst
        rw [hout, hjudged]
        refine List.mem_append_right _ (List.mem_append_left _ (List.mem_map.mpr
          ⟨entry, hentry, ?_⟩))
        rw [hkeyed entry hentry]
      · rw [hend.2 hnot] at hf
        rcases hnew id hid with hold | ⟨hrunning, _⟩
        · exact (h.gone handle hhandle hf id hold).lowered hreq.lowered
        · rw [hf] at hrunning
          simp at hrunning
    · rename_i hne
      rw [if_neg hne] at hid
      exact (h.gone k hk hf id hid).lowered hreq.lowered

/-- An enter event handled by a running fight. -/
theorem Cleared.fightEnter {s : Server} (h : Cleared s) {handle : FightHandle}
    (hhandle : handle < s.created) (hrunning : (s.fights handle).end_ = true) (id : SessionID) :
    Cleared (s.fightEnter handle id) := by
  unfold Server.fightEnter
  split
  · refine h.fightEvent hhandle (h.keyed handle hhandle) fun id' hid => Or.inl hid
  · rename_i player hplayer
    have hmove := s.tryMove_frame id (s.fights handle).contentsNum
    have hmoved := h.frame hmove
    have hphase : (s.tryMoveSessionToContents id (s.fights handle).contentsNum).2 = true →
        (s.tryMoveSessionToContents id (s.fights handle).contentsNum).1.phaseOf id ≠ none := by
      rw [hmove.phaseOf]
      unfold tryMoveSessionToContents
      split
      · rename_i hmovable
        intro _
        simp only [movable] at hmovable
        split at hmovable
        · rename_i hs
          simp [phaseOf, hs]
        · simp at hmovable
      · simp
    generalize s.tryMoveSessionToContents id (s.fights handle).contentsNum = moved at *
    have hh : handle < moved.1.created := by rwa [hmove.created]
    refine hmoved.fightEvent hh ?_ ?_
    · intro entry hentry
      simp only [FightContents.counted, FightContents.countEnter] at hentry
      split at hentry
      · rw [FightContents.enterPlayer_eq] at hentry
        simp only [PlayerMap.insert] at hentry
        split at hentry
        · exact hmoved.keyed handle hh entry hentry
        · rcases List.mem_cons.mp hentry with rfl | hentry
          · exact h.own id player hplayer
          · exact hmoved.keyed handle hh entry hentry
      · exact hmoved.keyed handle hh entry hentry
    · intro id' hid
      simp only [FightContents.counted, FightContents.countEnter] at hid
      split at hid
      · rename_i hm
        rw [FightContents.enterPlayer_eq] at hid
        rcases PlayerMap.mem_keys_insert.mp hid with rfl | hid
        · exact Or.inr ⟨by rw [hmove.fights]; exact hrunning, hphase hm⟩
        · exact Or.inl hid
      · exact Or.inl hid

theorem counted_leave_keys {f : FightContents} {id id' : SessionID}
    (h : id' ∈ (f.counted (.leave id)).playerMap.keys) : id' ∈ f.playerMap.keys := by
  simp only [FightContents.counted] at h
  split at h
  · exact h
  · rw [FightContents.removePlayer_fst] at h
    exact (PlayerMap.mem_keys_erase.mp h).1

theorem counted_leave_keyed {f : FightContents} {id : SessionID} (h : f.playerMap.Keyed) :
    (f.counted (.leave id)).playerMap.Keyed := by
  intro entry hentry
  simp only [FightContents.counted] at hentry
  split at hentry
  · exact h entry hentry
  · rw [FightContents.removePlayer_fst] at hentry
    exact h entry (List.mem_filter.mp hentry).1

/-- A step that runs a handler other than enter and leave counts nothing. -/
theorem event_counted {step : Step} {handle : FightHandle} {event : FightEvent}
    (h : step.event? = some (handle, event)) (f : FightContents) : f.counted event = f := by
  cases step with
  | update handle' now => cases h; rfl
  | message handle' id msg now => cases h; rfl
  | rehash handle' order => cases h; rfl
  | _ => simp [Step.event?] at h

theorem Cleared.step {s s' : Server} {step : Step} (h : Cleared s) (hbook : Book s)
    (hreg : Register s) (hcounted : Counted s) (hdoors : Doors s) (hstep : Stepped s step s') :
    Cleared s' := by
  cases hstep with
  | accept id hrun hidle hnew =>
      have hother : ∀ id', s.phaseOf id' ≠ none → id' ≠ id := by
        rintro id' hp rfl
        exact hp (by simp [phaseOf, hnew])
      refine h.of_same rfl rfl h.own (fun id' hp => ?_) (fun id' hp hcut session hs => ?_)
      · simp only [phaseOf, if_neg (hother id' hp)]
        exact hp
      · simp only [if_neg (hother id' hp)] at hs
        exact hcut session hs
  | onAccept pooled id hacc hnew =>
      refine h.of_same rfl rfl ?_ (fun _ hp => hp) (fun _ _ hcut => hcut)
      intro id' player hplayer
      simp only at hplayer
      split at hplayer
      · rename_i heq
        cases hplayer
        exact heq.symm
      · exact h.own id' player hplayer
  | acceptEnter id entered hacc hknown hentered =>
      have hmap := (hdoors.running hacc).2
      rcases hentered with ⟨contents, hmap', rfl⟩ | ⟨hnone, _⟩
      · rw [hreg.match_contents hmap']
        have hframe := (s.matchEnter_frame id).frame
        have hlive := (h.frame hframe).setPhase id .live fun _ => by
          rw [hframe.phaseOf]
          exact (hdoors.accepting id).mp hacc
        exact hlive.of_same rfl rfl hlive.own (fun _ hp => hp) (fun _ _ hcut => hcut)
      · rw [hmap] at hnone
        simp at hnone
  | disconnect id => exact h.frame (s.disconnect_frame id)
  | release id hphase => exact h.setPhase id _ (by simp)
  | releaseFetch id hphase => exact h.setPhase id _ (by simp)
  | releaseLeave id contents hphase =>
      refine Cleared.setPhase ?_ id _ (by simp)
      cases contents with
      | match_ => exact h.frame (s.matchLeave_frame id).frame
      | fight handle =>
          have hlt := hbook.leaving id handle hphase
          exact h.fightEvent hlt (counted_leave_keyed (h.keyed handle hlt))
            fun id' hid => Or.inl (counted_leave_keys hid)
  | releaseNone id hphase => exact h.setPhase id _ (by simp)
  | onRelease id hphase =>
      have hset := h.setPhase id .released (by simp)
      refine hset.of_same rfl rfl ?_ (fun _ hp => hp) (fun _ _ hcut => hcut)
      intro id' player hplayer
      simp only at hplayer
      split at hplayer
      · simp at hplayer
      · exact h.own id' player hplayer
  | fetchEnter id n contents hmem hmap =>
      exact h.of_same rfl rfl h.own (fun _ hp => hp) (fun _ _ hcut => hcut)
  | dropEnter id n hmem hmap =>
      exact h.of_same rfl rfl h.own (fun _ hp => hp) (fun _ _ hcut => hcut)
  | runEnter id contents hmem =>
      obtain ⟨handle, rfl, _⟩ := hcounted.entering id contents hmem
      have hrunning := (hcounted.entering_running hbook hmem).2
      have herase : Cleared { s with entering := s.entering.erase (id, .fight handle) } :=
        h.of_same rfl rfl h.own (fun _ hp => hp) (fun _ _ hcut => hcut)
      exact herase.fightEnter (hbook.entering id handle hmem) hrunning id
  | event step handle event hstep hhandle =>
      have hcount := event_counted hstep (s.fights handle)
      refine h.fightEvent hhandle ?_ fun id hid => Or.inl ?_
      · rw [hcount]
        exact h.keyed handle hhandle
      · rwa [hcount] at hid
  | rehashMatch order place hperm =>
      exact h.of_same rfl rfl h.own (fun _ hp => hp) (fun _ _ hcut => hcut)
  | fightAlloc pooled matchID group rest hidle hq =>
      rw [handleFightAlloc_eq]
      have hold : ∀ handle, handle < s.created + 1 → handle ≠ s.created → handle < s.created :=
        fun handle hlt hne => Nat.lt_of_le_of_ne (Nat.le_of_lt_succ hlt) hne
      obtain ⟨hend, _, hempty, _⟩ := newFight_init pooled s.nextContentsNum matchID group
      constructor
      · exact h.own
      · intro handle hlt
        simp only
        split
        · rw [hempty]
          intro entry hentry
          simp at hentry
        · rename_i hne
          exact h.keyed handle (hold handle hlt hne)
      · intro handle hlt id hid
        simp only at hid
        split at hid
        · rw [hempty] at hid
          simp [PlayerMap.keys] at hid
        · rename_i hne
          exact h.entered handle (hold handle hlt hne) id hid
      · intro handle hlt hf id hid
        simp only at hf hid
        split at hf
        · rw [hend] at hf
          simp at hf
        · rename_i hne
          rw [if_neg hne] at hid
          exact h.gone handle (hold handle hlt hne) hf id hid
  | fightFree pooled matchID handle rest hidle hq =>
      exact h.of_same rfl rfl h.own (fun _ hp => hp) (fun _ _ hcut => hcut)
  | matchDeregister pooled matchID rest hidle hq =>
      exact h.of_same rfl rfl h.own (fun _ hp => hp) (fun _ _ hcut => hcut)
  | post n id rest hposting =>
      exact h.of_same rfl rfl h.own (fun _ hp => hp) (fun _ _ hcut => hcut)
  | postDone n hposting =>
      exact h.of_same rfl rfl h.own (fun _ hp => hp) (fun _ _ hcut => hcut)
  | stopAccept hidle =>
      exact h.of_same rfl rfl h.own (fun _ hp => hp) (fun _ _ hcut => hcut)
  | shutDown hstop => exact h.frame s.matchShutDown_frame.frame
  | shutDownLate hmap => exact h

end Server

end SessionServer.Battle
