/-
  Battle/SystemRun.lean --- one finish and one FIGHTFREE for each fight.

  The book of a fight says what `Init` gave it, what it pushed and what it enqueued,
  and is kept in every run.  The register says which contents a number names, and is
  kept in runs in which no fight is allocated a number that is still in use.
-/
import SessionServer.Battle.SystemStep

set_option autoImplicit false

namespace SessionServer.Battle

open SessionServer.Foundation

namespace Server

/-! ## Phases -/

theorem phaseOf_setPhase (s : Server) (id : SessionID) (phase : Phase) (id' : SessionID) :
    (s.setPhase id phase).phaseOf id' =
      if id' = id then (s.phaseOf id').map fun _ => phase else s.phaseOf id' := by
  simp only [phaseOf, setPhase, modifySession]
  split
  · cases s.sessions id' <;> rfl
  · rfl

theorem fightEvent_phaseOf (s : Server) (handle : FightHandle) (event : FightEvent)
    (id : SessionID) : (s.fightEvent handle event).phaseOf id = s.phaseOf id :=
  (s.fightEvent_spec handle event).lowered.phaseOf id

/-! ## The book -/

/-- The fights and what is recorded of them. -/
structure Book (s : Server) : Prop where
  mapped : ∀ n handle, s.contentsMap n = some (.fight handle) → handle < s.created
  entering : ∀ id handle, (id, .fight handle) ∈ s.entering → handle < s.created
  leaving : ∀ id handle, s.phaseOf id = some (.leaving (some (.fight handle))) →
    handle < s.created
  fresh : ∀ handle, s.created ≤ handle →
    (∀ result, (handle, result) ∉ s.dbQ) ∧ handle ∉ s.frees
  init : ∀ handle < s.created, (s.fights handle).matchID = (s.inits handle).1 ∧
    (s.fights handle).red = (s.inits handle).2.red ∧
    (s.fights handle).blue = (s.inits handle).2.blue
  saved : ∀ handle < s.created, s.dbQ.countP (fun entry => entry.1 = handle) =
    if (s.fights handle).end_ then 0 else 1
  freed : ∀ handle < s.created, s.frees.count handle = if (s.fights handle).end_ then 0 else 1
  results : ∀ handle result, (handle, result) ∈ s.dbQ →
    result.matchID = (s.inits handle).1 ∧ result.red = (s.inits handle).2.red ∧
    result.blue = (s.inits handle).2.blue ∧ (result.winnerTeam = 1 ∨ result.winnerTeam = 2)

theorem book_initial (pooled : FightContents) : Book (initialServer pooled) where
  mapped := by
    intro n handle h
    simp only [initialServer] at h
    split at h <;> simp at h
  entering := by simp [initialServer]
  leaving := by simp [initialServer, phaseOf]
  fresh := by simp [initialServer]
  init := by simp [initialServer]
  saved := by simp [initialServer]
  freed := by simp [initialServer]
  results := by simp [initialServer]

/-- The book of a state with the same fights and records. -/
theorem Book.of_same {s s' : Server} (h : Book s) (hfights : s'.fights = s.fights)
    (hcreated : s'.created = s.created) (hinits : s'.inits = s.inits) (hdbQ : s'.dbQ = s.dbQ)
    (hfrees : s'.frees = s.frees)
    (hmapped : ∀ n handle, s'.contentsMap n = some (.fight handle) → handle < s.created)
    (hentering : ∀ id handle, (id, .fight handle) ∈ s'.entering → handle < s.created)
    (hleaving : ∀ id handle, s'.phaseOf id = some (.leaving (some (.fight handle))) →
      handle < s.created) : Book s' where
  mapped := by rwa [hcreated]
  entering := by rwa [hcreated]
  leaving := by rwa [hcreated]
  fresh := by rw [hcreated, hdbQ, hfrees]; exact h.fresh
  init := by rw [hcreated, hfights, hinits]; exact h.init
  saved := by rw [hcreated, hdbQ, hfights]; exact h.saved
  freed := by rw [hcreated, hfrees, hfights]; exact h.freed
  results := by rw [hdbQ, hinits]; exact h.results

theorem Book.frame {s s' : Server} (h : Book s) (hframe : Frame s s') : Book s' := by
  refine h.of_same hframe.fights hframe.created hframe.inits hframe.dbQ hframe.frees ?_ ?_ ?_
  · rw [hframe.contentsMap]
    exact h.mapped
  · rw [hframe.entering]
    exact h.entering
  · intro id handle hphase
    rw [hframe.phaseOf] at hphase
    exact h.leaving id handle hphase

theorem Book.setPhase {s : Server} (h : Book s) (id : SessionID) (phase : Phase)
    (hphase : ∀ handle, phase = .leaving (some (.fight handle)) → handle < s.created) :
    Book (s.setPhase id phase) := by
  refine h.of_same rfl rfl rfl rfl rfl h.mapped h.entering ?_
  intro id' handle hp
  rw [phaseOf_setPhase] at hp
  split at hp
  · obtain ⟨_, _, heq⟩ := Option.map_eq_some_iff.mp hp
    exact hphase handle heq
  · exact h.leaving id' handle hp

/-- The judged result has a team's code. -/
theorem ends_winner {f : FightContents} {event : FightEvent} (h : f.Ends event) :
    (f.counted event).checkGameEnd.1.buildBattleResult.winnerTeam = 1 ∨
      (f.counted event).checkGameEnd.1.buildBattleResult.winnerTeam = 2 := by
  have hwin := FightContents.checkGameEnd_winLoss h.2.2
  simp only [FightContents.buildBattleResult, hwin]
  split
  · exact Or.inl rfl
  · exact Or.inr rfl

/-- The judged result carries what `Init` gave. -/
theorem judged_init (f : FightContents) (event : FightEvent) :
    (f.counted event).checkGameEnd.1.buildBattleResult.matchID = f.matchID ∧
      (f.counted event).checkGameEnd.1.buildBattleResult.red = f.red ∧
      (f.counted event).checkGameEnd.1.buildBattleResult.blue = f.blue := by
  obtain ⟨winLoss, h⟩ := (f.counted event).checkGameEnd_fst
  obtain ⟨players, red, blue, matched, h'⟩ := f.counted_frame event
  rw [h, h']
  exact ⟨rfl, rfl, rfl⟩

/-- **One event of a fight keeps the book.** -/
theorem Book.fightEvent {s : Server} (h : Book s) {handle : FightHandle}
    (hhandle : handle < s.created) (event : FightEvent) : Book (s.fightEvent handle event) := by
  obtain ⟨-, -, -, -, hmap, hcreated, -, -, -, hentering, hinits, hfights⟩ :=
    s.fightEvent_rest handle event
  have hreq := s.fightEvent_spec handle event
  have hdbQ := hreq.dbQ
  have hfrees := hreq.frees
  have hend := (s.fights handle).fightStep_end event
  have hcases := fightEvent_requests handle (s.fights handle) event
  -- What the event adds to the records of another fight, and to its own.
  have hother : ∀ k, k ≠ handle →
      (savedOf handle (fightStep (s.fights handle) event).2).countP (fun entry => entry.1 = k) = 0 ∧
        (freesOf handle (fightStep (s.fights handle) event).2).count k = 0 := by
    intro k hk
    rcases hcases with ⟨_, hs, hf⟩ | ⟨_, hs, hf⟩ <;>
      simp [hs, hf, Ne.symm hk]
  have hself : ∀ n, (n = if (s.fights handle).end_ then 0 else 1) →
      n + (savedOf handle (fightStep (s.fights handle) event).2).countP
          (fun entry => entry.1 = handle) =
        (if (fightStep (s.fights handle) event).1.end_ then 0 else 1) ∧
      n + (freesOf handle (fightStep (s.fights handle) event).2).count handle =
        (if (fightStep (s.fights handle) event).1.end_ then 0 else 1) := by
    intro n hn
    rcases hcases with ⟨hends, hs, hf⟩ | ⟨hnot, hs, hf⟩
    · have hrunning : (s.fights handle).end_ = true := by
        rw [← (s.fights handle).counted_end event]
        exact hends.2.1
      simp [hs, hf, hn, hrunning, hend.1 hends]
    · simp [hs, hf, hn, hend.2 hnot]
  constructor
  · rw [hmap, hcreated]
    exact h.mapped
  · rw [hentering, hcreated]
    exact h.entering
  · intro id k hphase
    rw [fightEvent_phaseOf] at hphase
    rw [hcreated]
    exact h.leaving id k hphase
  · intro k hk
    rw [hcreated] at hk
    obtain ⟨hnone, hnotMem⟩ := h.fresh k hk
    have hne : k ≠ handle := Nat.ne_of_gt (Nat.lt_of_lt_of_le hhandle hk)
    obtain ⟨h0, h0'⟩ := hother k hne
    refine ⟨fun result hmem => ?_, fun hmem => ?_⟩
    · rw [hdbQ] at hmem
      rcases List.mem_append.mp hmem with hmem | hmem
      · exact hnone result hmem
      · rw [List.countP_eq_zero] at h0
        exact h0 _ hmem (by simp)
    · rw [hfrees] at hmem
      rcases List.mem_append.mp hmem with hmem | hmem
      · exact hnotMem hmem
      · exact List.count_eq_zero.mp h0' hmem
  · intro k hk
    rw [hcreated] at hk
    rw [hfights, hinits]
    simp only
    split
    · rename_i heq
      subst heq
      obtain ⟨_, hm, hr, hb⟩ := (s.fights k).fightStep_init event
      rw [hm, hr, hb]
      exact h.init k hk
    · exact h.init k hk
  · intro k hk
    rw [hcreated] at hk
    have hbefore := h.saved k hk
    rw [hdbQ, List.countP_append, hfights]
    simp only
    split
    · rename_i heq
      subst heq
      exact (hself _ hbefore).1
    · rename_i hne
      rw [(hother k hne).1, Nat.add_zero]
      exact hbefore
  · intro k hk
    rw [hcreated] at hk
    have hbefore := h.freed k hk
    rw [hfrees, List.count_append, hfights]
    simp only
    split
    · rename_i heq
      subst heq
      exact (hself _ hbefore).2
    · rename_i hne
      rw [(hother k hne).2, Nat.add_zero]
      exact hbefore
  · intro k result hmem
    rw [hdbQ] at hmem
    rw [hinits]
    rcases List.mem_append.mp hmem with hmem | hmem
    · exact h.results k result hmem
    · rcases hcases with ⟨hends, hs, _⟩ | ⟨_, hs, _⟩
      · rw [hs, List.mem_singleton, Prod.mk.injEq] at hmem
        obtain ⟨rfl, rfl⟩ := hmem
        obtain ⟨hm, hr, hb⟩ := judged_init (s.fights k) event
        obtain ⟨hm', hr', hb'⟩ := h.init k hhandle
        exact ⟨hm.trans hm', hr.trans hr', hb.trans hb', ends_winner hends⟩
      · rw [hs] at hmem
        simp at hmem

theorem Book.contentsEnter {s : Server} (h : Book s) (id : SessionID) {contents : Contents}
    (hc : ∀ handle, contents = .fight handle → handle < s.created) :
    Book (s.contentsEnter id contents) := by
  cases contents with
  | match_ => exact h.frame (s.matchEnter_frame id).frame
  | fight handle =>
      obtain ⟨moved, _, _, hmove, _, _, henter⟩ := s.fightEnter_moved handle id
      rw [Server.contentsEnter, henter]
      exact (h.frame hmove).fightEvent (hmove.created ▸ hc handle rfl) _

theorem Book.contentsLeave {s : Server} (h : Book s) (id : SessionID) {contents : Contents}
    (hc : ∀ handle, contents = .fight handle → handle < s.created) :
    Book (s.contentsLeave id contents) := by
  cases contents with
  | match_ => exact h.frame (s.matchLeave_frame id).frame
  | fight handle => exact h.fightEvent (hc handle rfl) _

theorem newFight_init (pooled : FightContents) (n : ContentsNum) (matchID : Int) (group : Group) :
    (newFight pooled n matchID group).end_ = true ∧
      (newFight pooled n matchID group).matched = 0 ∧
      (newFight pooled n matchID group).playerMap = [] ∧
      (newFight pooled n matchID group).contentsNum = n :=
  ⟨rfl, rfl, rfl, rfl⟩

/-- What `HandleFightAlloc` does, with the fight registered if its number is free. -/
theorem handleFightAlloc_eq (s : Server) (group : Group) (pooled : FightContents)
    (matchID : Int) :
    s.handleFightAlloc group pooled matchID = { s with
      fights := fun handle =>
        if handle = s.created then newFight pooled s.nextContentsNum matchID group
        else s.fights handle
      created := s.created + 1
      inits := fun handle => if handle = s.created then (matchID, group) else s.inits handle
      posting := some (s.nextContentsNum, group.sessions)
      contentsMap := fun n =>
        if n = s.nextContentsNum ∧ s.contentsMap n = none then some (.fight s.created)
        else s.contentsMap n } := by
  simp only [handleFightAlloc, registerContents]
  split
  · rename_i hsome
    congr 1
    funext n
    split
    · rename_i hn
      rw [← hn.1, hn.2] at hsome
      simp at hsome
    · rfl
  · rename_i hnone
    rw [Option.not_isSome_iff_eq_none] at hnone
    congr 1
    funext n
    by_cases hn : n = s.nextContentsNum
    · simp [hn, hnone]
    · simp [hn]

theorem Book.handleFightAlloc {s : Server} (h : Book s) (group : Group)
    (pooled : FightContents) (matchID : Int) : Book (s.handleFightAlloc group pooled matchID) := by
  rw [handleFightAlloc_eq]
  constructor
  · intro n handle hmap
    simp only at hmap
    split at hmap
    · simp only [Option.some.injEq, Contents.fight.injEq] at hmap
      exact hmap ▸ Nat.lt_succ_self _
    · exact Nat.lt_succ_of_lt (h.mapped n handle hmap)
  · intro id handle hmem
    exact Nat.lt_succ_of_lt (h.entering id handle hmem)
  · intro id handle hphase
    exact Nat.lt_succ_of_lt (h.leaving id handle hphase)
  · intro handle hle
    exact h.fresh handle (Nat.le_of_succ_le hle)
  · intro handle hlt
    simp only
    split
    · exact ⟨rfl, rfl, rfl⟩
    · rename_i hne
      exact h.init handle (Nat.lt_of_le_of_ne (Nat.le_of_lt_succ hlt) hne)
  · intro handle hlt
    simp only
    split
    · rename_i heq
      rw [(newFight_init pooled _ matchID group).1, if_pos rfl, List.countP_eq_zero]
      rintro ⟨k, result⟩ hmem hk
      simp only [decide_eq_true_eq] at hk
      exact (h.fresh k (by rw [hk, heq])).1 result hmem
    · rename_i hne
      exact h.saved handle (Nat.lt_of_le_of_ne (Nat.le_of_lt_succ hlt) hne)
  · intro handle hlt
    simp only
    split
    · rename_i heq
      rw [(newFight_init pooled _ matchID group).1, if_pos rfl, List.count_eq_zero]
      exact (h.fresh handle (Nat.le_of_eq heq.symm)).2
    · rename_i hne
      exact h.freed handle (Nat.lt_of_le_of_ne (Nat.le_of_lt_succ hlt) hne)
  · intro handle result hmem
    have hlt : handle < s.created := by
      by_contra hge
      exact (h.fresh handle (Nat.le_of_not_lt hge)).1 result hmem
    simp only [if_neg (Nat.ne_of_lt hlt)]
    exact h.results handle result hmem

/-- **Every step keeps the book.** -/
theorem Book.step {s s' : Server} {step : Step} (h : Book s) (hstep : Stepped s step s') :
    Book s' := by
  cases hstep with
  | accept id hrun hidle hnew =>
      refine h.of_same rfl rfl rfl rfl rfl h.mapped h.entering ?_
      intro id' handle hphase
      simp only [phaseOf] at hphase
      split at hphase
      · simp at hphase
      · exact h.leaving id' handle hphase
  | onAccept pooled id hacc hnew =>
      exact h.of_same rfl rfl rfl rfl rfl h.mapped h.entering h.leaving
  | acceptEnter id entered hacc hknown hentered =>
      have hentered : Book entered := by
        rcases hentered with ⟨contents, hmap, rfl⟩ | ⟨_, rfl⟩
        · exact h.contentsEnter id fun handle heq => h.mapped MATCH handle (heq ▸ hmap)
        · exact h
      have hlive := hentered.setPhase id .live (by simp)
      exact hlive.of_same rfl rfl rfl rfl rfl hlive.mapped hlive.entering hlive.leaving
  | disconnect id => exact h.frame (s.disconnect_frame id)
  | release id hphase => exact h.setPhase id _ (by simp)
  | releaseFetch id hphase =>
      refine h.setPhase id _ fun handle heq => ?_
      simp only [Phase.leaving.injEq, leaveTarget] at heq
      split at heq
      · split at heq
        · exact h.mapped _ handle heq
        · simp at heq
      · simp at heq
  | releaseLeave id contents hphase =>
      refine (h.contentsLeave id fun handle heq => ?_).setPhase id _ (by simp)
      exact h.leaving id handle (heq ▸ hphase)
  | releaseNone id hphase => exact h.setPhase id _ (by simp)
  | onRelease id hphase =>
      have hleft := h.setPhase id .released (by simp)
      exact hleft.of_same rfl rfl rfl rfl rfl hleft.mapped hleft.entering hleft.leaving
  | fetchEnter id n contents hmem hmap =>
      refine h.of_same rfl rfl rfl rfl rfl h.mapped ?_ h.leaving
      intro id' handle hmem'
      rcases List.mem_cons.mp hmem' with heq | hmem'
      · simp only [Prod.mk.injEq] at heq
        exact h.mapped n handle (heq.2 ▸ hmap)
      · exact h.entering id' handle hmem'
  | dropEnter id n hmem hmap =>
      exact h.of_same rfl rfl rfl rfl rfl h.mapped h.entering h.leaving
  | runEnter id contents hmem =>
      have hrest : Book { s with entering := s.entering.erase (id, contents) } :=
        h.of_same rfl rfl rfl rfl rfl h.mapped
          (fun id' handle hmem' => h.entering id' handle (List.mem_of_mem_erase hmem')) h.leaving
      exact hrest.contentsEnter id fun handle heq => h.entering id handle (heq ▸ hmem)
  | event step handle event hstep hhandle => exact h.fightEvent hhandle event
  | rehashMatch order place hperm =>
      exact h.of_same rfl rfl rfl rfl rfl h.mapped h.entering h.leaving
  | fightAlloc pooled matchID group rest hidle hq =>
      have hrest : Book { s with ctrlQ := rest } :=
        h.of_same rfl rfl rfl rfl rfl h.mapped h.entering h.leaving
      exact hrest.handleFightAlloc group pooled matchID
  | fightFree pooled matchID handle rest hidle hq =>
      refine h.of_same rfl rfl rfl rfl rfl ?_ h.entering h.leaving
      exact fun n k hmap => h.mapped n k (mapped_of_deregister hmap)
  | matchDeregister pooled matchID rest hidle hq =>
      refine h.of_same rfl rfl rfl rfl rfl ?_ h.entering h.leaving
      exact fun n k hmap => h.mapped n k (mapped_of_deregister hmap)
  | post n id rest hposting =>
      exact h.of_same rfl rfl rfl rfl rfl h.mapped h.entering h.leaving
  | postDone n hposting =>
      exact h.of_same rfl rfl rfl rfl rfl h.mapped h.entering h.leaving
  | stopAccept hidle =>
      exact h.of_same rfl rfl rfl rfl rfl h.mapped h.entering h.leaving
  | shutDown hstop => exact h.frame s.matchShutDown_frame.frame
  | shutDownLate hmap => exact h

/-! ## The register -/

/-- What the numbers of `_contentsMap` name. -/
structure Register (s : Server) : Prop where
  next : 1 ≤ s.nextContentsNum ∧ s.nextContentsNum < ROOM
  range : ∀ handle < s.created,
    1 ≤ (s.fights handle).contentsNum ∧ (s.fights handle).contentsNum < ROOM
  mapped : ∀ n contents, s.contentsMap n = some contents →
    (contents = .match_ ∧ n = MATCH) ∨
      ∃ handle, contents = .fight handle ∧ handle < s.created ∧
        (s.fights handle).contentsNum = n
  queued : ∀ handle, s.ctrlQ.count (.fightFree handle) ≤ s.frees.count handle
  /-- a fight stays registered until its FIGHTFREE is handled -/
  registered : ∀ handle < s.created,
    (s.fights handle).end_ = true ∨ .fightFree handle ∈ s.ctrlQ →
      s.contentsMap (s.fights handle).contentsNum = some (.fight handle)

theorem register_initial (pooled : FightContents) : Register (initialServer pooled) where
  next := by simp [initialServer, ROOM]
  range := by simp [initialServer]
  mapped := by
    intro n contents h
    simp only [initialServer] at h
    split at h
    · rename_i hn
      simp only [Option.some.injEq] at h
      exact Or.inl ⟨h.symm, hn⟩
    · simp at h
  queued := by simp [initialServer]
  registered := by simp [initialServer]

theorem Register.of_same {s s' : Server} (h : Register s) (hfights : s'.fights = s.fights)
    (hcreated : s'.created = s.created) (hmap : s'.contentsMap = s.contentsMap)
    (hfrees : s'.frees = s.frees)
    (hnext : 1 ≤ s'.nextContentsNum ∧ s'.nextContentsNum < ROOM)
    (hq : ∀ handle, s'.ctrlQ.count (.fightFree handle) ≤ s.ctrlQ.count (.fightFree handle)) :
    Register s' where
  next := hnext
  range := by rw [hcreated, hfights]; exact h.range
  mapped := by rw [hmap, hcreated, hfights]; exact h.mapped
  queued := by
    intro handle
    rw [hfrees]
    exact (hq handle).trans (h.queued handle)
  registered := by
    intro handle hlt hor
    rw [hcreated] at hlt
    rw [hfights] at hor
    rw [hmap, hfights]
    refine h.registered handle hlt (hor.imp_right fun hmem => ?_)
    have hpos := (List.count_pos_iff.mpr hmem).trans_le (hq handle)
    exact List.count_pos_iff.mp hpos

theorem Register.frame {s s' : Server} (h : Register s) (hframe : MatchFrame s s') :
    Register s' := by
  obtain ⟨hframe, more, hmore, hq⟩ := hframe
  refine h.of_same hframe.fights hframe.created hframe.contentsMap hframe.frees
    (by rw [hframe.nextContentsNum]; exact h.next) fun handle => ?_
  have hnone : more.count (.fightFree handle) = 0 :=
    List.count_eq_zero.mpr fun hmem => hmore _ hmem
  rw [hq, List.count_append, hnone, Nat.add_zero]

theorem Register.setPhase {s : Server} (h : Register s) (id : SessionID) (phase : Phase) :
    Register (s.setPhase id phase) :=
  h.of_same rfl rfl rfl rfl h.next fun _ => Nat.le_refl _

/-- One event of a fight keeps the register. -/
theorem Register.fightEvent {s : Server} (h : Register s) {handle : FightHandle}
    (hhandle : handle < s.created) (event : FightEvent) :
    Register (s.fightEvent handle event) := by
  obtain ⟨-, -, -, -, hmap, hcreated, -, hnext, -, -, -, hfights⟩ :=
    s.fightEvent_rest handle event
  have hreq := s.fightEvent_spec handle event
  have hq := hreq.ctrlQ
  have hfrees := hreq.frees
  have hinit := (s.fights handle).fightStep_init event
  have hend := (s.fights handle).fightStep_end event
  -- The number of a fight does not change.
  have hnum : ∀ k, ((s.fightEvent handle event).fights k).contentsNum =
      (s.fights k).contentsNum := by
    intro k
    rw [hfights]
    simp only
    split
    · rename_i heq
      rw [heq]
      exact hinit.1
    · rfl
  constructor
  · rw [hnext]
    exact h.next
  · intro k hk
    rw [hcreated] at hk
    rw [hnum]
    exact h.range k hk
  · intro n contents hc
    rw [hmap] at hc
    rw [hcreated]
    simp only [hnum]
    exact h.mapped n contents hc
  · intro k
    rw [hq, hfrees, List.count_append, List.count_append]
    refine Nat.add_le_add (h.queued k) (Nat.le_of_eq ?_)
    exact List.count_map_of_injective _ _ (fun a b hab => by simpa using hab) k
  · intro k hk hor
    rw [hcreated] at hk
    rw [hmap, hnum]
    refine h.registered k hk ?_
    rw [hfights, hq] at hor
    simp only at hor
    rcases fightEvent_requests handle (s.fights handle) event with
      ⟨hends, _, hf⟩ | ⟨hnot, _, hf⟩
    · have hrunning : (s.fights handle).end_ = true := by
        rw [← (s.fights handle).counted_end event]
        exact hends.2.1
      by_cases heq : k = handle
      · exact Or.inl (heq ▸ hrunning)
      · simpa [heq, hf] using hor
    · by_cases heq : k = handle
      · subst heq
        simpa [hf, hend.2 hnot] using hor
      · simpa [heq, hf] using hor

theorem Register.contentsEnter {s : Server} (h : Register s) (id : SessionID)
    {contents : Contents} (hc : ∀ handle, contents = .fight handle → handle < s.created) :
    Register (s.contentsEnter id contents) := by
  cases contents with
  | match_ => exact h.frame (s.matchEnter_frame id)
  | fight handle =>
      obtain ⟨moved, _, _, hmove, _, hq, henter⟩ := s.fightEnter_moved handle id
      rw [Server.contentsEnter, henter]
      exact (h.frame (MatchFrame.of_ctrlQ_eq hmove hq)).fightEvent (hmove.created ▸ hc handle rfl) _

theorem Register.contentsLeave {s : Server} (h : Register s) (id : SessionID)
    {contents : Contents} (hc : ∀ handle, contents = .fight handle → handle < s.created) :
    Register (s.contentsLeave id contents) := by
  cases contents with
  | match_ => exact h.frame (s.matchLeave_frame id)
  | fight handle => exact h.fightEvent (hc handle rfl) _

/-- The numbers handed to fights stay in their range. -/
theorem advanceContentsNum_range {n : ContentsNum} (h : 1 ≤ n ∧ n < ROOM) :
    1 ≤ advanceContentsNum n ∧ advanceContentsNum n < ROOM := by
  have hint : ∀ m : Int, 1 ≤ m → (1 : Int) ≤ (if (m + 1) % 1000000000 = 0 then
      (m + 1) % 1000000000 + 1 else (m + 1) % 1000000000) ∧
      (if (m + 1) % 1000000000 = 0 then (m + 1) % 1000000000 + 1 else (m + 1) % 1000000000) <
        1000000000 := by
    intro m hm
    split <;> omega
  have hnext : (n + 1 : Int).tmod ROOM = (n + 1 : Int) % 1000000000 :=
    Int.tmod_eq_emod_of_nonneg (Int.add_nonneg (Int.le_trans (by decide) h.1) (by decide))
  unfold advanceContentsNum
  rw [hnext]
  exact hint n h.1

theorem range_ne_match {n : ContentsNum} (h : n < ROOM) : n ≠ MATCH := by
  rintro rfl
  exact absurd h (by decide)

end Server

/-! ## Runs -/

/-- A FIGHTALLOC is handled only when its contents number is not in use. -/
def Unshared (s : Server) : Step → Prop
  | .control _ _ =>
      match s.ctrlQ with
      | .fightAlloc _ :: _ => s.contentsMap s.nextContentsNum = none
      | _ => True
  | _ => True

instance (s : Server) (step : Step) : Decidable (Unshared s step) := by
  unfold Unshared
  split
  · split <;> infer_instance
  · infer_instance

namespace Server

theorem Register.fightAlloc {s : Server} (h : Register s) {group : Group} {rest : List Control}
    (hq : s.ctrlQ = .fightAlloc group :: rest)
    (hfree : s.contentsMap s.nextContentsNum = none) (pooled : FightContents) (matchID : Int) :
    Register ({ s with ctrlQ := rest }.handleFightAlloc group pooled matchID) := by
  rw [handleFightAlloc_eq]
  have hcount : ∀ handle, rest.count (.fightFree handle) = s.ctrlQ.count (.fightFree handle) := by
    intro handle
    rw [hq, List.count_cons]
    simp
  constructor
  · exact h.next
  · intro handle hlt
    simp only
    split
    · exact h.next
    · rename_i hne
      exact h.range handle (Nat.lt_of_le_of_ne (Nat.le_of_lt_succ hlt) hne)
  · intro n contents hc
    simp only at hc
    split at hc
    · rename_i hn
      simp only [Option.some.injEq] at hc
      refine Or.inr ⟨s.created, hc.symm, Nat.lt_succ_self _, ?_⟩
      simp only [if_true]
      exact hn.1.symm
    · rcases h.mapped n contents hc with hm | ⟨handle, hc', hlt, hnum⟩
      · exact Or.inl hm
      · refine Or.inr ⟨handle, hc', Nat.lt_succ_of_lt hlt, ?_⟩
        simp only [if_neg (Nat.ne_of_lt hlt)]
        exact hnum
  · intro handle
    simp only [hcount]
    exact h.queued handle
  · intro handle hlt hor
    simp only at hor ⊢
    by_cases heq : handle = s.created
    · simp only [heq, if_true]
      rw [if_pos ⟨rfl, hfree⟩]
    · have hold : handle < s.created := Nat.lt_of_le_of_ne (Nat.le_of_lt_succ hlt) heq
      simp only [if_neg heq] at hor ⊢
      have hreg := h.registered handle hold (hor.imp_right fun hmem => by
        rw [hq]
        exact List.mem_cons_of_mem _ hmem)
      rw [if_neg (fun hn => by rw [hn.2] at hreg; simp at hreg)]
      exact hreg

/-- The FIGHTFREE of a fight finds it registered, and is the only one. -/
theorem fightFree_registered {s : Server} (h : Register s) (hbook : Book s)
    {handle : FightHandle} {rest : List Control} (hq : s.ctrlQ = .fightFree handle :: rest) :
    handle < s.created ∧ (s.fights handle).end_ = false ∧
      s.contentsMap (s.fights handle).contentsNum = some (.fight handle) ∧
      .fightFree handle ∉ rest := by
  have hcount := h.queued handle
  rw [hq, List.count_cons_self] at hcount
  have hlt : handle < s.created := by
    by_contra hge
    have hnone := List.count_eq_zero.mpr (hbook.fresh handle (Nat.le_of_not_lt hge)).2
    omega
  have hfreed := hbook.freed handle hlt
  have hend : (s.fights handle).end_ = false := by
    cases he : (s.fights handle).end_ with
    | false => rfl
    | true =>
        rw [he, if_pos rfl] at hfreed
        omega
  rw [hend] at hfreed
  simp only [Bool.false_eq_true, if_false] at hfreed
  refine ⟨hlt, hend, h.registered handle hlt (Or.inr (by rw [hq]; simp)), ?_⟩
  exact List.count_eq_zero.mp (by omega)

/-- A request is taken, and a number that no fight needs any more is deregistered. -/
theorem Register.deregister {s : Server} (h : Register s) {control : Control}
    {rest : List Control} (hq : s.ctrlQ = control :: rest) {n : ContentsNum}
    (hneeded : ∀ k < s.created, (s.fights k).end_ = true ∨ .fightFree k ∈ rest →
      s.contentsMap (s.fights k).contentsNum = some (.fight k) → (s.fights k).contentsNum ≠ n) :
    Register ({ s with ctrlQ := rest }.deregisterContents n) := by
  constructor
  · exact h.next
  · exact h.range
  · exact fun n contents hc => h.mapped n contents (mapped_of_deregister hc)
  · intro k
    refine Nat.le_trans ?_ (h.queued k)
    rw [hq]
    exact List.count_le_count_cons
  · intro k hk hor
    have hregk := h.registered k hk (hor.imp_right fun hmem => by
      rw [hq]
      exact List.mem_cons_of_mem _ hmem)
    simp only [deregisterContents]
    rw [if_neg (hneeded k hk hor hregk)]
    exact hregk

theorem Register.fightFree {s : Server} (h : Register s) (hbook : Book s)
    {handle : FightHandle} {rest : List Control} (hq : s.ctrlQ = .fightFree handle :: rest) :
    Register ({ s with ctrlQ := rest }.handleFightFree handle) := by
  obtain ⟨hlt, hend, hreg, hnotMem⟩ := fightFree_registered h hbook hq
  refine h.deregister hq fun k hk hor hregk hnum => ?_
  rw [hnum, hreg, Option.some.injEq, Contents.fight.injEq] at hregk
  subst hregk
  rcases hor with hor | hor
  · exact absurd (hend.symm.trans hor) (by simp)
  · exact hnotMem hor

/-- **A step that shares no number keeps the register.** -/
theorem Register.step {s s' : Server} {step : Step} (h : Register s) (hbook : Book s)
    (hok : Unshared s step) (hstep : Stepped s step s') : Register s' := by
  cases hstep with
  | accept id hrun hidle hnew => exact h.of_same rfl rfl rfl rfl h.next fun _ => Nat.le_refl _
  | onAccept pooled id hacc hnew => exact h.of_same rfl rfl rfl rfl h.next fun _ => Nat.le_refl _
  | acceptEnter id entered hacc hknown hentered =>
      have hentered : Register entered := by
        rcases hentered with ⟨contents, hmap, rfl⟩ | ⟨_, rfl⟩
        · exact h.contentsEnter id fun handle heq => hbook.mapped MATCH handle (heq ▸ hmap)
        · exact h
      exact (hentered.setPhase id .live).of_same rfl rfl rfl rfl hentered.next
        fun _ => Nat.le_refl _
  | disconnect id => exact h.frame (MatchFrame.of_ctrlQ_eq (s.disconnect_frame id) rfl)
  | release id hphase => exact h.setPhase id _
  | releaseFetch id hphase => exact h.setPhase id _
  | releaseLeave id contents hphase =>
      refine (h.contentsLeave id fun handle heq => ?_).setPhase id _
      exact hbook.leaving id handle (heq ▸ hphase)
  | releaseNone id hphase => exact h.setPhase id _
  | onRelease id hphase => exact h.of_same rfl rfl rfl rfl h.next fun _ => Nat.le_refl _
  | fetchEnter id n contents hmem hmap =>
      exact h.of_same rfl rfl rfl rfl h.next fun _ => Nat.le_refl _
  | dropEnter id n hmem hmap => exact h.of_same rfl rfl rfl rfl h.next fun _ => Nat.le_refl _
  | runEnter id contents hmem =>
      have hrest : Register { s with entering := s.entering.erase (id, contents) } :=
        h.of_same rfl rfl rfl rfl h.next fun _ => Nat.le_refl _
      exact hrest.contentsEnter id fun handle heq => hbook.entering id handle (heq ▸ hmem)
  | event step handle event hstep hhandle => exact h.fightEvent hhandle event
  | rehashMatch order place hperm => exact h.of_same rfl rfl rfl rfl h.next fun _ => Nat.le_refl _
  | fightAlloc pooled matchID group rest hidle hq =>
      have hfree : s.contentsMap s.nextContentsNum = none := by
        simpa only [Unshared, hq] using hok
      exact h.fightAlloc hq hfree pooled matchID
  | fightFree pooled matchID handle rest hidle hq => exact h.fightFree hbook hq
  | matchDeregister pooled matchID rest hidle hq =>
      exact h.deregister hq fun k hk _ _ => range_ne_match (h.range k hk).2
  | post n id rest hposting => exact h.of_same rfl rfl rfl rfl h.next fun _ => Nat.le_refl _
  | postDone n hposting =>
      exact h.of_same rfl rfl rfl rfl (advanceContentsNum_range h.next) fun _ => Nat.le_refl _
  | stopAccept hidle => exact h.of_same rfl rfl rfl rfl h.next fun _ => Nat.le_refl _
  | shutDown hstop => exact h.frame s.matchShutDown_frame
  | shutDownLate hmap => exact h

end Server

/-- Every run keeps the book. -/
theorem run_book {pooled : FightContents} {steps : List Step} {s : Server}
    (hrun : exec systemStep (initialServer pooled) steps = some s) : s.Book :=
  exec_invariant (fun _ _ _ h hs => h.step (systemStep_stepped hs)) (Server.book_initial pooled)
    hrun

/-- Every run that shares no number keeps the register. -/
theorem run_register {pooled : FightContents} {steps : List Step} {s : Server}
    (hok : Along systemStep Unshared (initialServer pooled) steps)
    (hrun : exec systemStep (initialServer pooled) steps = some s) : s.Register := by
  have h : s.Book ∧ s.Register :=
    exec_invariant_along (I := fun s => s.Book ∧ s.Register)
      (fun _ _ _ h hok hs => ⟨h.1.step (systemStep_stepped hs),
        h.2.step h.1 hok (systemStep_stepped hs)⟩)
      ⟨Server.book_initial pooled, Server.register_initial pooled⟩ hok hrun
  exact h.2

/-- **A fight finishes at most once.**  In every run, a fight pushes at most one
result and enqueues one FIGHTFREE with it, and a fight that has ended has done both; the
result carries what `Init` was given and a team as the winner.  If no number is shared, the
FIGHTFREE finds the fight registered and takes it, and nothing else, out of `_contentsMap`. -/
theorem fight_finishes_once (pooled : FightContents) (steps : List Step) (s : Server)
    (hrun : exec systemStep (initialServer pooled) steps = some s) (handle : FightHandle)
    (hhandle : handle < s.created) :
    s.dbQ.countP (fun entry => entry.1 = handle) ≤ 1 ∧
      s.frees.count handle = s.dbQ.countP (fun entry => entry.1 = handle) ∧
      ((s.fights handle).end_ = false →
        s.dbQ.countP (fun entry => entry.1 = handle) = 1 ∧ s.frees.count handle = 1) ∧
      (∀ result, (handle, result) ∈ s.dbQ →
        result.matchID = (s.inits handle).1 ∧ result.red = (s.inits handle).2.red ∧
        result.blue = (s.inits handle).2.blue ∧
        (result.winnerTeam = 1 ∨ result.winnerTeam = 2)) ∧
      (Along systemStep Unshared (initialServer pooled) steps →
        ∀ rest pooled' matchID s', s.ctrlQ = .fightFree handle :: rest →
          systemStep s (.control pooled' matchID) = some s' →
          s.contentsMap (s.fights handle).contentsNum = some (.fight handle) ∧
          ∀ n, s'.contentsMap n =
            if n = (s.fights handle).contentsNum then none else s.contentsMap n) := by
  have hbook := run_book hrun
  have hsaved := hbook.saved handle hhandle
  have hfreed := hbook.freed handle hhandle
  refine ⟨?_, hfreed.trans hsaved.symm, fun hended => ?_, hbook.results handle, ?_⟩
  · rw [hsaved]
    split <;> omega
  · rw [hsaved, hfreed, hended]
    exact ⟨rfl, rfl⟩
  · intro hok rest pooled' matchID s' hq hstep
    obtain ⟨_, _, hreg, _⟩ := Server.fightFree_registered (run_register hok hrun) hbook hq
    refine ⟨hreg, fun n => ?_⟩
    cases hidle : s.posting with
    | none =>
        simp only [systemStep, hidle, hq, Option.some.injEq] at hstep
        rw [← hstep]
        rfl
    | some posting => simp [systemStep, hidle] at hstep

/-- Six clients connect, and the match groups them. -/
def sixAccepted : List Step :=
  (List.range 6).flatMap fun i =>
    [.accept (firstSession i), .onAccept (firstPlayer i .red), .acceptEnter]

/-- The control thread allocates the first fight and posts its six enter events. -/
def fightPosted : List Step :=
  sixAccepted ++ .control pooledFight 1 :: List.replicate 7 .post

/-- A worker takes the enter event of a session for the first fight and runs it. -/
def entersFight (i : Nat) : List Step :=
  [.fetchEnter (firstSession i) 1, .runEnter (firstSession i) (.fight 0)]

/-- A session is released up to its `OnLeave`. -/
def leavesFight (i : Nat) : List Step :=
  [.release (firstSession i), .releaseFetch (firstSession i), .releaseLeave (firstSession i)]

/-- A whole fight: everybody enters, and one team leaves. -/
def wholeFight : List Step :=
  fightPosted ++ (List.range 6).flatMap entersFight ++ (List.range 3).flatMap leavesFight

theorem wholeFight_finishes_once :
    ∃ s, exec systemStep (initialServer pooledFight) wholeFight = some s ∧ 0 < s.created ∧
      s.dbQ.countP (fun entry => entry.1 = 0) ≤ 1 ∧
      (s.dbQ.countP (fun entry => entry.1 = 0) = 1 ∧ s.frees.count 0 = 1) ∧
      s.ctrlQ = [.fightFree 0] := by
  have hlast : (exec systemStep (initialServer pooledFight) wholeFight).map
      (fun s => (s.created, (s.fights 0).end_, s.ctrlQ)) = some (1, false, [.fightFree 0]) := by
    decide +kernel
  obtain ⟨s, hs, heq⟩ := Option.map_eq_some_iff.mp hlast
  rw [Prod.mk.injEq, Prod.mk.injEq] at heq
  obtain ⟨hcreated, hended, hq⟩ := heq
  have hlt : 0 < s.created := by omega
  obtain ⟨hsaved, -, hboth, -⟩ := fight_finishes_once pooledFight wholeFight s hs 0 hlt
  exact ⟨s, hs, hlt, hsaved, hboth hended, hq⟩

end SessionServer.Battle
