/-
  Battle/HomeCount.lean --- the enter events of a fight.

  A registered fight has six enter events, handled or pending, as long as no fight ends
  with some of them still to come.  So a fight that has finished has none left, and
  taking it out of `_contentsMap` drops no event.
-/
import SessionServer.Battle.Home

set_option autoImplicit false

namespace SessionServer.Battle

open SessionServer.Foundation

namespace Server

/-! ## The enter events still to come -/

/-- The enter events of a fight that have not been handled. -/
def pending (s : Server) (n : ContentsNum) (handle : FightHandle) : Nat :=
  s.queue.countP (fun event => event.2 = n) +
    s.entering.countP (fun event => event.2 = .fight handle) +
    match s.posting with
    | some (m, rest) => if m = n then rest.length else 0
    | none => 0

/-- Every enter event belongs to a registered fight, and a registered fight has six of
them, handled or pending. -/
structure Counted (s : Server) : Prop where
  queued : ∀ id n, (id, n) ∈ s.queue → ∃ handle, s.contentsMap n = some (.fight handle)
  entering : ∀ id contents, (id, contents) ∈ s.entering →
    ∃ handle, contents = .fight handle ∧ s.Registered contents
  posting : ∀ n id rest, s.posting = some (n, id :: rest) →
    ∃ handle, s.contentsMap n = some (.fight handle)
  account : ∀ n handle, s.contentsMap n = some (.fight handle) →
    (s.fights handle).matched + s.pending n handle = 6
  finished : ∀ handle < s.created, (s.fights handle).end_ = false →
    6 ≤ (s.fights handle).matched

theorem counted_initial (pooled : FightContents) : Counted (initialServer pooled) where
  queued := by simp [initialServer]
  entering := by simp [initialServer]
  posting := by simp [initialServer]
  account := by
    intro n handle h
    simp only [initialServer] at h
    split at h <;> simp at h
  finished := by simp [initialServer]

theorem pending_congr {s s' : Server} (hqueue : s'.queue = s.queue)
    (hentering : s'.entering = s.entering) (hposting : s'.posting = s.posting) (n : ContentsNum)
    (handle : FightHandle) : s'.pending n handle = s.pending n handle := by
  simp only [pending, hqueue, hentering, hposting]

theorem Counted.of_same {s s' : Server} (h : Counted s) (hfights : s'.fights = s.fights)
    (hcreated : s'.created = s.created) (hmap : s'.contentsMap = s.contentsMap)
    (hqueue : s'.queue = s.queue) (hentering : s'.entering = s.entering)
    (hposting : s'.posting = s.posting) : Counted s' where
  queued := by rw [hqueue, hmap]; exact h.queued
  entering := by
    intro id contents hmem
    rw [hentering] at hmem
    obtain ⟨handle, rfl, hreg⟩ := h.entering id contents hmem
    refine ⟨handle, rfl, ?_⟩
    simpa only [Registered, numberOf, hmap, hfights] using hreg
  posting := by rw [hposting, hmap]; exact h.posting
  account := by
    intro n handle hm
    rw [hmap] at hm
    rw [hfights, pending_congr hqueue hentering hposting]
    exact h.account n handle hm
  finished := by rw [hcreated, hfights]; exact h.finished

theorem Counted.frame {s s' : Server} (h : Counted s) (hframe : Frame s s') : Counted s' :=
  h.of_same hframe.fights hframe.created hframe.contentsMap hframe.queue hframe.entering
    hframe.posting

/-- A finished fight has no enter event left. -/
theorem Counted.none_pending {s : Server} (h : Counted s) {handle : FightHandle}
    (hlt : handle < s.created) (hend : (s.fights handle).end_ = false)
    (hreg : s.Registered (.fight handle)) :
    s.pending (s.fights handle).contentsNum handle = 0 := by
  have hacc := h.account (s.fights handle).contentsNum handle hreg
  have hfin := h.finished handle hlt hend
  omega

/-- A fight that one of its enter events has been fetched for is still running. -/
theorem Counted.entering_running {s : Server} (h : Counted s) (hbook : Book s) {id : SessionID}
    {handle : FightHandle} (hmem : (id, .fight handle) ∈ s.entering) :
    s.contentsMap (s.fights handle).contentsNum = some (.fight handle) ∧
      (s.fights handle).end_ = true := by
  obtain ⟨_, _, hreg⟩ := h.entering id _ hmem
  refine ⟨hreg, ?_⟩
  have hlt := hbook.entering id handle hmem
  cases hend : (s.fights handle).end_ with
  | true => rfl
  | false =>
      have hzero := h.none_pending hlt hend hreg
      have hpos : 0 < s.entering.countP (fun event => event.2 = .fight handle) :=
        List.countP_pos_iff.mpr ⟨_, hmem, by simp⟩
      simp only [pending] at hzero
      omega

/-- An event of a fight moves its own enter events, if any, to the handled side. -/
theorem counted_fightEvent {s : Server} {handle : FightHandle} {event : FightEvent}
    (hqueued : ∀ id n, (id, n) ∈ s.queue → ∃ handle, s.contentsMap n = some (.fight handle))
    (hentering : ∀ id contents, (id, contents) ∈ s.entering →
      ∃ handle, contents = .fight handle ∧ s.Registered contents)
    (hposting : ∀ n id rest, s.posting = some (n, id :: rest) →
      ∃ handle, s.contentsMap n = some (.fight handle))
    (haccount : ∀ n k, s.contentsMap n = some (.fight k) →
      (s.fights k).matched + s.pending n k +
        (if k = handle then event.entering.toList.length else 0) = 6)
    (hfinished : ∀ k < s.created, (s.fights k).end_ = false → 6 ≤ (s.fights k).matched)
    (hends : (s.fights handle).Ends event →
      6 ≤ (s.fights handle).matched + event.entering.toList.length) :
    Counted (s.fightEvent handle event) := by
  obtain ⟨-, -, -, -, hmap, hcreated, hpost, -, hqueue, hent, -, hfights⟩ :=
    s.fightEvent_rest handle event
  have hmatched := (s.fights handle).fightStep_matched event
  have hend := (s.fights handle).fightStep_end event
  constructor
  · rw [hqueue, hmap]
    exact hqueued
  · intro id contents hmem
    rw [hent] at hmem
    obtain ⟨k, rfl, hreg⟩ := hentering id contents hmem
    refine ⟨k, rfl, ?_⟩
    simp only [Registered, numberOf, hmap, hfights] at hreg ⊢
    split
    · rename_i heq
      rw [((s.fights handle).fightStep_init event).1, ← heq]
      exact hreg
    · exact hreg
  · rw [hpost, hmap]
    exact hposting
  · intro n k hm
    rw [hmap] at hm
    have hacc := haccount n k hm
    rw [pending_congr hqueue hent hpost, hfights]
    simp only
    split
    · rename_i heq
      rw [if_pos heq] at hacc
      rw [hmatched, ← heq]
      omega
    · rename_i hne
      rw [if_neg hne] at hacc
      simpa using hacc
  · intro k hk
    rw [hcreated] at hk
    rw [hfights]
    simp only
    split
    · intro hf
      rw [hmatched]
      by_cases he : (s.fights handle).Ends event
      · exact hends he
      · rename_i heq
        rw [hend.2 he, ← heq] at hf
        have := hfinished k hk hf
        rw [← heq]
        omega
    · exact hfinished k hk

/-- An event other than an enter event. -/
theorem Counted.fightEvent {s : Server} (h : Counted s) {handle : FightHandle}
    {event : FightEvent} (hevent : event.entering = none)
    (hends : (s.fights handle).Ends event → 6 ≤ (s.fights handle).matched) :
    Counted (s.fightEvent handle event) := by
  refine counted_fightEvent h.queued h.entering h.posting ?_ h.finished ?_
  · intro n k hm
    have := h.account n k hm
    simpa [hevent] using this
  · intro he
    simpa [hevent] using hends he

/-- The enter event of a fight is handled. -/
theorem Counted.runEnter {s : Server} (h : Counted s) {id : SessionID}
    {handle : FightHandle} (hmem : (id, .fight handle) ∈ s.entering) :
    Counted ({ s with entering := s.entering.erase (id, .fight handle) }.fightEnter handle id) := by
  have hrest : ∀ id' contents, (id', contents) ∈ s.entering.erase (id, .fight handle) →
      ∃ k, contents = .fight k ∧
        Registered { s with entering := s.entering.erase (id, .fight handle) } contents :=
    fun id' contents hm => h.entering id' contents (List.mem_of_mem_erase hm)
  have haccount : ∀ n k, s.contentsMap n = some (.fight k) →
      (s.fights k).matched +
        pending { s with entering := s.entering.erase (id, .fight handle) } n k +
        ((if k = handle then 1 else 0 : Nat) : Int) = 6 := by
    intro n k hm
    have hacc := h.account n k hm
    have hcount := List.countP_erase (fun event : SessionID × Contents => event.2 = .fight k)
      s.entering (id, .fight handle)
    simp only [pending] at hacc ⊢
    rw [hcount]
    by_cases heq : k = handle
    · subst heq
      have hpos : 0 < s.entering.countP (fun event => event.2 = .fight k) :=
        List.countP_pos_iff.mpr ⟨_, hmem, by simp⟩
      simp only [hmem, decide_true, and_self, if_true]
      omega
    · have hne : ¬ handle = k := fun he => heq he.symm
      simp only [Contents.fight.injEq, hne, decide_false, Bool.false_eq_true, and_false, if_false,
        heq]
      omega
  have hends : ∀ (f : FightContents) (found : Option Player) (moved : Bool),
      f.Ends (.enter id found moved) →
        6 ≤ f.matched + (FightEvent.enter id found moved).entering.toList.length :=
    fun _ _ _ he => he.1
  obtain ⟨moved, _, _, hmove, _, _, henter⟩ := fightEnter_moved
    { s with entering := s.entering.erase (id, .fight handle) } handle id
  rw [henter]
  refine counted_fightEvent ?_ ?_ ?_ ?_ ?_ (hends _ _ _)
  · rw [hmove.queue, hmove.contentsMap]
    exact h.queued
  · rw [hmove.entering]
    simp only [Registered, numberOf, hmove.contentsMap, hmove.fights]
    exact hrest
  · rw [hmove.posting, hmove.contentsMap]
    exact h.posting
  · rw [hmove.contentsMap, hmove.fights]
    simp only [pending_congr hmove.queue hmove.entering hmove.posting]
    exact haccount
  · rw [hmove.created, hmove.fights]
    exact h.finished

theorem leavingTo_of_phaseOf {s : Server} {id : SessionID} {target : Option Contents}
    (h : s.phaseOf id = some (.leaving target)) : s.leavingTo id = some target := by
  unfold phaseOf at h
  obtain ⟨session, hs, hphase⟩ := Option.map_eq_some_iff.mp h
  obtain ⟨phase, dFlag, contentsNum⟩ := session
  subst hphase
  simp [leavingTo, hs]

/-- The number of the match names the match. -/
theorem Register.match_contents {s : Server} (h : Register s) {contents : Contents}
    (hmap : s.contentsMap MATCH = some contents) : contents = .match_ := by
  rcases h.mapped MATCH contents hmap with ⟨hc, _⟩ | ⟨handle, _, hlt, hnum⟩
  · exact hc
  · exact absurd hnum (range_ne_match (h.range handle hlt).2)

/-- A number names the fight that has it. -/
theorem Register.numberOf_fight {s : Server} (h : Register s) {n : ContentsNum}
    {handle : FightHandle} (hmap : s.contentsMap n = some (.fight handle)) :
    (s.fights handle).contentsNum = n := by
  rcases h.mapped n _ hmap with ⟨hc, _⟩ | ⟨k, hc, _, hnum⟩
  · simp at hc
  · simp only [Contents.fight.injEq] at hc
    rw [hc]
    exact hnum

theorem Counted.fetchEnter {s : Server} (h : Counted s) (hreg : Register s) {id : SessionID}
    {n : ContentsNum} {contents : Contents} (hmem : (id, n) ∈ s.queue)
    (hmap : s.contentsMap n = some contents) :
    Counted { s with
      queue := s.queue.erase (id, n)
      entering := (id, contents) :: s.entering } := by
  obtain ⟨handle, hmap'⟩ := h.queued id n hmem
  rw [hmap, Option.some.injEq] at hmap'
  subst hmap'
  have hnum := hreg.numberOf_fight hmap
  constructor
  · intro id' n' hm
    exact h.queued id' n' (List.mem_of_mem_erase hm)
  · intro id' contents hm
    rcases List.mem_cons.mp hm with heq | hm
    · rw [Prod.mk.injEq] at heq
      obtain ⟨_, rfl⟩ := heq
      refine ⟨handle, rfl, ?_⟩
      show s.contentsMap (s.fights handle).contentsNum = some (.fight handle)
      rw [hnum]
      exact hmap
    · exact h.entering id' contents hm
  · exact h.posting
  · intro n' k hm
    have hacc := h.account n' k hm
    have hcount := List.countP_erase (fun event : SessionID × ContentsNum => event.2 = n')
      s.queue (id, n)
    simp only [pending, hcount, List.countP_cons] at hacc ⊢
    by_cases heq : n' = n
    · subst heq
      have hk : k = handle := by
        have hm : s.contentsMap n' = some (.fight k) := hm
        rw [hmap] at hm
        simpa using hm.symm
      subst hk
      have hpos : 0 < s.queue.countP (fun event => event.2 = n') :=
        List.countP_pos_iff.mpr ⟨_, hmem, by simp⟩
      simp only [hmem, decide_true, and_self, if_true]
      omega
    · have hne : ¬ n = n' := fun he => heq he.symm
      have hk : ¬ handle = k := by
        rintro rfl
        exact heq ((hreg.numberOf_fight hm).symm.trans hnum)
      simp only [hne, Contents.fight.injEq, hk, decide_false, Bool.false_eq_true, and_false,
        if_false]
      omega
  · exact h.finished

theorem Counted.fightAlloc {s : Server} (h : Counted s) (hbook : Book s)
    (hidle : s.posting = none) (hfree : s.contentsMap s.nextContentsNum = none) (group : Group)
    (pooled : FightContents) (matchID : Int) (rest : List Control) :
    Counted ({ s with ctrlQ := rest }.handleFightAlloc group pooled matchID) := by
  rw [handleFightAlloc_eq]
  -- A number that names a contents goes on naming it.
  have hkeep : ∀ n contents, s.contentsMap n = some contents →
      (if n = s.nextContentsNum ∧ s.contentsMap n = none then some (.fight s.created)
        else s.contentsMap n) = some contents := by
    intro n contents hm
    rw [if_neg (by rw [hm]; simp)]
    exact hm
  constructor
  · intro id n hm
    obtain ⟨handle, hmap⟩ := h.queued id n hm
    exact ⟨handle, hkeep n _ hmap⟩
  · intro id contents hm
    obtain ⟨handle, rfl, hreg⟩ := h.entering id contents hm
    refine ⟨handle, rfl, ?_⟩
    have hlt := hbook.entering id handle hm
    simp only [Registered, numberOf, if_neg (Nat.ne_of_lt hlt)] at hreg ⊢
    exact hkeep _ _ hreg
  · intro n id more hp
    simp only [Option.some.injEq, Prod.mk.injEq] at hp
    refine ⟨s.created, ?_⟩
    simp only
    rw [← hp.1, if_pos ⟨rfl, hfree⟩]
  · intro n handle hm
    simp only [pending] at hm ⊢
    split at hm
    · rename_i hn
      simp only [Option.some.injEq, Contents.fight.injEq] at hm
      obtain ⟨rfl, _⟩ := hn
      subst hm
      have hq : s.queue.countP (fun event => event.2 = s.nextContentsNum) = 0 := by
        rw [List.countP_eq_zero]
        rintro ⟨id, n⟩ hmem hn
        simp only [decide_eq_true_eq] at hn
        obtain ⟨handle, hmap⟩ := h.queued id n hmem
        rw [hn, hfree] at hmap
        simp at hmap
      have he : s.entering.countP (fun event => event.2 = .fight s.created) = 0 := by
        rw [List.countP_eq_zero]
        rintro ⟨id, contents⟩ hmem hc
        simp only [decide_eq_true_eq] at hc
        exact Nat.lt_irrefl _ (hbook.entering id s.created (hc ▸ hmem))
      simp only [if_true, hq, he, (newFight_init pooled _ matchID group).2.1, Group.sessions,
        List.length_cons, List.length_nil]
      rfl
    · have hlt := hbook.mapped n handle hm
      have hne : ¬ s.nextContentsNum = n := by
        rintro rfl
        rw [hfree] at hm
        simp at hm
      have hacc := h.account n handle hm
      simp only [pending, hidle] at hacc
      simp only [if_neg (Nat.ne_of_lt hlt), hne, if_false]
      exact hacc
  · intro handle hlt
    simp only
    split
    · rw [(newFight_init pooled _ matchID group).1]
      simp
    · rename_i hne
      exact h.finished handle (Nat.lt_of_le_of_ne (Nat.le_of_lt_succ hlt) hne)

/-- Nothing is pending at a number whose fight has finished. -/
theorem Counted.deregister {s s' : Server} (h : Counted s) {m : ContentsNum}
    (hfights : s'.fights = s.fights) (hcreated : s'.created = s.created)
    (hmap : ∀ n, s'.contentsMap n = if n = m then none else s.contentsMap n)
    (hqueue : s'.queue = s.queue) (hentering : s'.entering = s.entering)
    (hposting : s'.posting = none)
    (hidle : s.posting = none)
    (hnone : ∀ handle, s.contentsMap m = some (.fight handle) → s.pending m handle = 0) :
    Counted s' := by
  have hq : ∀ id n, (id, n) ∈ s.queue → n ≠ m := by
    rintro id n hmem rfl
    obtain ⟨handle, hm⟩ := h.queued id n hmem
    have hzero := hnone handle hm
    have hpos : 0 < s.queue.countP (fun event => event.2 = n) :=
      List.countP_pos_iff.mpr ⟨_, hmem, by simp⟩
    simp only [pending] at hzero
    omega
  constructor
  · intro id n hmem
    rw [hqueue] at hmem
    rw [hmap, if_neg (hq id n hmem)]
    exact h.queued id n hmem
  · intro id contents hmem
    rw [hentering] at hmem
    obtain ⟨handle, rfl, hr⟩ := h.entering id contents hmem
    refine ⟨handle, rfl, ?_⟩
    have hr : s.contentsMap (s.fights handle).contentsNum = some (.fight handle) := hr
    simp only [Registered, numberOf, hfights, hmap]
    rw [if_neg]
    · exact hr
    · rintro rfl
      have hzero := hnone handle hr
      have hpos : 0 < s.entering.countP (fun event => event.2 = .fight handle) :=
        List.countP_pos_iff.mpr ⟨_, hmem, by simp⟩
      simp only [pending] at hzero
      omega
  · intro n id rest hp
    rw [hposting] at hp
    simp at hp
  · intro n handle hm
    rw [hmap] at hm
    split at hm
    · simp at hm
    · rw [hfights, pending_congr hqueue hentering (hposting.trans hidle.symm)]
      exact h.account n handle hm
  · rw [hcreated, hfights]
    exact h.finished

end Server

/-- No leave ends a fight some of whose enter events are still to come. -/
def NoEarlyEnd (s : Server) : Step → Prop
  | .releaseLeave id =>
      match s.leavingTo id with
      | some (some (.fight handle)) => ¬ EarlyLastLeave (s.fights handle) id
      | _ => True
  | _ => True

instance (s : Server) (step : Step) : Decidable (NoEarlyEnd s step) := by
  unfold NoEarlyEnd
  split
  · split <;> infer_instance
  · infer_instance

namespace Server

/-- **A step that ends no fight early keeps the account of the enter events.** -/
theorem Counted.step {s s' : Server} {step : Step} (h : Counted s) (hbook : Book s)
    (hreg : Register s) (hok : Unshared s step) (hearly : NoEarlyEnd s step)
    (hstep : Stepped s step s') : Counted s' := by
  cases hstep with
  | accept id hrun hidle hnew => exact h.of_same rfl rfl rfl rfl rfl rfl
  | onAccept pooled id hacc hnew => exact h.of_same rfl rfl rfl rfl rfl rfl
  | acceptEnter id entered hacc hknown hentered =>
      have hentered : Counted entered := by
        rcases hentered with ⟨contents, hmap, rfl⟩ | ⟨_, rfl⟩
        · rw [hreg.match_contents hmap]
          exact h.frame (s.matchEnter_frame id).frame
        · exact h
      exact hentered.of_same rfl rfl rfl rfl rfl rfl
  | disconnect id => exact h.frame (s.disconnect_frame id)
  | release id hphase => exact h.of_same rfl rfl rfl rfl rfl rfl
  | releaseFetch id hphase => exact h.of_same rfl rfl rfl rfl rfl rfl
  | releaseLeave id contents hphase =>
      have hleft : Counted (s.contentsLeave id contents) := by
        cases contents with
        | match_ => exact h.frame (s.matchLeave_frame id).frame
        | fight handle =>
            refine h.fightEvent rfl fun hends => ?_
            simp only [NoEarlyEnd, leavingTo_of_phaseOf hphase] at hearly
            by_contra hlt
            exact hearly ⟨Int.not_le.mp hlt, FightContents.ends_leave_iff.mp hends⟩
      exact hleft.of_same rfl rfl rfl rfl rfl rfl
  | releaseNone id hphase => exact h.of_same rfl rfl rfl rfl rfl rfl
  | onRelease id hphase => exact h.of_same rfl rfl rfl rfl rfl rfl
  | fetchEnter id n contents hmem hmap => exact h.fetchEnter hreg hmem hmap
  | dropEnter id n hmem hmap =>
      obtain ⟨handle, hm⟩ := h.queued id n hmem
      rw [hmap] at hm
      simp at hm
  | runEnter id contents hmem =>
      obtain ⟨handle, rfl, _⟩ := h.entering id contents hmem
      exact h.runEnter hmem
  | event step handle event hstep hhandle =>
      cases step with
      | update handle' now => cases hstep; exact h.fightEvent rfl fun he => he.1.elim
      | message handle' id msg now => cases hstep; exact h.fightEvent rfl fun he => he.1.elim
      | rehash handle' order => cases hstep; exact h.fightEvent rfl fun he => he.1.elim
      | _ => simp [Step.event?] at hstep
  | rehashMatch order place hperm => exact h.of_same rfl rfl rfl rfl rfl rfl
  | fightAlloc pooled matchID group rest hidle hq =>
      have hfree : s.contentsMap s.nextContentsNum = none := by
        simpa only [Unshared, hq] using hok
      exact h.fightAlloc hbook hidle hfree group pooled matchID rest
  | fightFree pooled matchID handle rest hidle hq =>
      obtain ⟨hlt, hend, hr, _⟩ := fightFree_registered hreg hbook hq
      refine h.deregister rfl rfl (fun _ => rfl) rfl rfl hidle hidle fun k hm => ?_
      have hk : k = handle := by
        rw [hr] at hm
        simpa using hm.symm
      rw [hk]
      exact h.none_pending hlt hend hr
  | matchDeregister pooled matchID rest hidle hq =>
      refine h.deregister rfl rfl (fun _ => rfl) rfl rfl hidle hidle fun k hm => ?_
      have := hreg.match_contents hm
      simp at this
  | post n id rest hposting =>
      obtain ⟨handle, hm⟩ := h.posting n id rest hposting
      constructor
      · intro id' n' hmem
        rcases List.mem_append.mp hmem with hmem | hmem
        · exact h.queued id' n' hmem
        · simp only [List.mem_singleton, Prod.mk.injEq] at hmem
          rw [hmem.2]
          exact ⟨handle, hm⟩
      · exact h.entering
      · intro n' id' rest' hp
        simp only [Option.some.injEq, Prod.mk.injEq] at hp
        rw [← hp.1]
        exact ⟨handle, hm⟩
      · intro n' k hm'
        have hacc := h.account n' k hm'
        simp only [pending, hposting, List.countP_append, List.countP_singleton] at hacc ⊢
        by_cases heq : n = n'
        · simp only [heq, if_true, decide_true, List.length_cons] at hacc ⊢
          omega
        · simp only [heq, if_false, decide_false, Bool.false_eq_true] at hacc ⊢
          omega
      · exact h.finished
  | postDone n hposting =>
      constructor
      · exact h.queued
      · exact h.entering
      · intro n' id' rest' hp
        simp at hp
      · intro n' k hm
        have hacc := h.account n' k hm
        simp only [pending, hposting, List.length_nil, ite_self] at hacc
        exact hacc
      · exact h.finished
  | stopAccept hidle => exact h.of_same rfl rfl rfl rfl rfl rfl
  | shutDown hstop => exact h.frame s.matchShutDown_frame.frame
  | shutDownLate hmap => exact h

end Server

end SessionServer.Battle
