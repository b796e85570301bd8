/-
  Battle/ControlRun.lean --- a shutdown loses no battle.

  The control thread returns only when the match is deregistered and no reference to a
  fight is left.  A fight stays registered until its FIGHTFREE is handled, and the
  FIGHTFREE follows the push of the result, so at that time every result is in `_dbQ`,
  and `Stop` clears `_dbThreadRun` only after it has joined the control thread.
-/
import SessionServer.Battle.Control
import SessionServer.Battle.MatchRun

set_option autoImplicit false

namespace SessionServer.Battle

open SessionServer.Foundation

/-! ## What a handler can do -/

/-- A step of the control thread. -/
def Step.isControl : Step → Bool
  | .control _ _ => true
  | _ => false

theorem Step.isControl_of_event {step : Step} {event : FightHandle × FightEvent}
    (h : step.event? = some event) : step.isControl = false := by
  cases step <;> first | rfl | cases h

namespace Server

/-- What every step outside the control thread keeps of the contents, and what it
enqueues: a FIGHTALLOC only while the match runs, a MATCHDEREGISTER only when it is
empty. -/
structure Worked (s s' : Server) : Prop where
  contentsMap : s'.contentsMap = s.contentsMap
  created : s'.created = s.created
  number : ∀ handle, (s'.fights handle).contentsNum = (s.fights handle).contentsNum
  ended : ∀ handle, (s.fights handle).end_ = false → (s'.fights handle).end_ = false
  stopRequested : s.match_.stopRequested = true → s'.match_.stopRequested = true
  waiting : s.match_.stopRequested = true →
    ∀ id ∈ s'.match_.playerMap, id ∈ s.match_.playerMap
  ctrlQ : ∃ more, s'.ctrlQ = s.ctrlQ ++ more ∧
    (∀ group, .fightAlloc group ∈ more →
      s.match_.stopRequested = false ∧ more = [.fightAlloc group]) ∧
    (.matchDeregister ∈ more → s'.match_.stopRequested = true ∧ s'.match_.playerMap = [])

/-- A handler that enqueues nothing and leaves the match as it is. -/
theorem Worked.of_same {s s' : Server} (hmap : s'.contentsMap = s.contentsMap)
    (hcreated : s'.created = s.created) (hfights : s'.fights = s.fights)
    (hmatch : s'.match_ = s.match_) (hq : s'.ctrlQ = s.ctrlQ) : Worked s s' where
  contentsMap := hmap
  created := hcreated
  number := fun handle => by rw [hfights]
  ended := fun handle hend => by rwa [hfights]
  stopRequested := fun hstop => by rwa [hmatch]
  waiting := fun _ id hid => by rwa [hmatch] at hid
  ctrlQ := ⟨[], by rw [hq, List.append_nil], by simp, by simp⟩

/-- What follows the handler leaves the contents alone. -/
theorem Worked.then_same {s m s' : Server} (h : Worked s m)
    (hmap : s'.contentsMap = m.contentsMap) (hcreated : s'.created = m.created)
    (hfights : s'.fights = m.fights) (hmatch : s'.match_ = m.match_)
    (hq : s'.ctrlQ = m.ctrlQ) : Worked s s' where
  contentsMap := hmap.trans h.contentsMap
  created := hcreated.trans h.created
  number := fun handle => by rw [hfights]; exact h.number handle
  ended := fun handle hend => by rw [hfights]; exact h.ended handle hend
  stopRequested := fun hstop => by rw [hmatch]; exact h.stopRequested hstop
  waiting := fun hstop id hid => h.waiting hstop id (by rwa [hmatch] at hid)
  ctrlQ := by
    rw [hq, hmatch]
    exact h.ctrlQ

/-- What comes before the handler leaves the contents alone. -/
theorem Worked.after_same {s m s' : Server} (h : Worked m s')
    (hmap : m.contentsMap = s.contentsMap) (hcreated : m.created = s.created)
    (hfights : m.fights = s.fights) (hmatch : m.match_ = s.match_)
    (hq : m.ctrlQ = s.ctrlQ) : Worked s s' where
  contentsMap := h.contentsMap.trans hmap
  created := h.created.trans hcreated
  number := fun handle => (h.number handle).trans (by rw [hfights])
  ended := fun handle hend => h.ended handle (by rwa [hfights])
  stopRequested := fun hstop => h.stopRequested (by rwa [hmatch])
  waiting := fun hstop id hid => hmatch ▸ h.waiting (by rwa [hmatch]) id hid
  ctrlQ := by
    rw [← hq, ← hmatch]
    exact h.ctrlQ

/-- A handler of the match that enqueues at most one request. -/
theorem Worked.of_frame {s s' : Server} (hf : Frame s s')
    (hstop : s.match_.stopRequested = true → s'.match_.stopRequested = true)
    (hwaiting : s.match_.stopRequested = true →
      ∀ id ∈ s'.match_.playerMap, id ∈ s.match_.playerMap)
    (hq : s'.ctrlQ = s.ctrlQ ∨
      (s'.ctrlQ = s.ctrlQ ++ [.matchDeregister] ∧ s'.match_.stopRequested = true ∧
        s'.match_.playerMap = []) ∨
      ∃ group, s'.ctrlQ = s.ctrlQ ++ [.fightAlloc group] ∧ s.match_.stopRequested = false) :
    Worked s s' where
  contentsMap := hf.contentsMap
  created := hf.created
  number := fun handle => by rw [hf.fights]
  ended := fun handle hend => by rwa [hf.fights]
  stopRequested := hstop
  waiting := hwaiting
  ctrlQ := by
    rcases hq with hq | ⟨hq, hstopped, hnil⟩ | ⟨group, hq, hrun⟩
    · exact ⟨[], by rw [hq, List.append_nil], by simp, by simp⟩
    · exact ⟨[.matchDeregister], hq, by simp, fun _ => ⟨hstopped, hnil⟩⟩
    · refine ⟨[.fightAlloc group], hq, fun group' hmem => ?_, by simp⟩
      rw [List.mem_singleton] at hmem
      exact ⟨hrun, by rw [hmem]⟩

theorem fightEvent_worked (s : Server) (handle : FightHandle) (event : FightEvent) :
    Worked s (s.fightEvent handle event) := by
  obtain ⟨-, -, -, hmatch, hmap, hcreated, -, -, -, -, -, hfights⟩ :=
    s.fightEvent_rest handle event
  have hend := (s.fights handle).fightStep_end event
  constructor
  · exact hmap
  · exact hcreated
  · intro k
    rw [hfights]
    simp only
    split
    · rename_i heq
      rw [heq, ((s.fights handle).fightStep_init event).1]
    · rfl
  · intro k hk
    rw [hfights]
    simp only
    split
    · rename_i heq
      by_cases hends : (s.fights handle).Ends event
      · exact hend.1 hends
      · rw [hend.2 hends]
        exact heq ▸ hk
    · exact hk
  · intro hstop
    rwa [hmatch]
  · intro _ id hid
    rwa [hmatch] at hid
  · refine ⟨_, (s.fightEvent_spec handle event).ctrlQ, fun group hmem => ?_, fun hmem => ?_⟩
    · obtain ⟨k, _, hk⟩ := List.mem_map.mp hmem
      simp at hk
    · obtain ⟨k, _, hk⟩ := List.mem_map.mp hmem
      simp at hk

theorem matchEnter_worked (s : Server) (id : SessionID) : Worked s (s.matchEnter id) := by
  have hf := (s.matchEnter_frame id).frame
  by_cases hstop : s.match_.stopRequested = true
  · have heq : s.matchEnter id = s.disconnect id := by simp only [matchEnter, hstop, if_true]
    rw [heq]
    exact Worked.of_same rfl rfl rfl rfl rfl
  · rw [Bool.not_eq_true] at hstop
    by_cases hknown : (s.playerMap id).isSome
    · obtain ⟨_, hq⟩ := matchEnter_spec hstop hknown
      refine Worked.of_frame hf (by simp [hstop]) (by simp [hstop]) ?_
      rcases hq with ⟨_, hq, _⟩ | ⟨group, hq, _⟩
      · exact Or.inl hq
      · exact Or.inr (Or.inr ⟨group, hq, hstop⟩)
    · have heq : s.matchEnter id = s := by simp [matchEnter, hstop, hknown]
      rw [heq]
      exact Worked.of_same rfl rfl rfl rfl rfl

theorem matchLeave_worked (s : Server) (id : SessionID) : Worked s (s.matchLeave id) := by
  obtain ⟨hmatch, _, hq⟩ := checkStopRequested_spec
    { s with match_ := { s.match_ with playerMap := s.match_.playerMap.filter (· ≠ id) } }
  have hmatch' : (s.matchLeave id).match_ =
      { s.match_ with playerMap := s.match_.playerMap.filter (· ≠ id) } := hmatch
  refine Worked.of_frame (s.matchLeave_frame id).frame (fun hstop => ?_) (fun _ id' hid => ?_) ?_
  · rwa [hmatch']
  · rw [hmatch'] at hid
    exact (List.mem_filter.mp hid).1
  · rw [hmatch']
    rcases hq with hq | ⟨hq, hnil, hstop⟩
    · exact Or.inl hq
    · exact Or.inr (Or.inl ⟨hq, hstop, hnil⟩)

theorem matchShutDown_worked (s : Server) : Worked s s.matchShutDown := by
  obtain ⟨hmatch, _, hq⟩ := s.matchShutDown_spec
  refine Worked.of_frame s.matchShutDown_frame.frame (fun _ => ?_) (fun _ id hid => ?_) ?_
  · rw [hmatch]
  · rwa [hmatch] at hid
  · rw [hmatch]
    exact hq.imp_right fun ⟨hq, hnil⟩ => Or.inl ⟨hq, rfl, hnil⟩

theorem contentsEnter_worked (s : Server) (id : SessionID) (contents : Contents) :
    Worked s (s.contentsEnter id contents) := by
  cases contents with
  | match_ => exact s.matchEnter_worked id
  | fight handle =>
      -- The slot is written first, which no contents sees.
      obtain ⟨moved, _, _, hf, hmatch, hq, henter⟩ := s.fightEnter_moved handle id
      rw [contentsEnter, henter]
      exact (moved.fightEvent_worked handle _).after_same hf.contentsMap hf.created hf.fights
        hmatch hq

theorem contentsLeave_worked (s : Server) (id : SessionID) (contents : Contents) :
    Worked s (s.contentsLeave id contents) := by
  cases contents with
  | match_ => exact s.matchLeave_worked id
  | fight handle => exact s.fightEvent_worked handle _

end Server

open Server in
/-- **What every step outside the control thread keeps and enqueues.** -/
theorem Stepped.worked {s s' : Server} {step : Step} (hstep : Stepped s step s')
    (hcontrol : step.isControl = false) : Worked s s' := by
  cases hstep with
  | accept id hrun hidle hnew => exact Worked.of_same rfl rfl rfl rfl rfl
  | onAccept pooled id hacc hnew => exact Worked.of_same rfl rfl rfl rfl rfl
  | acceptEnter id entered hacc hknown hentered =>
      have hentered' : Worked s entered := by
        rcases hentered with ⟨contents, _, rfl⟩ | ⟨_, rfl⟩
        · exact s.contentsEnter_worked id contents
        · exact Worked.of_same rfl rfl rfl rfl rfl
      exact hentered'.then_same rfl rfl rfl rfl rfl
  | disconnect id => exact Worked.of_same rfl rfl rfl rfl rfl
  | release id hphase => exact Worked.of_same rfl rfl rfl rfl rfl
  | releaseFetch id hphase => exact Worked.of_same rfl rfl rfl rfl rfl
  | releaseLeave id contents hphase =>
      exact (s.contentsLeave_worked id contents).then_same rfl rfl rfl rfl rfl
  | releaseNone id hphase => exact Worked.of_same rfl rfl rfl rfl rfl
  | onRelease id hphase => exact Worked.of_same rfl rfl rfl rfl rfl
  | fetchEnter id n contents hmem hmap => exact Worked.of_same rfl rfl rfl rfl rfl
  | dropEnter id n hmem hmap => exact Worked.of_same rfl rfl rfl rfl rfl
  | runEnter id contents hmem =>
      exact (contentsEnter_worked _ id contents).after_same rfl rfl rfl rfl rfl
  | event _ handle event hevent hhandle => exact s.fightEvent_worked handle event
  | rehashMatch order place hperm =>
      refine Worked.of_frame ?_ (fun hstop => hstop) (fun _ id hid => hperm.subset hid)
        (Or.inl rfl)
      constructor <;> intros <;> first | rfl | assumption
  | fightAlloc pooled matchID group rest hidle hq => simp [Step.isControl] at hcontrol
  | fightFree pooled matchID handle rest hidle hq => simp [Step.isControl] at hcontrol
  | matchDeregister pooled matchID rest hidle hq => simp [Step.isControl] at hcontrol
  | post n id rest hposting => exact Worked.of_same rfl rfl rfl rfl rfl
  | postDone n hposting => exact Worked.of_same rfl rfl rfl rfl rfl
  | stopAccept hidle => exact Worked.of_same rfl rfl rfl rfl rfl
  | shutDown hstop => exact s.matchShutDown_worked
  | shutDownLate hmap => exact Worked.of_same rfl rfl rfl rfl rfl

/-! ## The end of the match -/

namespace Server

/-- The match on its way out: its MATCHDEREGISTER is enqueued when it is stopped and
empty, and no FIGHTALLOC comes after it. -/
structure Closing (s : Server) : Prop where
  deregister : .matchDeregister ∈ s.ctrlQ →
    s.match_.stopRequested = true ∧ s.match_.playerMap = []
  match_ : s.contentsMap MATCH ≠ none ∨
    (s.match_.stopRequested = true ∧ s.match_.playerMap = [])
  last : s.ctrlQ.Pairwise fun first later =>
    first = .matchDeregister → ∀ group, later ≠ .fightAlloc group
  gone : s.contentsMap MATCH = none → ∀ group, .fightAlloc group ∉ s.ctrlQ

theorem closing_initial (pooled : FightContents) : Closing (initialServer pooled) where
  deregister := by simp [initialServer]
  match_ := Or.inl (by simp [initialServer])
  last := List.Pairwise.nil
  gone := by simp [initialServer]

theorem Closing.worked {s s' : Server} (h : Closing s) (hw : Worked s s') : Closing s' := by
  obtain ⟨more, hq, halloc, hdereg⟩ := hw.ctrlQ
  -- A match that is stopped and empty stays so.
  have hstays : s.match_.stopRequested = true ∧ s.match_.playerMap = [] →
      s'.match_.stopRequested = true ∧ s'.match_.playerMap = [] := by
    rintro ⟨hstop, hnil⟩
    refine ⟨hw.stopRequested hstop, List.eq_nil_iff_forall_not_mem.mpr fun id hid => ?_⟩
    have hmem := hw.waiting hstop id hid
    rw [hnil] at hmem
    simp at hmem
  have hnone : s.match_.stopRequested = true → ∀ group, .fightAlloc group ∉ more := by
    intro hstop group hmem
    rw [(halloc group hmem).1] at hstop
    simp at hstop
  constructor
  · intro hmem
    rw [hq] at hmem
    rcases List.mem_append.mp hmem with hmem | hmem
    · exact hstays (h.deregister hmem)
    · exact hdereg hmem
  · rw [hw.contentsMap]
    exact h.match_.imp_right hstays
  · rw [hq, List.pairwise_append]
    refine ⟨h.last, ?_, ?_⟩
    · by_cases hsome : ∃ group, .fightAlloc group ∈ more
      · obtain ⟨group, hmem⟩ := hsome
        rw [(halloc group hmem).2]
        exact List.pairwise_singleton _ _
      · refine List.pairwise_of_forall_mem_list fun _ _ later hlater _ group heq => ?_
        exact hsome ⟨group, heq ▸ hlater⟩
    · rintro first hfirst later hlater rfl group rfl
      exact hnone (h.deregister hfirst).1 group hlater
  · intro hmap group hmem
    rw [hw.contentsMap] at hmap
    rw [hq] at hmem
    rcases List.mem_append.mp hmem with hmem | hmem
    · exact h.gone hmap group hmem
    · rcases h.match_ with hmatch | ⟨hstop, _⟩
      · exact hmatch hmap
      · exact hnone hstop group hmem

/-- The control thread takes a request and the match stays registered. -/
theorem Closing.take {s s' : Server} (h : Closing s) {control : Control} {rest : List Control}
    (hq : s.ctrlQ = control :: rest) (hq' : s'.ctrlQ = rest) (hmatch : s'.match_ = s.match_)
    (hmap : s'.contentsMap MATCH = s.contentsMap MATCH) : Closing s' where
  deregister := by
    rw [hq', hmatch]
    exact fun hmem => h.deregister (hq ▸ List.mem_cons_of_mem _ hmem)
  match_ := by
    rw [hmap, hmatch]
    exact h.match_
  last := by
    have hlast := h.last
    rw [hq, List.pairwise_cons] at hlast
    rw [hq']
    exact hlast.2
  gone := by
    rw [hmap, hq']
    exact fun hnone group hmem => h.gone hnone group (hq ▸ List.mem_cons_of_mem _ hmem)

theorem Closing.step {s s' : Server} {step : Step} (h : Closing s) (hbook : Book s)
    (hreg : Register s) (hstep : Stepped s step s') : Closing s' := by
  by_cases hcontrol : step.isControl = false
  · exact h.worked (hstep.worked hcontrol)
  · cases hstep with
    | fightAlloc pooled matchID group rest hidle hq =>
        rw [handleFightAlloc_eq]
        refine h.take hq rfl rfl ?_
        simp only
        rw [if_neg]
        rintro ⟨hn, _⟩
        exact range_ne_match hreg.next.2 hn.symm
    | fightFree pooled matchID handle rest hidle hq =>
        obtain ⟨hlt, _⟩ := fightFree_registered hreg hbook hq
        refine h.take hq rfl rfl ?_
        simp only [handleFightFree, deregisterContents]
        rw [if_neg (range_ne_match (hreg.range handle hlt).2).symm]
    | matchDeregister pooled matchID rest hidle hq =>
        have hlast := h.last
        rw [hq, List.pairwise_cons] at hlast
        have hstopped := h.deregister (by rw [hq]; exact List.mem_cons_self)
        constructor
        · exact fun _ => hstopped
        · exact Or.inr hstopped
        · exact hlast.2
        · exact fun _ group hmem => hlast.1 _ hmem rfl group rfl
    | event _ handle event hevent hhandle =>
        exact absurd (Step.isControl_of_event hevent) hcontrol
    | _ => exact absurd rfl hcontrol

end Server

/-! ## What a step of the threads can do -/

open Threads in
/-- **Everything a step of the threads can do**, with what enables it. -/
inductive Threaded (s : Threads) : ThreadStep → Threads → Prop where
  | lock (pooled : FightContents) (matchID : Int) (hctrl : s.ctrl = .unlocked) :
      Threaded s (.ctrl pooled matchID) { s with ctrl := .locked }
  | wait (pooled : FightContents) (matchID : Int) (hctrl : s.ctrl = .locked) :
      Threaded s (.ctrl pooled matchID) { s with ctrl := .waiting }
  | relock (pooled : FightContents) (matchID : Int) (hctrl : s.ctrl = .woken) :
      Threaded s (.ctrl pooled matchID) { s with ctrl := .draining }
  | post (pooled : FightContents) (matchID : Int) (server : Server)
      (hctrl : s.ctrl = .draining) (hstep : Stepped s.server .post server) :
      Threaded s (.ctrl pooled matchID) { s with server := server }
  | empty (pooled : FightContents) (matchID : Int) (hctrl : s.ctrl = .draining)
      (hidle : s.server.posting = none) (hq : s.server.ctrlQ = []) :
      Threaded s (.ctrl pooled matchID) { s with ctrl := .checking }
  | take (pooled : FightContents) (matchID : Int) (server : Server) (control : Control)
      (rest : List Control) (hctrl : s.ctrl = .draining)
      (hq : s.server.ctrlQ = control :: rest)
      (hstep : Stepped s.server (.control pooled matchID) server) :
      Threaded s (.ctrl pooled matchID)
        { s with
            server := server
            state := if control = .matchDeregister then .matchDeregistered else s.state }
  | return (pooled : FightContents) (matchID : Int) (hctrl : s.ctrl = .checking)
      (hstop : s.shouldStopControlThread = true) :
      Threaded s (.ctrl pooled matchID) { s with ctrl := .returned, state := .controlStopped }
  | goOn (pooled : FightContents) (matchID : Int) (hctrl : s.ctrl = .checking)
      (hstop : s.shouldStopControlThread = false) :
      Threaded s (.ctrl pooled matchID) { s with ctrl := .unlocking }
  | unlock (pooled : FightContents) (matchID : Int) (hctrl : s.ctrl = .unlocking) :
      Threaded s (.ctrl pooled matchID) { s with ctrl := .unlocked }
  | stopAccept (server : Server) (hstop : s.stop = .running)
      (hstep : Stepped s.server .stopAccept server) :
      Threaded s .stop
        { s with server := server, stop := .acceptStopped, state := .acceptStopped }
  | request (hstop : s.stop = .acceptStopped) :
      Threaded s .stop { s with stop := .polling, shutDownPosted := true }
  | polled (hstop : s.stop = .polling) (hstate : s.state.beforeDeregistered = false) :
      Threaded s .stop { s with stop := .stopping }
  | clear (hstop : s.stop = .stopping) (hfree : s.ctrl.free = true) :
      Threaded s .stop { s with stop := .notifying, ctrlThreadRun := false }
  | notifyStop (hstop : s.stop = .notifying) :
      Threaded s .stop { s.notifyOne with stop := .joining }
  | join (hstop : s.stop = .joining) (hctrl : s.ctrl = .returned) :
      Threaded s .stop { s with stop := .joined, state := .controlStopped }
  | clearDB (hstop : s.stop = .joined) :
      Threaded s .stop { s with stop := .dbCleared, dbThreadRun := false }
  | server (step : Step) (prepared : Threads) (server : Server)
      (hprepare : s.prepare step = some prepared) (hstep : Stepped s.server step server) :
      Threaded s (.server step) (prepared.handled server)
  | fetch (handle : FightHandle) (hlt : handle < s.server.created)
      (hreg : s.server.Registered (.fight handle)) :
      Threaded s (.fetch handle) { s with fetched := handle :: s.fetched }
  | drop (handle : FightHandle) (hmem : handle ∈ s.done) :
      Threaded s (.drop handle) { s with done := s.done.erase handle }
  | notify (hsome : s.toNotify ≠ 0) :
      Threaded s .notify { s.notifyOne with toNotify := s.toNotify - 1 }

open Threads in
theorem threadStep_threaded {s s' : Threads} {step : ThreadStep}
    (h : threadStep s step = some s') : Threaded s step s' := by
  cases step with
  | ctrl pooled matchID =>
      simp only [threadStep, ctrlStep] at h
      split at h
      · rename_i hctrl
        cases h
        exact .lock pooled matchID hctrl
      · rename_i hctrl
        cases h
        exact .wait pooled matchID hctrl
      · simp at h
      · rename_i hctrl
        cases h
        exact .relock pooled matchID hctrl
      · rename_i hctrl
        split at h
        · obtain ⟨server, hstep, rfl⟩ := Option.map_eq_some_iff.mp h
          exact .post pooled matchID server hctrl (systemStep_stepped hstep)
        · rename_i hidle hq
          cases h
          exact .empty pooled matchID hctrl hidle hq
        · rename_i rest hidle hq
          obtain ⟨server, hstep, rfl⟩ := Option.map_eq_some_iff.mp h
          have htake := Threaded.take pooled matchID server _ rest hctrl hq
            (systemStep_stepped hstep)
          rwa [if_pos rfl] at htake
        · rename_i control rest hne hidle hq
          obtain ⟨server, hstep, rfl⟩ := Option.map_eq_some_iff.mp h
          have htake := Threaded.take pooled matchID server control rest hctrl hq
            (systemStep_stepped hstep)
          rwa [if_neg (by simpa using hne)] at htake
      · rename_i hctrl
        split at h
        · rename_i hstop
          cases h
          exact .return pooled matchID hctrl hstop
        · rename_i hstop
          cases h
          exact .goOn pooled matchID hctrl (by simpa using hstop)
      · rename_i hctrl
        cases h
        exact .unlock pooled matchID hctrl
      · simp at h
  | stop =>
      simp only [threadStep, stopStep] at h
      split at h
      · rename_i hstop
        obtain ⟨server, hstep, rfl⟩ := Option.map_eq_some_iff.mp h
        exact .stopAccept server hstop (systemStep_stepped hstep)
      · rename_i hstop
        cases h
        exact .request hstop
      · rename_i hstop
        split at h
        · simp at h
        · rename_i hstate
          cases h
          exact .polled hstop (by simpa using hstate)
      · rename_i hstop
        split at h
        · rename_i hfree
          cases h
          exact .clear hstop hfree
        · simp at h
      · rename_i hstop
        cases h
        exact .notifyStop hstop
      · rename_i hstop
        split at h
        · rename_i hctrl
          cases h
          exact .join hstop hctrl
        · simp at h
      · rename_i hstop
        cases h
        exact .clearDB hstop
      · simp at h
  | server step =>
      simp only [threadStep] at h
      obtain ⟨prepared, hprepare, h⟩ := Option.bind_eq_some_iff.mp h
      obtain ⟨server, hstep, rfl⟩ := Option.map_eq_some_iff.mp h
      exact .server step prepared server hprepare (systemStep_stepped hstep)
  | fetch handle =>
      simp only [threadStep] at h
      split at h
      · rename_i hguard
        cases h
        exact .fetch handle hguard.1 hguard.2
      · simp at h
  | drop handle =>
      simp only [threadStep] at h
      split at h
      · rename_i hmem
        cases h
        exact .drop handle hmem
      · simp at h
  | notify =>
      simp only [threadStep] at h
      split at h
      · simp at h
      · rename_i hsome
        cases h
        exact .notify hsome

/-! ## The end of the control thread -/

namespace Threads

/-- A FIGHTALLOC is handled only when its contents number is not in use. -/
def UnsharedRequest (s : Threads) : ThreadStep → Prop
  | .ctrl pooled matchID =>
      s.ctrl = .draining → s.server.posting = none → Unshared s.server (.control pooled matchID)
  | _ => True

instance (s : Threads) (step : ThreadStep) : Decidable (UnsharedRequest s step) := by
  unfold UnsharedRequest
  split
  · infer_instance
  · infer_instance

/-- What is over when the control thread has returned. -/
structure Finished (s : Server) : Prop where
  deregistered : s.contentsMap MATCH = none
  empty : s.match_.playerMap = []
  allocated : ∀ group, .fightAlloc group ∉ s.ctrlQ
  ended : ∀ handle < s.created, (s.fights handle).end_ = false
  saved : ∀ handle < s.created, s.dbQ.countP (fun entry => entry.1 = handle) = 1

/-- The order in which a shutdown goes. -/
structure Orderly (s : Threads) : Prop where
  book : s.server.Book
  register : s.server.Register
  closing : s.server.Closing
  deregistered : s.state = .matchDeregistered → s.server.contentsMap MATCH = none
  returned : s.ctrl = .returned → s.server.contentsMap MATCH = none ∧
    ∀ handle < s.server.created, (s.server.fights handle).end_ = false
  joined : s.stop = .joined ∨ s.stop = .dbCleared → s.ctrl = .returned
  running : s.dbThreadRun = false → s.stop = .dbCleared

theorem orderly_initial (pooled : FightContents) : Orderly (initialThreads pooled) where
  book := Server.book_initial pooled
  register := Server.register_initial pooled
  closing := Server.closing_initial pooled
  deregistered := by simp [initialThreads]
  returned := by simp [initialThreads]
  joined := by simp [initialThreads]
  running := by simp [initialThreads]

theorem Orderly.finished {s : Threads} (h : Orderly s) (hctrl : s.ctrl = .returned) :
    Finished s.server := by
  obtain ⟨hmap, hended⟩ := h.returned hctrl
  refine ⟨hmap, ?_, h.closing.gone hmap, hended, fun handle hlt => ?_⟩
  · rcases h.closing.match_ with hsome | ⟨_, hnil⟩
    · exact absurd hmap hsome
    · exact hnil
  · have hsaved := h.book.saved handle hlt
    rwa [hended handle hlt] at hsaved

/-- The pool is unused when no fight is alive. -/
theorem useCount_eq_zero {s : Threads} :
    s.useCount = 0 ↔ ∀ handle < s.server.created, ¬ s.Alive handle := by
  rw [useCount, List.length_eq_zero_iff, List.filter_eq_nil_iff]
  simp only [List.mem_range, decide_eq_true_eq]

/-- What the threads prepare for a handler is none of the server's, and no work of the
control thread. -/
theorem prepare_spec {s prepared : Threads} {step : Step} (h : s.prepare step = some prepared) :
    step.isControl = false ∧ prepared.server = s.server ∧ prepared.ctrl = s.ctrl ∧
      prepared.stop = s.stop ∧ prepared.state = s.state ∧
      prepared.ctrlThreadRun = s.ctrlThreadRun ∧ prepared.dbThreadRun = s.dbThreadRun ∧
      prepared.toNotify = s.toNotify := by
  cases step with
  | control pooled matchID => simp [prepare] at h
  | post => simp [prepare] at h
  | stopAccept => simp [prepare] at h
  | shutDown =>
      simp only [prepare] at h
      split at h
      · cases h
        exact ⟨rfl, rfl, rfl, rfl, rfl, rfl, rfl, rfl⟩
      · simp at h
  | update handle now =>
      simp only [prepare, useFetched] at h
      split at h
      · cases h
        exact ⟨rfl, rfl, rfl, rfl, rfl, rfl, rfl, rfl⟩
      · simp at h
  | message handle id msg now =>
      simp only [prepare, useFetched] at h
      split at h
      · cases h
        exact ⟨rfl, rfl, rfl, rfl, rfl, rfl, rfl, rfl⟩
      · simp at h
  | releaseFetch id =>
      simp only [prepare, keepLeaving, Option.some.injEq] at h
      subst h
      split <;> exact ⟨rfl, rfl, rfl, rfl, rfl, rfl, rfl, rfl⟩
  | _ =>
      cases h
      exact ⟨rfl, rfl, rfl, rfl, rfl, rfl, rfl, rfl⟩

end Threads

/-- A control request leaves a deregistered match deregistered. -/
theorem Stepped.match_none {s s' : Server} {step : Step} (hstep : Stepped s step s')
    (hreg : s.Register) (hnone : s.contentsMap MATCH = none) : s'.contentsMap MATCH = none := by
  by_cases hcontrol : step.isControl = false
  · rw [(hstep.worked hcontrol).contentsMap]
    exact hnone
  · cases hstep with
    | fightAlloc pooled matchID group rest hidle hq =>
        rw [Server.handleFightAlloc_eq]
        simp only
        rw [if_neg]
        · exact hnone
        · rintro ⟨hn, _⟩
          exact Server.range_ne_match hreg.next.2 hn.symm
    | fightFree pooled matchID handle rest hidle hq =>
        simp only [Server.handleFightFree, Server.deregisterContents]
        split
        · rfl
        · exact hnone
    | matchDeregister pooled matchID rest hidle hq =>
        simp [Server.handleMatchDeregister, Server.deregisterContents]
    | event _ handle event hevent hhandle =>
        exact absurd (Step.isControl_of_event hevent) hcontrol
    | _ => exact absurd rfl hcontrol

theorem Stepped.control_idle {s s' : Server} {pooled : FightContents} {matchID : Int}
    (hstep : Stepped s (.control pooled matchID) s') : s.posting = none := by
  cases hstep with
  | fightAlloc _ _ group rest hidle hq => exact hidle
  | fightFree _ _ handle rest hidle hq => exact hidle
  | matchDeregister _ _ rest hidle hq => exact hidle
  | event _ handle event hevent hhandle => simp [Step.event?] at hevent

namespace Threads

/-- The threads move and the server does not, before the control thread has returned. -/
theorem Orderly.of_server {s s' : Threads} (h : Orderly s) (hserver : s'.server = s.server)
    (hstate : s'.state = .matchDeregistered → s.state = .matchDeregistered)
    (hctrl : s'.ctrl = .returned → s.ctrl = .returned)
    (hjoined : s'.stop = .joined ∨ s'.stop = .dbCleared → s'.ctrl = .returned)
    (hrunning : s'.dbThreadRun = false → s'.stop = .dbCleared) : Orderly s' where
  book := hserver ▸ h.book
  register := hserver ▸ h.register
  closing := hserver ▸ h.closing
  deregistered := fun hs => hserver ▸ h.deregistered (hstate hs)
  returned := fun hc => hserver ▸ h.returned (hctrl hc)
  joined := hjoined
  running := hrunning

/-- The server works while the threads stay, outside the control thread. -/
theorem Orderly.worked {s s' : Threads} (h : Orderly s) {step : Step}
    (hstep : Stepped s.server step s'.server) (hcontrol : step.isControl = false)
    (hok : Unshared s.server step)
    (hstate : s'.state = .matchDeregistered → s.state = .matchDeregistered)
    (hctrl : s'.ctrl = s.ctrl)
    (hjoined : s'.stop = .joined ∨ s'.stop = .dbCleared → s'.ctrl = .returned)
    (hrunning : s'.dbThreadRun = false → s'.stop = .dbCleared) : Orderly s' := by
  have hw := hstep.worked hcontrol
  constructor
  · exact h.book.step hstep
  · exact h.register.step h.book hok hstep
  · exact h.closing.step h.book h.register hstep
  · intro hs
    rw [hw.contentsMap]
    exact h.deregistered (hstate hs)
  · intro hc
    rw [hctrl] at hc
    obtain ⟨hmap, hended⟩ := h.returned hc
    refine ⟨by rw [hw.contentsMap]; exact hmap, fun handle hlt => hw.ended handle ?_⟩
    rw [hw.created] at hlt
    exact hended handle hlt
  · exact hjoined
  · exact hrunning

theorem Orderly.not_cleared {s : Threads} (h : Orderly s) {phase : StopPhase}
    (hstop : s.stop = phase) (hne : phase ≠ .dbCleared) : s.dbThreadRun ≠ false :=
  fun hrun => hne (hstop.symm.trans (h.running hrun))

theorem unshared_of_not_control {s : Server} {step : Step} (h : step.isControl = false) :
    Unshared s step := by
  cases step with
  | control pooled matchID => simp [Step.isControl] at h
  | _ => trivial

theorem notifyOne_server (s : Threads) : s.notifyOne.server = s.server := by
  unfold notifyOne
  split <;> rfl

/-- **Every step goes in order.** -/
theorem Orderly.step {s s' : Threads} {step : ThreadStep} (h : Orderly s)
    (hok : UnsharedRequest s step) (hstep : threadStep s step = some s') : Orderly s' := by
  have hjoined := h.joined
  have hrunning := h.running
  cases threadStep_threaded hstep with
  | lock pooled matchID hctrl =>
      exact h.of_server rfl id (by simp) (fun hs => by simpa [hctrl] using hjoined hs) hrunning
  | wait pooled matchID hctrl =>
      exact h.of_server rfl id (by simp) (fun hs => by simpa [hctrl] using hjoined hs) hrunning
  | relock pooled matchID hctrl =>
      exact h.of_server rfl id (by simp) (fun hs => by simpa [hctrl] using hjoined hs) hrunning
  | post pooled matchID server hctrl hpost =>
      exact h.worked hpost rfl trivial id rfl hjoined hrunning
  | empty pooled matchID hctrl hidle hq =>
      exact h.of_server rfl id (by simp) (fun hs => by simpa [hctrl] using hjoined hs) hrunning
  | take pooled matchID server control rest hctrl hq htake =>
      have hunshared := hok hctrl htake.control_idle
      constructor
      · exact h.book.step htake
      · exact h.register.step h.book hunshared htake
      · exact h.closing.step h.book h.register htake
      · intro hs
        simp only at hs
        split at hs
        · rename_i heq
          subst heq
          cases htake with
          | matchDeregister _ _ rest' hidle' hq' =>
              simp [Server.handleMatchDeregister, Server.deregisterContents]
          | fightAlloc _ _ group rest' hidle' hq' => rw [hq] at hq'; simp at hq'
          | fightFree _ _ handle rest' hidle' hq' => rw [hq] at hq'; simp at hq'
          | event _ handle event hevent hhandle => simp [Step.event?] at hevent
        · exact htake.match_none h.register (h.deregistered hs)
      · intro hc
        rw [hctrl] at hc
        simp at hc
      · exact hjoined
      · exact hrunning
  | «return» pooled matchID hctrl hstop =>
      simp only [shouldStopControlThread, Bool.and_eq_true, decide_eq_true_eq] at hstop
      obtain ⟨⟨huse, _⟩, hstate⟩ := hstop
      refine ⟨h.book, h.register, h.closing, by simp, fun _ => ⟨h.deregistered hstate, ?_⟩,
        fun _ => rfl, hrunning⟩
      -- A fight that has not ended is registered, and counts.
      intro handle hlt
      cases hend : (s.server.fights handle).end_ with
      | false => rfl
      | true =>
          have hreg := h.register.registered handle hlt (Or.inl hend)
          exact absurd (Or.inl hreg) (useCount_eq_zero.mp huse handle hlt)
  | goOn pooled matchID hctrl hstop =>
      exact h.of_server rfl id (by simp) (fun hs => by simpa [hctrl] using hjoined hs) hrunning
  | unlock pooled matchID hctrl =>
      exact h.of_server rfl id (by simp) (fun hs => by simpa [hctrl] using hjoined hs) hrunning
  | stopAccept server hstop haccept =>
      exact h.worked haccept rfl trivial (by simp) rfl (by simp)
        fun hrun => absurd hrun (h.not_cleared hstop (by simp))
  | request hstop =>
      exact h.of_server rfl id id (by simp)
        fun hrun => absurd hrun (h.not_cleared hstop (by simp))
  | polled hstop hstate =>
      exact h.of_server rfl id id (by simp)
        fun hrun => absurd hrun (h.not_cleared hstop (by simp))
  | clear hstop hfree =>
      exact h.of_server rfl id id (by simp)
        fun hrun => absurd hrun (h.not_cleared hstop (by simp))
  | notifyStop hstop =>
      have hnotify : s.notifyOne.state = s.state ∧ s.notifyOne.dbThreadRun = s.dbThreadRun ∧
          (s.notifyOne.ctrl = .returned → s.ctrl = .returned) := by
        unfold notifyOne
        split <;> simp
      refine h.of_server s.notifyOne_server (fun hs => ?_) hnotify.2.2 (by simp) fun hrun => ?_
      · exact hnotify.1 ▸ hs
      · exact absurd (hnotify.2.1 ▸ hrun) (h.not_cleared hstop (by simp))
  | join hstop hctrl =>
      exact h.of_server rfl (by simp) id (fun _ => hctrl)
        fun hrun => absurd hrun (h.not_cleared hstop (by simp))
  | clearDB hstop =>
      exact h.of_server rfl id id (fun _ => hjoined (Or.inl hstop)) fun _ => rfl
  | server step prepared server hprepare hserver =>
      obtain ⟨hcontrol, -, hctrl, hstop, hstate, -, hdb, -⟩ := prepare_spec hprepare
      have hsame : (prepared.handled server).stop = s.stop := hstop
      refine h.worked hserver hcontrol (unshared_of_not_control hcontrol) (fun hs => ?_) hctrl
        (fun hs => ?_) fun hrun => ?_
      · exact hstate ▸ hs
      · rw [hsame] at hs
        exact hctrl.trans (hjoined hs)
      · rw [hsame]
        exact hrunning (hdb ▸ hrun)
  | fetch handle hlt hreg => exact h.of_server rfl id id hjoined hrunning
  | drop handle hmem => exact h.of_server rfl id id hjoined hrunning
  | notify hsome =>
      have hnotify : s.notifyOne.state = s.state ∧ s.notifyOne.dbThreadRun = s.dbThreadRun ∧
          s.notifyOne.stop = s.stop ∧ (s.notifyOne.ctrl = .returned ↔ s.ctrl = .returned) := by
        unfold notifyOne
        split
        · rename_i hctrl
          simp [hctrl]
        · simp
      obtain ⟨hstate, hdb, hstop, hctrl⟩ := hnotify
      refine h.of_server s.notifyOne_server (fun hs => hstate ▸ hs) hctrl.mp (fun hs => ?_)
        fun hrun => ?_
      · exact hctrl.mpr (hjoined (hstop ▸ hs))
      · exact hstop.trans (hrunning (hdb ▸ hrun))

/-- **A shutdown loses no battle.**  In every run that shares no number, once the control
thread has returned the match is deregistered and empty, no FIGHTALLOC is queued, and
every fight ever allocated has ended and has pushed its result; `Stop` clears
`_dbThreadRun` only after that. -/
theorem shutdown_loses_no_battle (pooled : FightContents) (steps : List ThreadStep) (s : Threads)
    (hok : Along threadStep UnsharedRequest (initialThreads pooled) steps)
    (hrun : exec threadStep (initialThreads pooled) steps = some s) :
    (s.ctrl = .returned → Finished s.server) ∧
      (s.dbThreadRun = false → s.ctrl = .returned) ∧
      ∀ t, threadStep s .stop = some t → s.dbThreadRun = true → t.dbThreadRun = false →
        Finished s.server := by
  have h : Orderly s := exec_invariant_along (fun _ _ _ h hok hs => h.step hok hs)
    (orderly_initial pooled) hok hrun
  refine ⟨h.finished, fun hrun => h.joined (Or.inr (h.running hrun)), fun t ht hrun hcleared => ?_⟩
  refine h.finished (h.joined (Or.inl ?_))
  cases threadStep_threaded ht with
  | clearDB hstop => exact hstop
  | notifyStop hstop =>
      have hsame : s.notifyOne.dbThreadRun = s.dbThreadRun := by
        unfold notifyOne
        split <;> rfl
      simp only [hsame, hrun] at hcleared
      simp at hcleared
  | _ => simp [hrun] at hcleared

end Threads

/-! ## A whole life -/

/-- Six sessions are accepted, and the last one's group is notified. -/
def sixGrouped : List ThreadStep :=
  sixAccepted.map .server ++ [.notify]

/-- The control thread goes on `n` times. -/
def ctrlRounds (n : Nat) : List ThreadStep :=
  List.replicate n (.ctrl pooledFight 1)

/-- A session is released to the end. -/
def releases (i : Nat) : List ThreadStep :=
  (leavesFight i).map .server ++ [.server (.onRelease (firstSession i))]

/-- A fight from the grouping to its FIGHTFREE, which is handled: everybody enters, and
three sessions leave. -/
def fightOver : List ThreadStep :=
  ctrlRounds 2 ++ sixGrouped ++ ctrlRounds 14 ++
    (List.range 6).flatMap (fun i => (entersFight i).map .server) ++ List.replicate 6 (.drop 0) ++
    (List.range 3).flatMap releases ++ [.notify] ++ List.replicate 3 (.drop 0) ++ ctrlRounds 7

/-- After it the server is stopped. -/
def stopsAfterFight : List ThreadStep :=
  fightOver ++ [.stop, .stop, .server .shutDown, .notify] ++ ctrlRounds 7 ++
    [.stop, .stop, .stop] ++ ctrlRounds 3 ++ [.stop, .stop]

theorem stopsAfterFight_saves :
    ∃ s ∈ exec threadStep (initialThreads pooledFight) stopsAfterFight,
      s.server.created = 1 ∧ s.dbThreadRun = false ∧ Threads.Finished s.server := by
  have hsome : ∃ s ∈ exec threadStep (initialThreads pooledFight) stopsAfterFight,
      s.server.created = 1 ∧ s.dbThreadRun = false := by decide +kernel
  obtain ⟨s, hs, hcreated, hrun⟩ := hsome
  obtain ⟨hfinished, hreturned, _⟩ := Threads.shutdown_loses_no_battle pooledFight stopsAfterFight s
    (by decide +kernel) hs
  exact ⟨s, hs, hcreated, hrun, hfinished (hreturned hrun)⟩

end SessionServer.Battle
