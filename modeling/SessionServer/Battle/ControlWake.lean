/-
  Battle/ControlWake.lean --- when the control thread sleeps too long.

  The wait of `CtrlThread` has no predicate: a notification between its last look at the
  queue, or at the stop condition, and the wait is lost.  And the last reference to a
  fight can be dropped after that look, which notifies nobody.  Where neither happens,
  somebody is still to notify whenever the thread waits with work to do.
-/
import SessionServer.Battle.ControlRun

set_option autoImplicit false

namespace SessionServer.Battle

open SessionServer.Foundation

/-! ## References over a step -/

namespace Server

/-- An entry of `_contentsMap` stands under the number of its fight. -/
def Numbered (s : Server) : Prop :=
  ∀ n handle, s.contentsMap n = some (.fight handle) → (s.fights handle).contentsNum = n

theorem numbered_initial (pooled : FightContents) : Numbered (initialServer pooled) := by
  intro n handle hn
  simp only [initialServer] at hn
  split at hn <;> simp at hn

theorem Numbered.of_sub {s s' : Server} (h : Numbered s) (hfights : s'.fights = s.fights)
    (hmap : ∀ n contents, s'.contentsMap n = some contents →
      s.contentsMap n = some contents) : Numbered s' := by
  intro n handle hn
  rw [hfights]
  exact h n handle (hmap n _ hn)

theorem Numbered.step {s s' : Server} {step : Step} (h : Numbered s) (hbook : Book s)
    (hstep : Stepped s step s') : Numbered s' := by
  by_cases hcontrol : step.isControl = false
  · have hw := hstep.worked hcontrol
    intro n handle hn
    rw [hw.contentsMap] at hn
    rw [hw.number]
    exact h n handle hn
  · cases hstep with
    | fightAlloc pooled matchID group rest hidle hq =>
        rw [handleFightAlloc_eq]
        intro n handle hn
        simp only at hn ⊢
        split at hn
        · rename_i hnew
          rw [Option.some.injEq, Contents.fight.injEq] at hn
          rw [if_pos hn.symm]
          exact hnew.1.symm
        · have hlt := hbook.mapped n handle hn
          rw [if_neg (Nat.ne_of_lt hlt)]
          exact h n handle hn
    | fightFree pooled matchID handle rest hidle hq =>
        exact h.of_sub rfl fun _ _ hn => mapped_of_deregister hn
    | matchDeregister pooled matchID rest hidle hq =>
        exact h.of_sub rfl fun _ _ hn => mapped_of_deregister hn
    | event _ handle event hevent hhandle =>
        exact absurd (Step.isControl_of_event hevent) hcontrol
    | _ => exact absurd rfl hcontrol

theorem contentsEnter_entering (s : Server) (id : SessionID) (contents : Contents) :
    (s.contentsEnter id contents).entering = s.entering := by
  cases contents with
  | match_ => exact (s.matchEnter_frame id).frame.entering
  | fight handle =>
      obtain ⟨moved, found, answer, hmove, _, _, henter⟩ := s.fightEnter_moved handle id
      obtain ⟨-, -, -, -, -, -, -, -, -, h, -, -⟩ :=
        moved.fightEvent_rest handle (.enter id found answer)
      rw [contentsEnter, henter]
      exact h.trans hmove.entering

theorem contentsLeave_entering (s : Server) (id : SessionID) (contents : Contents) :
    (s.contentsLeave id contents).entering = s.entering := by
  cases contents with
  | match_ => exact (s.matchLeave_frame id).frame.entering
  | fight handle =>
      obtain ⟨-, -, -, -, -, -, -, -, -, h, -, -⟩ := s.fightEvent_rest handle (.leave id)
      exact h

end Server

open Server in
/-- The enter events fetched change by the lookup of one and by the `OnEnter` of one. -/
theorem Stepped.entering {s s' : Server} {step : Step} (hstep : Stepped s step s') :
    (∃ id n contents, step = .fetchEnter id n ∧ s.contentsMap n = some contents ∧
      s'.entering = (id, contents) :: s.entering) ∨
    (∃ id contents, step = .runEnter id contents ∧ (id, contents) ∈ s.entering ∧
      s'.entering = s.entering.erase (id, contents)) ∨
    ((∀ id contents, step ≠ .runEnter id contents) ∧ s'.entering = s.entering) := by
  cases hstep with
  | fetchEnter id n contents hmem hmap => exact Or.inl ⟨id, n, contents, rfl, hmap, rfl⟩
  | runEnter id contents hmem =>
      exact Or.inr (Or.inl ⟨id, contents, rfl, hmem, contentsEnter_entering _ id contents⟩)
  | acceptEnter id entered hacc hknown hentered =>
      refine Or.inr (Or.inr ⟨by simp, ?_⟩)
      rcases hentered with ⟨contents, _, rfl⟩ | ⟨_, rfl⟩
      · exact s.contentsEnter_entering id contents
      · rfl
  | releaseLeave id contents hphase =>
      exact Or.inr (Or.inr ⟨by simp, s.contentsLeave_entering id contents⟩)
  | event _ handle event hevent hhandle =>
      obtain ⟨-, -, -, -, -, -, -, -, -, h, -, -⟩ := s.fightEvent_rest handle event
      refine Or.inr (Or.inr ⟨?_, h⟩)
      rintro id contents rfl
      simp [Step.event?] at hevent
  | shutDown hstop =>
      exact Or.inr (Or.inr ⟨by simp, s.matchShutDown_frame.frame.entering⟩)
  | fightAlloc pooled matchID group rest hidle hq =>
      exact Or.inr (Or.inr ⟨by simp, by rw [handleFightAlloc_eq]⟩)
  | _ => exact Or.inr (Or.inr ⟨by simp, rfl⟩)

namespace Threads

theorem mem_refs {s : Threads} {handle : FightHandle} :
    handle ∈ s.refs ↔ handle ∈ s.fetched ∨
      (∃ event ∈ s.server.entering, event.2.handle? = some handle) ∨
      (∃ id, (id, handle) ∈ s.leaving) ∨ handle ∈ s.done := by
  simp only [refs, List.mem_append, List.mem_filterMap, List.mem_map, Prod.exists,
    exists_eq_right, or_assoc]

/-- A reference fetched before is kept until the handler is over. -/
theorem useFetched_refs {s prepared : Threads} {k : FightHandle}
    (h : s.useFetched k = some prepared) : s.refs.Perm prepared.refs := by
  simp only [useFetched, Option.ite_none_right_eq_some, Option.some.injEq] at h
  obtain ⟨hmem, rfl⟩ := h
  have hfetched := (List.perm_cons_erase hmem).append_right
    (s.server.entering.filterMap (fun event => event.2.handle?) ++ s.leaving.map Prod.snd ++ s.done)
  simp only [refs, List.append_assoc] at hfetched ⊢
  refine hfetched.trans ?_
  simp only [List.cons_append, ← List.append_assoc]
  exact List.perm_middle.symm

/-- The reference of an enter event is kept until the event is handled. -/
theorem runEnter_refs {s prepared : Threads} {server : Server} {id : SessionID}
    {contents : Contents} (h : s.prepare (.runEnter id contents) = some prepared)
    (hmem : (id, contents) ∈ s.server.entering)
    (hentering : server.entering = s.server.entering.erase (id, contents)) :
    (prepared.handled server).refs.Perm s.refs := by
  simp only [prepare, Option.some.injEq] at h
  subst h
  have hevents := (List.perm_cons_erase hmem).filterMap fun event => event.2.handle?
  have hhead : ((id, contents) :: s.server.entering.erase (id, contents)).filterMap
      (fun event => event.2.handle?) = contents.handle?.toList ++
        (s.server.entering.erase (id, contents)).filterMap fun event => event.2.handle? := by
    cases contents <;> rfl
  rw [hhead] at hevents
  simp only [refs, handled, hentering, List.append_assoc]
  refine List.Perm.append_left _ (List.Perm.trans ?_ (hevents.symm.append_right _))
  simp only [List.append_assoc, List.perm_iff_count, List.count_append]
  intro k
  omega

/-- Who prepares a handler keeps every reference, and takes new ones from the map. -/
theorem prepare_refs {s prepared : Threads} {step : Step} (h : s.prepare step = some prepared)
    (hstep : ∀ id contents, step ≠ .runEnter id contents) (handle : FightHandle) :
    (handle ∈ s.refs → handle ∈ prepared.refs) ∧
      (handle ∈ prepared.refs →
        handle ∈ s.refs ∨ ∃ n, s.server.contentsMap n = some (.fight handle)) := by
  cases step with
  | control pooled matchID => simp [prepare] at h
  | post => simp [prepare] at h
  | stopAccept => simp [prepare] at h
  | runEnter id contents => exact absurd rfl (hstep id contents)
  | shutDown =>
      simp only [prepare] at h
      split at h
      · cases h
        exact ⟨id, Or.inl⟩
      · simp at h
  | update k now =>
      have hrefs := (useFetched_refs h).mem_iff (a := handle)
      exact ⟨hrefs.mp, fun hmem => Or.inl (hrefs.mpr hmem)⟩
  | message k id msg now =>
      have hrefs := (useFetched_refs h).mem_iff (a := handle)
      exact ⟨hrefs.mp, fun hmem => Or.inl (hrefs.mpr hmem)⟩
  | releaseFetch id =>
      simp only [prepare, keepLeaving, Option.some.injEq] at h
      subst h
      split
      · rename_i k htarget
        have hmap : ∃ n, s.server.contentsMap n = some (.fight k) := by
          unfold Server.leaveTarget at htarget
          split at htarget
          · split at htarget
            · exact ⟨_, htarget⟩
            · simp at htarget
          · simp at htarget
        simp only [mem_refs, List.mem_cons, Prod.mk.injEq]
        refine ⟨?_, ?_⟩
        · rintro (hm | hm | ⟨id', hm⟩ | hm)
          · exact Or.inl hm
          · exact Or.inr (Or.inl hm)
          · exact Or.inr (Or.inr (Or.inl ⟨id', Or.inr hm⟩))
          · exact Or.inr (Or.inr (Or.inr hm))
        · rintro (hm | hm | ⟨id', ⟨_, rfl⟩ | hm⟩ | hm)
          · exact Or.inl (Or.inl hm)
          · exact Or.inl (Or.inr (Or.inl hm))
          · exact Or.inr hmap
          · exact Or.inl (Or.inr (Or.inr (Or.inl ⟨id', hm⟩)))
          · exact Or.inl (Or.inr (Or.inr (Or.inr hm)))
      · exact ⟨fun hmem => hmem, Or.inl⟩
  | onRelease id =>
      simp only [prepare, endLeaving, Option.some.injEq] at h
      subst h
      simp only [mem_refs, List.mem_append, List.mem_filter, List.mem_map, decide_eq_true_eq,
        Prod.exists, exists_eq_right]
      refine ⟨?_, ?_⟩
      · rintro (hm | hm | ⟨id', hm⟩ | hm)
        · exact Or.inl hm
        · exact Or.inr (Or.inl hm)
        · by_cases heq : id' = id
          · exact Or.inr (Or.inr (Or.inr (Or.inl (heq ▸ hm))))
          · exact Or.inr (Or.inr (Or.inl ⟨id', hm, heq⟩))
        · exact Or.inr (Or.inr (Or.inr (Or.inr hm)))
      · rintro (hm | hm | ⟨id', hm, _⟩ | hm | hm)
        · exact Or.inl (Or.inl hm)
        · exact Or.inl (Or.inr (Or.inl hm))
        · exact Or.inl (Or.inr (Or.inr (Or.inl ⟨id', hm⟩)))
        · exact Or.inl (Or.inr (Or.inr (Or.inl ⟨id, hm⟩)))
        · exact Or.inl (Or.inr (Or.inr (Or.inr hm)))
  | _ =>
      cases h
      exact ⟨id, Or.inl⟩

/-- **A handler neither ends nor begins the life of a fight.** -/
theorem alive_handled {s prepared : Threads} {step : Step} {server : Server}
    (hnumbered : s.server.Numbered) (hprepare : s.prepare step = some prepared)
    (hstep : Stepped s.server step server) (handle : FightHandle) :
    (prepared.handled server).Alive handle ↔ s.Alive handle := by
  have hw := hstep.worked (prepare_spec hprepare).1
  have hregistered : server.Registered (.fight handle) ↔ s.server.Registered (.fight handle) := by
    simp only [Server.Registered, Server.numberOf, hw.contentsMap, hw.number]
  have hmapped : ∀ n, s.server.contentsMap n = some (.fight handle) →
      s.server.Registered (.fight handle) := by
    intro n hn
    rw [Server.Registered, Server.numberOf, hnumbered n handle hn]
    exact hn
  have hrefs : handle ∈ (prepared.handled server).refs ∨ s.server.Registered (.fight handle) ↔
      handle ∈ s.refs ∨ s.server.Registered (.fight handle) := by
    obtain ⟨-, hserver, -⟩ := prepare_spec hprepare
    rcases hstep.entering with ⟨id, n, contents, rfl, hmap, hentering⟩ |
      ⟨id, contents, rfl, hmem, hentering⟩ | ⟨hne, hentering⟩
    · simp only [prepare, Option.some.injEq] at hprepare
      subst hprepare
      simp only [mem_refs, handled, hentering, List.mem_cons, exists_eq_or_imp]
      refine ⟨?_, ?_⟩
      · rintro ((hm | (hm | hm) | hm | hm) | hm)
        · exact Or.inl (Or.inl hm)
        · cases contents with
          | match_ => simp [Contents.handle?] at hm
          | fight k =>
              simp only [Contents.handle?, Option.some.injEq] at hm
              exact Or.inr (hmapped n (hm ▸ hmap))
        · exact Or.inl (Or.inr (Or.inl hm))
        · exact Or.inl (Or.inr (Or.inr (Or.inl hm)))
        · exact Or.inl (Or.inr (Or.inr (Or.inr hm)))
        · exact Or.inr hm
      · rintro ((hm | hm | hm | hm) | hm)
        · exact Or.inl (Or.inl hm)
        · exact Or.inl (Or.inr (Or.inl (Or.inr hm)))
        · exact Or.inl (Or.inr (Or.inr (Or.inl hm)))
        · exact Or.inl (Or.inr (Or.inr (Or.inr hm)))
        · exact Or.inr hm
    · rw [(runEnter_refs hprepare hmem hentering).mem_iff]
    · obtain ⟨hkept, hnew⟩ := prepare_refs hprepare hne handle
      have hsame : (prepared.handled server).refs = prepared.refs := by
        simp only [refs, handled, hentering, hserver]
      rw [hsame]
      refine ⟨?_, Or.imp_left hkept⟩
      rintro (hm | hm)
      · rcases hnew hm with hm | ⟨n, hn⟩
        · exact Or.inl hm
        · exact Or.inr (hmapped n hn)
      · exact Or.inr hm
  have hserver : (prepared.handled server).server = server := rfl
  simp only [Alive, hserver, hregistered]
  rw [or_comm, hrefs, or_comm]

/-- The pool counts the fights that are alive. -/
theorem useCount_congr {s s' : Threads} (hcreated : s'.server.created = s.server.created)
    (halive : ∀ handle < s.server.created, s'.Alive handle ↔ s.Alive handle) :
    s'.useCount = s.useCount := by
  unfold useCount
  rw [hcreated]
  congr 1
  refine List.filter_congr fun handle hmem => ?_
  simp only [decide_eq_decide]
  exact halive handle (List.mem_range.mp hmem)

end Threads

/-! ## What holds of the flags -/

/-- `_ctrlThreadRun` has been cleared. -/
def StopPhase.cleared : StopPhase → Bool
  | .notifying => true
  | .joining => true
  | .joined => true
  | .dbCleared => true
  | _ => false

namespace Threads

structure Steady (s : Threads) : Prop where
  book : s.server.Book
  numbered : s.server.Numbered
  flag : s.ctrlThreadRun = false → s.stop.cleared = true
  joined : s.stop = .joined ∨ s.stop = .dbCleared → s.ctrl = .returned

theorem steady_initial (pooled : FightContents) : Steady (initialThreads pooled) where
  book := Server.book_initial pooled
  numbered := Server.numbered_initial pooled
  flag := by simp [initialThreads]
  joined := by simp [initialThreads]

theorem notifyOne_ctrl (s : Threads) :
    (s.ctrl = .waiting ∧ s.notifyOne = { s with ctrl := .woken }) ∨
      (s.ctrl ≠ .waiting ∧ s.notifyOne = s) := by
  unfold notifyOne
  split
  · rename_i hctrl
    exact Or.inl ⟨hctrl, rfl⟩
  · rename_i hctrl
    exact Or.inr ⟨hctrl, rfl⟩

theorem Steady.step {s s' : Threads} {step : ThreadStep} (h : Steady s)
    (hstep : threadStep s step = some s') : Steady s' := by
  have hjoined := h.joined
  cases threadStep_threaded hstep with
  | lock pooled matchID hctrl =>
      exact ⟨h.book, h.numbered, h.flag, fun hs => by simpa [hctrl] using hjoined hs⟩
  | wait pooled matchID hctrl =>
      exact ⟨h.book, h.numbered, h.flag, fun hs => by simpa [hctrl] using hjoined hs⟩
  | relock pooled matchID hctrl =>
      exact ⟨h.book, h.numbered, h.flag, fun hs => by simpa [hctrl] using hjoined hs⟩
  | post pooled matchID server hctrl hpost =>
      exact ⟨h.book.step hpost, h.numbered.step h.book hpost, h.flag, hjoined⟩
  | empty pooled matchID hctrl hidle hq =>
      exact ⟨h.book, h.numbered, h.flag, fun hs => by simpa [hctrl] using hjoined hs⟩
  | take pooled matchID server control rest hctrl hq htake =>
      exact ⟨h.book.step htake, h.numbered.step h.book htake, h.flag, hjoined⟩
  | «return» pooled matchID hctrl hstop => exact ⟨h.book, h.numbered, h.flag, fun _ => rfl⟩
  | goOn pooled matchID hctrl hstop =>
      exact ⟨h.book, h.numbered, h.flag, fun hs => by simpa [hctrl] using hjoined hs⟩
  | unlock pooled matchID hctrl =>
      exact ⟨h.book, h.numbered, h.flag, fun hs => by simpa [hctrl] using hjoined hs⟩
  | stopAccept server hstop haccept =>
      refine ⟨h.book.step haccept, h.numbered.step h.book haccept, fun hrun => ?_, by simp⟩
      have := h.flag hrun
      rw [hstop] at this
      simp [StopPhase.cleared] at this
  | request hstop =>
      refine ⟨h.book, h.numbered, fun hrun => ?_, by simp⟩
      have := h.flag hrun
      rw [hstop] at this
      simp [StopPhase.cleared] at this
  | polled hstop hstate =>
      refine ⟨h.book, h.numbered, fun hrun => ?_, by simp⟩
      have := h.flag hrun
      rw [hstop] at this
      simp [StopPhase.cleared] at this
  | clear hstop hfree => exact ⟨h.book, h.numbered, fun _ => rfl, by simp⟩
  | notifyStop hstop =>
      rcases s.notifyOne_ctrl with ⟨_, heq⟩ | ⟨_, heq⟩ <;> rw [heq] <;>
        exact ⟨h.book, h.numbered, fun _ => rfl, by simp⟩
  | join hstop hctrl => exact ⟨h.book, h.numbered, fun _ => rfl, fun _ => hctrl⟩
  | clearDB hstop => exact ⟨h.book, h.numbered, fun _ => rfl, fun _ => hjoined (Or.inl hstop)⟩
  | server step prepared server hprepare hserver =>
      obtain ⟨-, -, hctrl, hstop, -, hrun, -, -⟩ := prepare_spec hprepare
      refine ⟨h.book.step hserver, h.numbered.step h.book hserver, ?_, ?_⟩
      · simp only [handled, hrun, hstop]
        exact h.flag
      · simp only [handled, hctrl, hstop]
        exact hjoined
  | fetch handle hlt hreg => exact ⟨h.book, h.numbered, h.flag, hjoined⟩
  | drop handle hmem => exact ⟨h.book, h.numbered, h.flag, hjoined⟩
  | notify hsome =>
      rcases s.notifyOne_ctrl with ⟨hctrl, heq⟩ | ⟨_, heq⟩ <;> rw [heq]
      · exact ⟨h.book, h.numbered, h.flag, fun hs => by simpa [hctrl] using hjoined hs⟩
      · exact ⟨h.book, h.numbered, h.flag, hjoined⟩

/-! ## The stop condition over a step -/

theorem shouldStop_congr {s s' : Threads} (huse : s'.useCount = s.useCount)
    (hrun : s'.ctrlThreadRun = s.ctrlThreadRun) (hstate : s'.state = s.state) :
    s'.shouldStopControlThread = s.shouldStopControlThread := by
  simp only [shouldStopControlThread, huse, hrun, hstate]

theorem handled_shouldStop {s prepared : Threads} {step : Step} {server : Server}
    (hnumbered : s.server.Numbered) (hprepare : s.prepare step = some prepared)
    (hstep : Stepped s.server step server) :
    (prepared.handled server).shouldStopControlThread = s.shouldStopControlThread := by
  obtain ⟨hcontrol, -, -, -, hstate, hrun, -, -⟩ := prepare_spec hprepare
  exact shouldStop_congr (useCount_congr (hstep.worked hcontrol).created
    fun handle _ => alive_handled hnumbered hprepare hstep handle) hrun hstate

theorem fetch_shouldStop {s : Threads} {handle : FightHandle}
    (hreg : s.server.Registered (.fight handle)) :
    { s with fetched := handle :: s.fetched }.shouldStopControlThread =
      s.shouldStopControlThread := by
  refine shouldStop_congr (useCount_congr rfl fun k _ => ?_) rfl rfl
  simp only [Alive, mem_refs, List.mem_cons]
  refine ⟨?_, ?_⟩
  · rintro (hm | (rfl | hm) | hm)
    · exact Or.inl hm
    · exact Or.inl hreg
    · exact Or.inr (Or.inl hm)
    · exact Or.inr (Or.inr hm)
  · rintro (hm | hm | hm)
    · exact Or.inl hm
    · exact Or.inr (Or.inl (Or.inr hm))
    · exact Or.inr (Or.inr hm)

theorem drop_shouldStop {s : Threads} {handle : FightHandle}
    (hstop : s.shouldStopControlThread = true) :
    { s with done := s.done.erase handle }.shouldStopControlThread = true := by
  simp only [shouldStopControlThread, Bool.and_eq_true, decide_eq_true_eq] at hstop ⊢
  refine ⟨⟨useCount_eq_zero.mpr fun k hk halive => ?_, hstop.1.2⟩, hstop.2⟩
  refine useCount_eq_zero.mp hstop.1.1 k hk (Or.imp_right (fun hmem => ?_) halive)
  rw [mem_refs] at hmem ⊢
  exact hmem.imp_right (Or.imp_right (Or.imp_right List.mem_of_mem_erase))

/-- What a handler enqueued, and its notifications. -/
theorem handled_queue {s prepared : Threads} {step : Step} {server : Server}
    (hprepare : s.prepare step = some prepared) (hstep : Stepped s.server step server) :
    ∃ more, server.ctrlQ = s.server.ctrlQ ++ more ∧
      (prepared.handled server).toNotify = s.toNotify + more.length := by
  obtain ⟨hcontrol, hserver, -, -, -, -, -, hnotify⟩ := prepare_spec hprepare
  obtain ⟨more, hq, -⟩ := (hstep.worked hcontrol).ctrlQ
  refine ⟨more, hq, ?_⟩
  simp only [handled, hserver, hnotify, hq, List.length_append, Nat.add_sub_cancel_left]

end Threads

/-! ## Requests -/

/-- Between the failed `Dequeue`, or the start of the thread, and the wait. -/
def CtrlPhase.deaf : CtrlPhase → Bool
  | .checking => true
  | .unlocking => true
  | .unlocked => true
  | .locked => true
  | _ => false

namespace Threads

/-- The control thread is blocked, a request is queued, and nobody is to notify. -/
def Stranded (s : Threads) : Prop :=
  s.ctrl = .waiting ∧ s.server.ctrlQ ≠ [] ∧ s.toNotify = 0

instance (s : Threads) : Decidable s.Stranded := inferInstanceAs (Decidable (_ ∧ _ ∧ _))

/-- The last notification to come, with a request in the queue, is not made while the
control thread is between its failed `Dequeue` and its wait, unless it is to return. -/
def Heard (s : Threads) : ThreadStep → Prop
  | .notify => s.ctrl.deaf = true → s.server.ctrlQ ≠ [] → 1 < s.toNotify ∨
      (s.ctrl = .checking ∧ s.shouldStopControlThread = true)
  | _ => True

instance (s : Threads) (step : ThreadStep) : Decidable (Heard s step) := by
  unfold Heard
  split <;> infer_instance

/-- While the thread will not look at the queue by itself, somebody is to notify. -/
def Awake (s : Threads) : Prop :=
  s.ctrl.deaf = true ∨ s.ctrl = .waiting → s.server.ctrlQ ≠ [] →
    0 < s.toNotify ∨ (s.ctrl = .checking ∧ s.shouldStopControlThread = true)

theorem Awake.of_same {s s' : Threads} (h : Awake s) (hctrl : s'.ctrl = s.ctrl)
    (hq : s'.server.ctrlQ = s.server.ctrlQ) (hnotify : s.toNotify ≤ s'.toNotify)
    (hstop : s.ctrl = .checking → s.shouldStopControlThread = true →
      s'.shouldStopControlThread = true) : Awake s' := by
  intro hphase hne
  rw [hctrl] at hphase
  rw [hq] at hne
  rcases h hphase hne with hsome | ⟨hchecking, hshould⟩
  · exact Or.inl (Nat.lt_of_lt_of_le hsome hnotify)
  · exact Or.inr ⟨hctrl.trans hchecking, hstop hchecking hshould⟩

/-- Before the wait the phases follow each other. -/
theorem Awake.next {s : Threads} (h : Awake s) {phase : CtrlPhase} (hdeaf : s.ctrl.deaf = true)
    (hstop : s.ctrl = .checking → s.shouldStopControlThread = false) :
    Awake { s with ctrl := phase } := by
  intro _ hne
  rcases h (Or.inl hdeaf) hne with hsome | ⟨hchecking, hshould⟩
  · exact Or.inl hsome
  · rw [hstop hchecking] at hshould
    simp at hshould

/-- The thread looks at the queue again before it waits. -/
theorem awake_of_busy {s : Threads} (hdeaf : s.ctrl.deaf = false) (hwaiting : s.ctrl ≠ .waiting) :
    Awake s := by
  rintro (hphase | hphase)
  · rw [hdeaf] at hphase
    simp at hphase
  · exact absurd hphase hwaiting

theorem Awake.step {s s' : Threads} {step : ThreadStep} (h : Awake s) (hsteady : Steady s)
    (hok : Heard s step) (hstep : threadStep s step = some s') : Awake s' := by
  cases threadStep_threaded hstep with
  | lock pooled matchID hctrl => exact h.next (by simp [hctrl, CtrlPhase.deaf]) (by simp [hctrl])
  | wait pooled matchID hctrl => exact h.next (by simp [hctrl, CtrlPhase.deaf]) (by simp [hctrl])
  | relock pooled matchID hctrl => exact awake_of_busy rfl (by simp)
  | post pooled matchID server hctrl hpost =>
      exact awake_of_busy (by simp [hctrl, CtrlPhase.deaf]) (by simp [hctrl])
  | empty pooled matchID hctrl hidle hq => exact fun _ hne => absurd hq hne
  | take pooled matchID server control rest hctrl hq htake =>
      exact awake_of_busy (by simp [hctrl, CtrlPhase.deaf]) (by simp [hctrl])
  | «return» pooled matchID hctrl hstop => exact awake_of_busy rfl (by simp)
  | goOn pooled matchID hctrl hstop =>
      exact h.next (by simp [hctrl, CtrlPhase.deaf]) fun _ => hstop
  | unlock pooled matchID hctrl => exact h.next (by simp [hctrl, CtrlPhase.deaf]) (by simp [hctrl])
  | stopAccept server hstop haccept =>
      have hw := haccept.worked rfl
      refine h.of_same rfl ?_ (Nat.le_refl _) fun _ hshould => ?_
      · cases haccept with
        | stopAccept hidle => rfl
        | event _ handle event hevent hhandle => simp [Step.event?] at hevent
      · -- The flag of the control thread is not cleared yet.
        simp only [shouldStopControlThread, Bool.and_eq_true, Bool.not_eq_true'] at hshould
        have hcleared := hsteady.flag hshould.1.2
        rw [hstop] at hcleared
        simp [StopPhase.cleared] at hcleared
  | request hstop => exact h.of_same rfl rfl (Nat.le_refl _) fun _ hshould => hshould
  | polled hstop hstate => exact h.of_same rfl rfl (Nat.le_refl _) fun _ hshould => hshould
  | clear hstop hfree =>
      refine h.of_same rfl rfl (Nat.le_refl _) fun hchecking _ => ?_
      rw [hchecking] at hfree
      simp [CtrlPhase.free] at hfree
  | notifyStop hstop =>
      rcases s.notifyOne_ctrl with ⟨hctrl, heq⟩ | ⟨_, heq⟩ <;> rw [heq]
      · exact awake_of_busy rfl (by simp)
      · exact h.of_same rfl rfl (Nat.le_refl _) fun _ hshould => hshould
  | join hstop hctrl =>
      exact awake_of_busy (by simp [hctrl, CtrlPhase.deaf]) (by simp [hctrl])
  | clearDB hstop => exact h.of_same rfl rfl (Nat.le_refl _) fun _ hshould => hshould
  | server step prepared server hprepare hserver =>
      obtain ⟨-, -, hctrl, -⟩ := prepare_spec hprepare
      obtain ⟨more, hq, hnotify⟩ := handled_queue hprepare hserver
      by_cases hmore : more = []
      · subst hmore
        refine h.of_same hctrl (hq.trans (List.append_nil _)) (by rw [hnotify]; simp) ?_
        rw [handled_shouldStop hsteady.numbered hprepare hserver]
        exact fun _ hshould => hshould
      · have hpos := List.length_pos_of_ne_nil hmore
        exact fun _ _ => Or.inl (by rw [hnotify]; omega)
  | fetch handle hlt hreg =>
      refine h.of_same rfl rfl (Nat.le_refl _) fun _ hshould => ?_
      rw [fetch_shouldStop hreg]
      exact hshould
  | drop handle hmem =>
      exact h.of_same rfl rfl (Nat.le_refl _) fun _ hshould => drop_shouldStop hshould
  | notify hsome =>
      rcases s.notifyOne_ctrl with ⟨hctrl, heq⟩ | ⟨hctrl, heq⟩ <;> rw [heq]
      · exact awake_of_busy rfl (by simp)
      · rintro (hphase | hphase) hne
        · rcases hok hphase hne with hlast | hreturn
          · exact Or.inl (Nat.sub_pos_of_lt hlast)
          · exact Or.inr hreturn
        · exact absurd hphase hctrl

/-- The control thread goes from its failed `Dequeue` to the wait. -/
theorem deaf_waits {s : Threads} (pooled : FightContents) (matchID : Int)
    (hdeaf : s.ctrl.deaf = true)
    (hstop : s.ctrl = .checking → s.shouldStopControlThread = false) :
    ∃ n, exec threadStep s (List.replicate n (.ctrl pooled matchID)) =
      some { s with ctrl := .waiting } := by
  have hlocked : exec threadStep { s with ctrl := .locked } [.ctrl pooled matchID] =
      some { s with ctrl := .waiting } := rfl
  have hunlocked : exec threadStep { s with ctrl := .unlocked }
      (List.replicate 2 (.ctrl pooled matchID)) = some { s with ctrl := .waiting } := rfl
  have hunlocking : exec threadStep { s with ctrl := .unlocking }
      (List.replicate 3 (.ctrl pooled matchID)) = some { s with ctrl := .waiting } := rfl
  cases hctrl : s.ctrl with
  | checking =>
      refine ⟨4, ?_⟩
      have hgo : threadStep s (.ctrl pooled matchID) = some { s with ctrl := .unlocking } := by
        simp [threadStep, ctrlStep, hctrl, hstop hctrl]
      rw [List.replicate_succ, exec_cons, hgo]
      exact hunlocking
  | unlocking =>
      have heq : s = { s with ctrl := .unlocking } := by rw [← hctrl]
      exact ⟨3, heq ▸ hunlocking⟩
  | unlocked =>
      have heq : s = { s with ctrl := .unlocked } := by rw [← hctrl]
      exact ⟨2, heq ▸ hunlocked⟩
  | locked =>
      have heq : s = { s with ctrl := .locked } := by rw [← hctrl]
      exact ⟨1, heq ▸ hlocked⟩
  | _ => rw [hctrl] at hdeaf; simp [CtrlPhase.deaf] at hdeaf

/-- **No request is missed** in a run whose notifications are all heard; and where one is
not, the control thread goes on to wait with the request in its queue. -/
theorem requests_heard (pooled : FightContents) :
    (∀ steps s, Along threadStep Heard (initialThreads pooled) steps →
      exec threadStep (initialThreads pooled) steps = some s → ¬ s.Stranded) ∧
    ∀ s t step, threadStep s step = some t → ¬ Heard s step →
      ∃ n u, exec threadStep t (List.replicate n (.ctrl pooled 1)) = some u ∧ u.Stranded := by
  refine ⟨fun steps s hok hrun => ?_, fun s t step hstep hlost => ?_⟩
  · have h : Steady s ∧ Awake s := by
      refine exec_invariant_along (I := fun s => Steady s ∧ Awake s)
        (fun _ _ _ h hok hs => ⟨h.1.step hs, h.2.step h.1 hok hs⟩) ⟨steady_initial pooled, ?_⟩
        hok hrun
      exact fun _ hne => absurd rfl hne
    rintro ⟨hctrl, hne, hzero⟩
    rcases h.2 (Or.inr hctrl) hne with hsome | ⟨hchecking, _⟩
    · omega
    · rw [hctrl] at hchecking
      simp at hchecking
  · cases threadStep_threaded hstep with
    | notify hsome =>
        simp only [Heard, Classical.not_imp, not_or, not_and] at hlost
        obtain ⟨hdeaf, hne, hlast, hreturn⟩ := hlost
        rcases s.notifyOne_ctrl with ⟨hctrl, _⟩ | ⟨_, heq⟩
        · rw [hctrl] at hdeaf
          simp [CtrlPhase.deaf] at hdeaf
        · rw [heq]
          obtain ⟨n, hn⟩ := deaf_waits (s := { s with toNotify := s.toNotify - 1 }) pooled 1 hdeaf
            fun hchecking => Bool.eq_false_iff.mpr (hreturn hchecking)
          refine ⟨n, _, hn, rfl, hne, ?_⟩
          simp only
          omega
    | _ => exact absurd trivial hlost

end Threads

/-- The next six sessions are accepted, and their group is notified. -/
def nextGrouped : List ThreadStep :=
  (List.range 6).flatMap (fun i =>
    [.server (.accept (firstSession (6 + i))), .server (.onAccept (firstPlayer (6 + i) .red)),
      .server .acceptEnter]) ++ [.notify]

/-- Two groups of six: the second is notified after the thread has allocated the first
fight and before it waits again. -/
def lostGroup : List ThreadStep :=
  ctrlRounds 2 ++ sixGrouped ++ ctrlRounds 12 ++ nextGrouped ++ ctrlRounds 2

theorem lostGroup_stranded :
    ∃ s ∈ exec threadStep (initialThreads pooledFight) lostGroup, s.Stranded := by
  decide +kernel

/-- The same two groups when the second comes while the thread waits. -/
def heardGroup : List ThreadStep :=
  ctrlRounds 2 ++ sixGrouped ++ ctrlRounds 14 ++ nextGrouped

theorem heardGroup_heard :
    ∃ s ∈ exec threadStep (initialThreads pooledFight) heardGroup,
      s.ctrl = .woken ∧ ¬ s.Stranded := by
  have hsome : ∃ s ∈ exec threadStep (initialThreads pooledFight) heardGroup,
      s.ctrl = .woken := by decide +kernel
  obtain ⟨s, hs, hctrl⟩ := hsome
  exact ⟨s, hs, hctrl, (Threads.requests_heard pooledFight).1 heardGroup s (by decide +kernel) hs⟩

/-! ## The stop condition -/

/-- Past the check of the stop condition, up to the end of the wait. -/
def CtrlPhase.pastCheck : CtrlPhase → Bool
  | .unlocking => true
  | .unlocked => true
  | .locked => true
  | .waiting => true
  | _ => false

namespace Threads

/-- The condition under which the control thread is to return. -/
def EndReached (s : Threads) : Prop :=
  s.shouldStopControlThread = true ∧ s.server.ctrlQ = []

instance (s : Threads) : Decidable s.EndReached := inferInstanceAs (Decidable (_ ∧ _))

/-- The control thread is blocked at the end, and nobody is to notify. -/
def Stalled (s : Threads) : Prop :=
  s.ctrl = .waiting ∧ s.EndReached ∧ s.toNotify = 0 ∧ s.stop ≠ .notifying

instance (s : Threads) : Decidable s.Stalled :=
  inferInstanceAs (Decidable (_ ∧ _ ∧ _ ∧ _))

/-- While the control thread is past its check of the stop condition, the last
notification to come is not made before it waits if the condition holds, and no dropped
reference makes the condition hold if no notification is to come. -/
def EndSeen (s : Threads) : ThreadStep → Prop
  | .notify => s.ctrl.pastCheck = true → s.ctrl ≠ .waiting → s.EndReached →
      1 < s.toNotify ∨ s.stop = .notifying
  | .stop => s.stop = .notifying → s.ctrl.pastCheck = true → s.ctrl ≠ .waiting →
      s.EndReached → 0 < s.toNotify
  | .drop handle => handle ∈ s.done → s.ctrl.pastCheck = true →
      EndReached { s with done := s.done.erase handle } → 0 < s.toNotify ∨ s.stop = .notifying
  | _ => True

instance (s : Threads) (step : ThreadStep) : Decidable (EndSeen s step) := by
  unfold EndSeen
  split <;> infer_instance

/-- Past the check, at the end, somebody is to notify. -/
def Awaited (s : Threads) : Prop :=
  s.ctrl.pastCheck = true → s.EndReached → 0 < s.toNotify ∨ s.stop = .notifying

theorem Awaited.of_same {s s' : Threads} (h : Awaited s)
    (hctrl : s'.ctrl.pastCheck = true → s.ctrl.pastCheck = true)
    (hend : s'.EndReached → s.EndReached) (hnotify : s.toNotify ≤ s'.toNotify)
    (hstop : s.stop = .notifying → s'.stop = .notifying) : Awaited s' := by
  intro hpast hreached
  rcases h (hctrl hpast) (hend hreached) with hsome | hnotifying
  · exact Or.inl (Nat.lt_of_lt_of_le hsome hnotify)
  · exact Or.inr (hstop hnotifying)

theorem awaited_of_checking {s : Threads} (hctrl : s.ctrl.pastCheck = false) : Awaited s := by
  intro hpast
  rw [hctrl] at hpast
  simp at hpast

/-- Before `StopControlThread` has cleared the flag the condition does not hold. -/
theorem Steady.not_reached {s : Threads} (h : Steady s) (hstop : s.stop.cleared = false) :
    ¬ s.EndReached := by
  rintro ⟨hshould, _⟩
  simp only [shouldStopControlThread, Bool.and_eq_true, Bool.not_eq_true'] at hshould
  have hcleared := h.flag hshould.1.2
  rw [hstop] at hcleared
  simp at hcleared

theorem Awaited.step {s s' : Threads} {step : ThreadStep} (h : Awaited s) (hsteady : Steady s)
    (hok : EndSeen s step) (hstep : threadStep s step = some s') : Awaited s' := by
  cases threadStep_threaded hstep with
  | lock pooled matchID hctrl =>
      exact h.of_same (by simp [hctrl, CtrlPhase.pastCheck]) id (Nat.le_refl _) id
  | wait pooled matchID hctrl =>
      exact h.of_same (by simp [hctrl, CtrlPhase.pastCheck]) id (Nat.le_refl _) id
  | relock pooled matchID hctrl => exact awaited_of_checking rfl
  | post pooled matchID server hctrl hpost =>
      exact awaited_of_checking (by simp [hctrl, CtrlPhase.pastCheck])
  | empty pooled matchID hctrl hidle hq => exact awaited_of_checking rfl
  | take pooled matchID server control rest hctrl hq htake =>
      exact awaited_of_checking (by simp [hctrl, CtrlPhase.pastCheck])
  | «return» pooled matchID hctrl hstop => exact awaited_of_checking rfl
  | goOn pooled matchID hctrl hstop =>
      -- The condition has just been found false.
      rintro _ ⟨hshould, _⟩
      have hsame : s.shouldStopControlThread = true := hshould
      rw [hstop] at hsame
      simp at hsame
  | unlock pooled matchID hctrl =>
      exact h.of_same (by simp [hctrl, CtrlPhase.pastCheck]) id (Nat.le_refl _) id
  | stopAccept server hstop haccept =>
      rintro _ ⟨hshould, _⟩
      simp [shouldStopControlThread] at hshould
  | request hstop =>
      refine fun _ hreached => absurd ?_ (hsteady.not_reached (by rw [hstop]; rfl))
      exact hreached
  | polled hstop hstate =>
      refine fun _ hreached => absurd ?_ (hsteady.not_reached (by rw [hstop]; rfl))
      exact hreached
  | clear hstop hfree => exact fun _ _ => Or.inr rfl
  | notifyStop hstop =>
      rcases s.notifyOne_ctrl with ⟨hctrl, heq⟩ | ⟨hctrl, heq⟩ <;> rw [heq]
      · exact awaited_of_checking rfl
      · exact fun hpast hreached => Or.inl (hok hstop hpast hctrl hreached)
  | join hstop hctrl => exact awaited_of_checking (by simp [hctrl, CtrlPhase.pastCheck])
  | clearDB hstop =>
      have hctrl := hsteady.joined (Or.inl hstop)
      exact awaited_of_checking (by simp [hctrl, CtrlPhase.pastCheck])
  | server step prepared server hprepare hserver =>
      obtain ⟨-, -, hctrl, hstop, -⟩ := prepare_spec hprepare
      obtain ⟨more, hq, hnotify⟩ := handled_queue hprepare hserver
      refine h.of_same (fun hpast => hctrl ▸ hpast) ?_ (by rw [hnotify]; omega)
        fun hnotifying => hstop.trans hnotifying
      rintro ⟨hshould, hnil⟩
      rw [handled_shouldStop hsteady.numbered hprepare hserver] at hshould
      have hnil : server.ctrlQ = [] := hnil
      rw [hq, List.append_eq_nil_iff] at hnil
      exact ⟨hshould, hnil.1⟩
  | fetch handle hlt hreg =>
      refine h.of_same id ?_ (Nat.le_refl _) id
      rintro ⟨hshould, hnil⟩
      rw [fetch_shouldStop hreg] at hshould
      exact ⟨hshould, hnil⟩
  | drop handle hmem => exact fun hpast hreached => hok hmem hpast hreached
  | notify hsome =>
      rcases s.notifyOne_ctrl with ⟨hctrl, heq⟩ | ⟨hctrl, heq⟩ <;> rw [heq]
      · exact awaited_of_checking rfl
      · intro hpast hreached
        rcases hok hpast hctrl hreached with hlast | hnotifying
        · exact Or.inl (Nat.sub_pos_of_lt hlast)
        · exact Or.inr hnotifying

/-- The control thread goes from its check to the wait. -/
theorem pastCheck_waits {s : Threads} (pooled : FightContents) (matchID : Int)
    (hpast : s.ctrl.pastCheck = true) :
    ∃ n, exec threadStep s (List.replicate n (.ctrl pooled matchID)) =
      some { s with ctrl := .waiting } := by
  by_cases hwaiting : s.ctrl = .waiting
  · refine ⟨0, ?_⟩
    rw [List.replicate_zero, exec_nil, ← hwaiting]
  · refine deaf_waits pooled matchID ?_ fun hchecking => ?_
    · cases hctrl : s.ctrl <;> simp_all [CtrlPhase.pastCheck, CtrlPhase.deaf]
    · rw [hchecking] at hpast
      simp [CtrlPhase.pastCheck] at hpast

/-- **The shutdown does not stall** in a run whose notifications and dropped references
all come in time; and where one does not, the control thread goes on to wait at the end
with nobody left to notify it. -/
theorem end_seen (pooled : FightContents) :
    (∀ steps s, Along threadStep EndSeen (initialThreads pooled) steps →
      exec threadStep (initialThreads pooled) steps = some s → ¬ s.Stalled) ∧
    ∀ s t step, threadStep s step = some t → ¬ EndSeen s step →
      ∃ n u, exec threadStep t (List.replicate n (.ctrl pooled 1)) = some u ∧ u.Stalled := by
  refine ⟨fun steps s hok hrun => ?_, fun s t step hstep hmissed => ?_⟩
  · have h : Steady s ∧ Awaited s := by
      refine exec_invariant_along (I := fun s => Steady s ∧ Awaited s)
        (fun _ _ _ h hok hs => ⟨h.1.step hs, h.2.step h.1 hok hs⟩) ⟨steady_initial pooled, ?_⟩
        hok hrun
      exact fun _ hreached => absurd hreached ((steady_initial pooled).not_reached rfl)
    rintro ⟨hctrl, hreached, hzero, hstop⟩
    rcases h.2 (by simp [hctrl, CtrlPhase.pastCheck]) hreached with hsome | hnotifying
    · omega
    · exact hstop hnotifying
  · -- What was missed leaves the thread past its check, at the end, and nobody to notify.
    have hlate : t.ctrl.pastCheck = true ∧ t.EndReached ∧ t.toNotify = 0 ∧
        t.stop ≠ .notifying := by
      cases threadStep_threaded hstep with
      | notify hsome =>
          simp only [EndSeen, Classical.not_imp, not_or] at hmissed
          obtain ⟨hpast, hctrl, hreached, hlast, hnotifying⟩ := hmissed
          rcases s.notifyOne_ctrl with ⟨hwaiting, _⟩ | ⟨_, heq⟩
          · exact absurd hwaiting hctrl
          · rw [heq]
            refine ⟨hpast, hreached, ?_, hnotifying⟩
            simp only
            omega
      | drop handle hmem =>
          simp only [EndSeen, Classical.not_imp, not_or] at hmissed
          obtain ⟨_, hpast, hreached, hnone, hnotifying⟩ := hmissed
          exact ⟨hpast, hreached, Nat.eq_zero_of_not_pos hnone, hnotifying⟩
      | notifyStop hstop =>
          simp only [EndSeen, Classical.not_imp] at hmissed
          obtain ⟨_, hpast, hctrl, hreached, hnone⟩ := hmissed
          rcases s.notifyOne_ctrl with ⟨hwaiting, _⟩ | ⟨_, heq⟩
          · exact absurd hwaiting hctrl
          · rw [heq]
            exact ⟨hpast, hreached, Nat.eq_zero_of_not_pos hnone, by simp⟩
      | stopAccept server hstop haccept => simp [EndSeen, hstop] at hmissed
      | request hstop => simp [EndSeen, hstop] at hmissed
      | polled hstop hstate => simp [EndSeen, hstop] at hmissed
      | clear hstop hfree => simp [EndSeen, hstop] at hmissed
      | join hstop hctrl => simp [EndSeen, hstop] at hmissed
      | clearDB hstop => simp [EndSeen, hstop] at hmissed
      | _ => exact absurd trivial hmissed
    obtain ⟨hpast, hreached, hzero, hstop⟩ := hlate
    obtain ⟨n, hn⟩ := pastCheck_waits pooled 1 hpast
    exact ⟨n, _, hn, rfl, hreached, hzero, hstop⟩

end Threads

/-- A stop without fights: `StopControlThread` notifies before the thread waits again. -/
def lostStop : List ThreadStep :=
  ctrlRounds 2 ++ [.stop, .stop, .server .shutDown, .notify] ++ ctrlRounds 5 ++
    [.stop, .stop, .stop] ++ ctrlRounds 2

theorem lostStop_stalled :
    ∃ s ∈ exec threadStep (initialThreads pooledFight) lostStop, s.Stalled := by
  decide +kernel

theorem stopsAfterFight_seen :
    ∃ s ∈ exec threadStep (initialThreads pooledFight) stopsAfterFight,
      s.ctrl = .returned ∧ ¬ s.Stalled := by
  have hsome : ∃ s ∈ exec threadStep (initialThreads pooledFight) stopsAfterFight,
      s.ctrl = .returned := by decide +kernel
  obtain ⟨s, hs, hctrl⟩ := hsome
  exact ⟨s, hs, hctrl, (Threads.end_seen pooledFight).1 stopsAfterFight s (by decide +kernel) hs⟩

end SessionServer.Battle
