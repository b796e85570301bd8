/-
  ContentLib/StaleRun.lean --- what a call with the ID of an old session can do.

  A call compares the ID after it has a reference that keeps the slot from being released,
  so whatever it does to the session it found it does to the session it names.  Its own
  decrement may end a life of the slot that is not the one it names; the store to `_dFlag`
  that follows is a step of its own, and nothing keeps the slot from being released and
  accepted again before it.
-/
import SessionServer.ContentLib.SlotRun

set_option autoImplicit false

namespace SessionServer.ContentLib

open SessionServer.Foundation ContentLib.Frame

/-! ## Frames -/

namespace Frame

/-- The session ID a call was given. -/
def caller : Frame → Option SessionID
  | disconnect id _ => some id
  | sendPacket id _ => some id
  | tryMove id _ _ => some id
  | _ => none

/-- The session ID a call has found in the slot. -/
def checked : Frame → Option SessionID
  | disconnect id .mark => some id
  | disconnect id .cancel => some id
  | sendPacket id .dFlag => some id
  | sendPacket id .enqueue => some id
  | sendPacket id .size => some id
  | sendPacket id .post => some id
  | tryMove id _ .dFlag => some id
  | tryMove id _ .store => some id
  | _ => none

/-- The slot whose last reference a call has given up, while it has yet to set `_dFlag`
there or to post the release. -/
def final : Frame → Option Nat
  | dead i false => some i
  | postRelease i => some i
  | _ => none

theorem checked_confirmed {frame : Frame} {id : SessionID} (h : frame.checked = some id) :
    frame.confirmed = true ∧ frame.slot = some (findSession id) := by
  unfold checked at h
  split at h <;> first
    | (cases h; exact ⟨rfl, rfl⟩)
    | simp at h

end Frame

/-- The compare-exchange a `Release` is about to try. -/
def Frame.releasing : Frame → Option Nat
  | release i .cas => some i
  | _ => none

variable {cfg : Config} {s s' : ContentsServer} {frame : Frame} {i t : Nat} {rest : List Frame}

/-! ## A live slot keeps its session -/

/-- Its ID is not written. -/
theorem Sound.sessionID_kept (h : Sound cfg s) (hlive : (s.sessionArray i).live = 1)
    (hstack : s.threads[t]? = some (frame :: rest)) (now : UInt64) (outcome : Outcome) :
    ((s.runFrame cfg now outcome frame).1.sessionArray i).sessionID =
      (s.sessionArray i).sessionID := by
  have hpresent : Present s.threads frame := present_of_getElem? hstack (by simp)
  have hran : Ran cfg s frame _ _ := runFrame_ran now outcome frame
  rcases hran.sessionID i with hsame | ⟨rfl, _, _⟩
  · exact hsame
  · have := (h.owner hpresent rfl rfl).2.2.1
    omega

/-- It stays live, unless a `Release` succeeds. -/
theorem Ran.live_kept {frames : List Frame} (h : Ran cfg s frame s' frames)
    (hlive : (s.sessionArray i).live = 1)
    (hcas : frame = .release i .cas → s.isZero i = false) : (s'.sessionArray i).live = 1 := by
  obtain ⟨harmed, hflag⟩ := Session.live_eq_one.mp hlive
  refine Session.live_eq_one.mpr ⟨h.armed i harmed, ?_⟩
  rcases h.releaseFlag i hflag with hclear | ⟨rfl, hzero⟩
  · exact hclear
  · have := hcas rfl
    simp [ContentsServer.isZero, hflag, hzero] at this

/-- A function that starts writes to no session but its I/O. -/
theorem Began.live {first : Frame} (h : Began s s' first) (i : Nat) :
    (s'.sessionArray i).live = (s.sessionArray i).live := by
  obtain ⟨io, _, heq⟩ := h.session i
  rw [heq]
  rfl

theorem Began.sessionID {first : Frame} (h : Began s s' first) (i : Nat) :
    (s'.sessionArray i).sessionID = (s.sessionArray i).sessionID := by
  obtain ⟨io, _, heq⟩ := h.session i
  rw [heq]

/-! ## Calls act on the session they name -/

/-- What a call has found in the slot is still there. -/
def Checked (s : ContentsServer) : Prop :=
  ∀ frame id, Present s.threads frame → frame.checked = some id →
    (s.sessionArray (findSession id)).sessionID = id

/-- A frame has compared the ID now or before. -/
theorem Next.checked {next : Frame} {id : SessionID} (h : Next s frame next)
    (hchecked : next.checked = some id) :
    frame.checked = some id ∨ (s.sessionArray (findSession id)).sessionID = id := by
  cases h with
  | disconnectMark id' hid | sendPacketDFlag id' hid | tryMoveDFlag id' _ hid =>
      rw [← Option.some.inj hchecked]
      exact Or.inr hid
  | disconnectCancel | sendPacketEnqueue | sendPacketSize | sendPacketPost | tryMoveStore =>
      exact Or.inl hchecked
  | _ => simp [Frame.checked] at hchecked

theorem checked_started (cfg : Config) (others : Nat) : Checked (startedServer cfg others) := by
  exact fun frame id hpresent => absurd hpresent (not_present_started cfg others frame)

/-- A step keeps what the calls have found. -/
theorem Checked.step {step : Step} (h : Checked s) (hsound : Sound cfg s)
    (hstep : Served cfg s step s') : Checked s' := by
  refine hstep.cases_run ?_ ?_
  · intro t now outcome frame rest _ hstack other id hother hid
    have hran : Ran cfg s frame _ _ := runFrame_ran now outcome frame
    have hpresent : Present s.threads frame := present_of_getElem? hstack (by simp)
    rw [ContentsServer.start, hran.threads] at hother
    -- Whoever has found the ID holds a reference, and the slot stays as it is.
    have hkept : ∀ known, Present s.threads known → known.confirmed = true →
        known.slot = some (findSession id) → (s.sessionArray (findSession id)).sessionID = id →
        ((s.runFrame cfg now outcome frame).1.sessionArray (findSession id)).sessionID = id := by
      intro known hknown hconfirmed hslot hsame
      rw [hsound.sessionID_kept (hsound.live_of_confirmed hknown hconfirmed hslot) hstack, hsame]
    rcases Present.of_set_cons hstack hother with hnew | ⟨hold, _⟩
    · have hnext := runFrame_next hnew
      obtain ⟨_, hslot⟩ := checked_confirmed hid
      have hframe : frame.confirmed = true ∧ frame.slot = some (findSession id) := by
        cases hnext with
        | disconnectMark | sendPacketDFlag | tryMoveDFlag => exact ⟨rfl, hslot⟩
        | disconnectCancel | sendPacketEnqueue | sendPacketSize | sendPacketPost | tryMoveStore =>
            exact ⟨rfl, hslot⟩
        | _ => simp [Frame.checked] at hid
      refine hkept frame hpresent hframe.1 hframe.2 ?_
      rcases hnext.checked hid with hframe_checked | hfound
      · exact h frame id hpresent hframe_checked
      · exact hfound
    · obtain ⟨hconfirmed, hslot⟩ := checked_confirmed hid
      exact hkept other hold hconfirmed hslot (h other id hold hid)
  · intro t stack first u _ hstack _ hbegan other id hother hid
    rw [ContentsServer.start, hbegan.threads] at hother
    show (u.sessionArray (findSession id)).sessionID = id
    rw [hbegan.sessionID]
    rcases Present.of_set_append [first] hstack hother with hnew | hold
    · have hfirst := hbegan.begins
      rw [← List.mem_singleton.mp hnew] at hfirst
      unfold Frame.checked at hid
      split at hid <;> simp [Frame.begins] at hfirst hid
    · exact h other id hold hid

/-! ## The last decrement -/

/-- `Release` succeeds for a slot only when no thread is between its decrement of
`_ioCount` to 0 and the end of the two steps that follow it. -/
def NotOvertaken (s : ContentsServer) (step : Step) : Prop :=
  ∀ i ∈ (s.top step).bind Frame.releasing, s.isZero i = true →
    ¬ Present s.threads (.dead i false) ∧ ¬ Present s.threads (.postRelease i)

instance (s : ContentsServer) (step : Step) : Decidable (NotOvertaken s step) := by
  unfold NotOvertaken
  infer_instance

theorem final_cases (h : frame.final = some i) :
    frame = .dead i false ∨ frame = .postRelease i := by
  unfold Frame.final at h
  split at h
  · exact Or.inl (by rw [Option.some.inj h])
  · exact Or.inr (by rw [Option.some.inj h])
  · simp at h

/-- The slot whose last reference a thread has given up is live. -/
def Dying (s : ContentsServer) : Prop :=
  ∀ i frame, Present s.threads frame → frame.final = some i → (s.sessionArray i).live = 1

theorem dying_started (cfg : Config) (others : Nat) : Dying (startedServer cfg others) := by
  exact fun i frame hpresent => absurd hpresent (not_present_started cfg others frame)

theorem NotOvertaken.cas {now : UInt64} {outcome : Outcome} {last : Frame}
    (h : NotOvertaken s (.run t now outcome)) (hstack : s.threads[t]? = some (frame :: rest))
    (hlast : Present s.threads last) (hfinal : last.final = some i) :
    frame = .release i .cas → s.isZero i = false := by
  rintro rfl
  by_contra hzero
  obtain ⟨hdead, hpost⟩ :=
    h i (by simp [ContentsServer.top, hstack, Frame.releasing]) (by simpa using hzero)
  rcases final_cases hfinal with rfl | rfl
  · exact hdead hlast
  · exact hpost hlast

/-- A decrement to 0 finds the slot live, nothing outstanding and no other reference. -/
theorem Sound.last_reference (h : Sound cfg s) {direct : Bool}
    (hstack : s.threads[t]? = some (.drop i direct :: rest))
    (hzero : (s.decrement i).isZero i = true) :
    (s.sessionArray i).live = 1 ∧ (s.sessionArray i).io = [] ∧ s.tally holds i = 1 := by
  have hpresent : Present s.threads (.drop i direct) := present_of_getElem? hstack (by simp)
  have harmed := (h.placed _ hpresent).armed rfl i rfl
  have haccount := h.account i
  have hle := le_tally hpresent rfl holds
  simp only [ContentsServer.isZero, ContentsServer.decrement, ContentsServer.modify_self,
    Bool.and_eq_true, Bool.not_eq_true', beq_iff_eq] at hzero
  simp only [drop_holds] at hle
  refine ⟨Session.live_eq_one.mpr ⟨harmed, hzero.1⟩, ?_, by omega⟩
  rw [← List.length_eq_zero_iff]
  omega

/-- What follows a decrement to 0 comes from it. -/
theorem Next.final {next : Frame} (h : Next s frame next) (hfinal : next.final = some i) :
    (frame = .drop i false ∧ (s.decrement i).isZero i = true) ∨ frame.final = some i := by
  rcases final_cases hfinal with rfl | rfl
  · cases h with
    | dead _ _ hzero => exact Or.inl ⟨rfl, hzero⟩
  · cases h with
    | postRelease => exact Or.inr rfl

theorem begins_final {first : Frame} (h : first.begins = true) : first.final = none := by
  cases first <;> first
    | rfl
    | simp [Frame.begins] at h

theorem Dying.step {step : Step} (h : Dying s) (hsound : Sound cfg s) (hok : NotOvertaken s step)
    (hstep : Served cfg s step s') : Dying s' := by
  refine hstep.cases_run ?_ ?_
  · rintro t now outcome frame rest rfl hstack i other hother hfinal
    have hpresent : Present s.threads frame := present_of_getElem? hstack (by simp)
    have hran : Ran cfg s frame _ _ := runFrame_ran now outcome frame
    rw [ContentsServer.start, hran.threads] at hother
    have hkept : ∀ last, Present s.threads last → last.final = some i →
        ((s.runFrame cfg now outcome frame).1.sessionArray i).live = 1 :=
      fun last hlast hi => hran.live_kept (h i last hlast hi) (hok.cas hstack hlast hi)
    rcases Present.of_set_cons hstack hother with hnew | ⟨hold, _⟩
    · rcases (runFrame_next hnew).final hfinal with ⟨rfl, hzero⟩ | hframe
      · exact hran.live_kept (hsound.last_reference hstack hzero).1 (by simp)
      · exact hkept frame hpresent hframe
    · exact hkept other hold hfinal
  · intro t stack first u _ hstack _ hbegan i other hother hfinal
    rw [ContentsServer.start, hbegan.threads] at hother
    show (u.sessionArray i).live = 1
    rw [hbegan.live]
    rcases Present.of_set_append [first] hstack hother with hnew | hold
    · rw [List.mem_singleton.mp hnew, begins_final hbegan.begins] at hfinal
      simp at hfinal
    · exact h i other hold hfinal

/-- **A thread has given up the last reference to a session.**  At the decrement the session
had no I/O outstanding and nobody else held a reference; it is still the session of the
slot and has not been released. -/
def GaveUp (cfg : Config) (others : Nat) (steps : List Step) (s : ContentsServer) (t i : Nat) :
    Prop :=
  ∃ before now outcome between s₀ rest,
    steps = before ++ Step.run t now outcome :: between ∧
    exec (serverStep cfg) (startedServer cfg others) before = some s₀ ∧
    s₀.threads[t]? = some (.drop i false :: rest) ∧
    (s₀.decrement i).isZero i = true ∧ (s₀.sessionArray i).io = [] ∧ s₀.tally holds i = 1 ∧
    (s₀.sessionArray i).sessionID = (s.sessionArray i).sessionID ∧ (s.sessionArray i).live = 1

/-- It has, in the state after another step that leaves the session. -/
theorem GaveUp.next {others : Nat} {steps : List Step} (h : GaveUp cfg others steps s t i)
    (step : Step) (hid : (s'.sessionArray i).sessionID = (s.sessionArray i).sessionID)
    (hlive : (s'.sessionArray i).live = 1) : GaveUp cfg others (steps ++ [step]) s' t i := by
  obtain ⟨before, now, outcome, between, s₀, rest, rfl, hs₀, hstack, hzero, hio, htally, hsame, _⟩ := h
  exact ⟨before, now, outcome, between ++ [step], s₀, rest, by simp, hs₀, hstack, hzero, hio, htally,
    by rw [hsame, hid], hlive⟩

/-- Whoever is about to set `_dFlag` or to post the release has given up the last
reference. -/
def Ended (cfg : Config) (others : Nat) (steps : List Step) (s : ContentsServer) : Prop :=
  ∀ t stack frame i, s.threads[t]? = some stack → frame ∈ stack → frame.final = some i →
    GaveUp cfg others steps s t i

/-- A frame on a stack after a step of thread `t` was put there, or was there. -/
theorem mem_of_set {stack new : List Frame} {k : Nat}
    (h : (s.threads.set t new)[k]? = some stack) (hmem : frame ∈ stack) :
    (k = t ∧ frame ∈ new) ∨ ∃ stack, s.threads[k]? = some stack ∧ frame ∈ stack := by
  rcases getElem?_set_cases h with ⟨rfl, rfl⟩ | ⟨_, hold⟩
  · exact Or.inl ⟨rfl, hmem⟩
  · exact Or.inr ⟨stack, hold, hmem⟩

theorem Ended.step {others : Nat} {steps : List Step} {step : Step}
    (h : Ended cfg others steps s)
    (hs : exec (serverStep cfg) (startedServer cfg others) steps = some s)
    (hsound : Sound cfg s) (hdying : Dying s) (hdying' : Dying s')
    (hstep : Served cfg s step s') : Ended cfg others (steps ++ [step]) s' := by
  revert hdying'
  refine hstep.cases_run (P := fun s' => Dying s' → Ended cfg others (steps ++ [step]) s') ?_ ?_
  · rintro t now outcome frame rest rfl hstack hdying' k stack other i hk hmem hfinal
    have hran : Ran cfg s frame _ _ := runFrame_ran now outcome frame
    have hlive' := hdying' i other (present_of_getElem? hk hmem) hfinal
    have hkept : ∀ found last, s.threads[k]? = some found → last ∈ found → last.final = some i →
        GaveUp cfg others (steps ++ [.run t now outcome])
          ((s.runFrame cfg now outcome frame).1.start t
            ((s.runFrame cfg now outcome frame).2 ++ rest)) k i := by
      intro found last hfound hlast hi
      exact (h k found last i hfound hlast hi).next _
        (hsound.sessionID_kept (hdying i last (present_of_getElem? hfound hlast) hi) hstack now
          outcome) hlive'
    rw [ContentsServer.start, hran.threads] at hk
    rcases mem_of_set hk hmem with ⟨rfl, hnew⟩ | ⟨found, hfound, hother⟩
    · rcases List.mem_append.mp hnew with hnew | hrest
      · rcases (runFrame_next hnew).final hfinal with ⟨rfl, hzero⟩ | hframe
        · obtain ⟨hlive, hio, htally⟩ := hsound.last_reference hstack hzero
          exact ⟨steps, now, outcome, [], s, rest, rfl, hs, hstack, hzero, hio, htally,
            (hsound.sessionID_kept hlive hstack now outcome).symm, hlive'⟩
        · exact hkept _ frame hstack (by simp) hframe
      · exact hkept _ other hstack (by simp [hrest]) hfinal
    · exact hkept found other hfound hother hfinal
  · intro t stack first u _ hstack _ hbegan hdying' k found other i hk hmem hfinal
    have hlive' := hdying' i other (present_of_getElem? hk hmem) hfinal
    rw [ContentsServer.start, hbegan.threads] at hk
    have hsome : ∃ stack, s.threads[k]? = some stack ∧ other ∈ stack := by
      rcases mem_of_set hk hmem with ⟨rfl, hnew⟩ | hbefore
      · rcases List.mem_cons.mp hnew with rfl | hrest
        · rw [begins_final hbegan.begins] at hfinal
          simp at hfinal
        · exact ⟨stack, hstack, hrest⟩
      · exact hbefore
    obtain ⟨old, hold, hother⟩ := hsome
    exact (h k old other i hold hother hfinal).next _ (hbegan.sessionID i) hlive'

/-! ## Stale calls -/

/-- What a call can do to a session: the fields are the same. -/
structure SameService (x y : Session) : Prop where
  contentsNum : y.contentsNum = x.contentsNum
  sendQ : y.sendQ = x.sendQ
  size : y.size = x.size
  io : y.io = x.io
  dFlag : y.dFlag = x.dFlag

theorem SameService.refl (x : Session) : SameService x x := ⟨rfl, rfl, rfl, rfl, rfl⟩

/-- No session is changed, and nothing is posted. -/
structure Unaffected (s s' : ContentsServer) : Prop where
  session : ∀ i, SameService (s.sessionArray i) (s'.sessionArray i)
  queue : s'.queue = s.queue

/-- The session with the ID is the one of its slot, and `Release` has not succeeded for it. -/
structure Current (s : ContentsServer) (id : SessionID) : Prop where
  sessionID : (s.sessionArray (findSession id)).sessionID = id
  releaseFlag : (s.sessionArray (findSession id)).releaseFlag = false
  history : Event.release ∉ s.history id

/-- **What the calls do in a state.** -/
structure Harmless (cfg : Config) (others : Nat) (steps : List Step) (s : ContentsServer) :
    Prop where
  /-- A call with an ID does something only to the session with this ID, before its
  release. -/
  own : ∀ (t : Nat) (frame : Frame) (rest : List Frame) (id : SessionID) (now : UInt64)
    (outcome : Outcome), s.threads[t]? = some (frame :: rest) → frame.caller = some id →
    Unaffected s (s.runFrame cfg now outcome frame).1 ∨
      (Current s id ∧ ∀ i, i ≠ findSession id →
        SameService (s.sessionArray i) ((s.runFrame cfg now outcome frame).1.sessionArray i))
  /-- Its decrement does nothing to a session. -/
  drop : ∀ (i : Nat) (direct : Bool) (now : UInt64) (outcome : Outcome),
    Unaffected s (s.runFrame cfg now outcome (.drop i direct)).1
  /-- What follows the decrement sets the `_dFlag` of a session, and posts its release,
  after the last reference to it is given up. -/
  ended : ∀ (t : Nat) (frame : Frame) (rest : List Frame) (i : Nat) (now : UInt64)
    (outcome : Outcome), s.threads[t]? = some (frame :: rest) → frame.final = some i →
    GaveUp cfg others steps s t i ∧
      ∀ j, SameService
        ((s.setDFlag i
          ((s.runFrame cfg now outcome frame).1.sessionArray i).dFlag).sessionArray j)
        ((s.runFrame cfg now outcome frame).1.sessionArray j)

/-- Before it has found the ID, a call writes `_ioCount` only. -/
theorem Wrote.unchecked {write : Session → Session} {id : SessionID} (h : Wrote frame write)
    (hcaller : frame.caller = some id) (hchecked : frame.checked = none) (x : Session) :
    SameService x (write x) := by
  cases h with
  | nothing | increment => exact ⟨rfl, rfl, rfl, rfl, rfl⟩
  | cancel _ hcancels =>
      cases frame with
      | disconnect id pc => cases pc <;> simp_all [Frame.cancels, Frame.checked]
      | sendPacket id pc => simp [Frame.cancels] at hcancels
      | tryMove id contentsNum pc => simp [Frame.cancels] at hcancels
      | _ => simp [Frame.caller] at hcaller
  | mark | enqueue | counted | store => simp [Frame.checked] at hchecked
  | _ => simp [Frame.caller] at hcaller

theorem unchecked_queue {id : SessionID} (hcaller : frame.caller = some id)
    (hchecked : frame.checked = none) (now : UInt64) (outcome : Outcome) :
    (s.runFrame cfg now outcome frame).1.queue = s.queue := by
  rcases runFrame_queue cfg s now outcome frame with hsame | ⟨i, rfl, _⟩ | ⟨_, rfl, _⟩
  · exact hsame
  · simp [Frame.caller] at hcaller
  · simp [Frame.checked] at hchecked

/-- A call that has found the ID acts on the session of that ID. -/
theorem Checked.current (h : Checked s) (hsound : Sound cfg s) (hlives : Lives s) {id : SessionID}
    (hpresent : Present s.threads frame) (hchecked : frame.checked = some id) : Current s id := by
  obtain ⟨hconfirmed, hslot⟩ := checked_confirmed hchecked
  have hid := h frame id hpresent hchecked
  have hlive := hsound.live_of_confirmed hpresent hconfirmed hslot
  refine ⟨hid, (Session.live_eq_one.mp hlive).2, fun hmem => ?_⟩
  have hone := (hlives.living hsound hlive).2.2
  rw [hid] at hone
  have heq := hlives.history_eq id
  have hlength : (s.history id).length = 0 ∨ (s.history id).length = 1 := by omega
  rw [heq] at hmem
  rcases hlength with hlength | hlength <;> simp [hlength, lifeCycle] at hmem

theorem Checked.own (h : Checked s) (hsound : Sound cfg s) (hlives : Lives s) {id : SessionID}
    (hpresent : Present s.threads frame) (hcaller : frame.caller = some id) (now : UInt64)
    (outcome : Outcome) :
    Unaffected s (s.runFrame cfg now outcome frame).1 ∨
      (Current s id ∧ ∀ i, i ≠ findSession id →
        SameService (s.sessionArray i) ((s.runFrame cfg now outcome frame).1.sessionArray i)) := by
  obtain ⟨write, hupdated⟩ := runFrame_updated cfg s now outcome frame
  cases hchecked : frame.checked with
  | none =>
      refine Or.inl ⟨fun i => ?_, unchecked_queue hcaller hchecked now outcome⟩
      exact hupdated.rel SameService .refl (hupdated.wrote.unchecked hcaller hchecked) i
  | some found =>
      have hfound : found = id := by
        unfold Frame.checked at hchecked
        unfold Frame.caller at hcaller
        split at hchecked <;> simp_all
      subst hfound
      refine Or.inr ⟨h.current hsound hlives hpresent hchecked, fun i hi => ?_⟩
      rw [hupdated.there i (by rw [(checked_confirmed hchecked).2]; simpa using fun heq => hi heq.symm)]
      exact .refl _

theorem drop_unaffected (i : Nat) (direct : Bool) (now : UInt64) (outcome : Outcome) :
    Unaffected s (s.runFrame cfg now outcome (.drop i direct)).1 where
  session := by
    intro j
    have hwrite : ∀ x : Session, SameService x { x with ioCount := x.ioCount - 1 } :=
      fun _ => ⟨rfl, rfl, rfl, rfl, rfl⟩
    exact (Updated.modify (.decrement i direct) rfl).rel SameService .refl hwrite j
  queue := rfl

theorem final_service (hfinal : frame.final = some i) (now : UInt64) (outcome : Outcome) (j : Nat) :
    SameService
      ((s.setDFlag i ((s.runFrame cfg now outcome frame).1.sessionArray i).dFlag).sessionArray j)
      ((s.runFrame cfg now outcome frame).1.sessionArray j) := by
  rcases final_cases hfinal with rfl | rfl
  · have hdFlag : ((s.runFrame cfg now outcome (.dead i false)).1.sessionArray i).dFlag = true := by
      simp [ContentsServer.runFrame, ContentsServer.deadStep, ContentsServer.setDFlag]
    rw [hdFlag]
    exact .refl _
  · by_cases hj : j = i
    · subst hj
      rw [ContentsServer.setDFlag, ContentsServer.modify_self]
      exact .refl _
    · rw [ContentsServer.setDFlag, s.modify_of_ne hj]
      exact .refl _

/-- A step meets both conditions. -/
def Orderly (cfg : Config) (s : ContentsServer) (step : Step) : Prop :=
  SweepsAccepted cfg s step ∧ NotOvertaken s step

instance (cfg : Config) (s : ContentsServer) (step : Step) : Decidable (Orderly cfg s step) := by
  unfold Orderly
  infer_instance

/-- **Calls with the ID of an old session are harmless**, where sweeps disconnect accepted
slots only and no thread is overtaken by a release after its last decrement. -/
theorem stale_ids_harmless (cfg : Config) (others : Nat) (steps : List Step) (s : ContentsServer)
    (hok : Along (serverStep cfg) (Orderly cfg) (startedServer cfg others) steps)
    (h : exec (serverStep cfg) (startedServer cfg others) steps = some s) :
    Harmless cfg others steps s := by
  have hinv : Sound cfg s ∧ Lives s ∧ Checked s ∧ Dying s ∧ Ended cfg others steps s := by
    refine exec_history (I := fun steps s =>
      Sound cfg s ∧ Lives s ∧ Checked s ∧ Dying s ∧ Ended cfg others steps s) ?_ ?_ hok h
    · refine ⟨sound_started cfg others, lives_started cfg others, checked_started cfg others,
        dying_started cfg others, ?_⟩
      intro t stack frame i hstack hframe
      exact absurd (present_of_getElem? hstack hframe) (not_present_started cfg others frame)
    · rintro steps s step s' _ hs ⟨hsound, hlives, hchecked, hdying, hended⟩ ⟨hsweep, hnot⟩ hstep
      have hserved := serverStep_served hstep
      have hdying' := hdying.step hsound hnot hserved
      exact ⟨hsound.step hsweep hserved, hlives.step hsound hserved, hchecked.step hsound hserved,
        hdying', hended.step hs hsound hdying hdying' hserved⟩
  obtain ⟨hsound, hlives, hchecked, _, hended⟩ := hinv
  refine ⟨?_, fun i direct now outcome => drop_unaffected i direct now outcome, ?_⟩
  · intro t frame rest id now outcome hstack hcaller
    exact hchecked.own hsound hlives (present_of_getElem? hstack (by simp)) hcaller now outcome
  · intro t frame rest i now outcome hstack hfinal
    exact ⟨hended t _ frame i hstack (by simp) hfinal, final_service hfinal now outcome⟩

/-- A call with the ID of the first client finds the second one, which has just lost its
last reference, and gives the reference it took back. -/
def staleCall : List Step :=
  accepts ++ releases 9 ++ accepts ++ .call 3 (.disconnect ⟨0, 1⟩) :: runs 3 2 ++
    .complete 2 0 0 false :: runs 2 1 ++ runs 3 1

theorem staleCall_harmless :
    ∃ s, exec (serverStep oneSlot) (startedServer oneSlot 2) staleCall = some s ∧
      s.threads[3]? = some [.dead 0 false] ∧ GaveUp oneSlot 2 staleCall s 3 0 := by
  have hrun : Along (serverStep oneSlot) (Orderly oneSlot) (startedServer oneSlot 2) staleCall ∧
      (exec (serverStep oneSlot) (startedServer oneSlot 2) staleCall).map
        (fun s => s.threads[3]?) = some (some [.dead 0 false]) := by
    decide +kernel
  obtain ⟨s, hs, hstack⟩ := Option.map_eq_some_iff.mp hrun.2
  have hharmless := stale_ids_harmless oneSlot 2 staleCall s hrun.1 hs
  exact ⟨s, hs, hstack, (hharmless.ended 3 _ _ 0 0 .done hstack rfl).1⟩

/-- The call stops after its decrement; the second client is released, and the third one
is accepted in the slot. -/
def overtakenCall : List Step :=
  accepts ++ releases 9 ++ accepts ++ .complete 2 0 0 false :: runs 2 3 ++
    .call 3 (.disconnect ⟨0, 1⟩) :: runs 3 3 ++ .take 2 0 :: runs 2 9 ++ accepts

/-- The third client, whose receive is outstanding, gets its `_dFlag` set. -/
theorem overtakenCall_marks :
    ∃ s, exec (serverStep oneSlot) (startedServer oneSlot 2) overtakenCall = some s ∧
      ¬ Harmless oneSlot 2 overtakenCall s ∧
      s.threads[3]? = some [.dead 0 false] ∧ (s.sessionArray 0).sessionID = ⟨0, 3⟩ ∧
      (s.sessionArray 0).io = [⟨false, [], true, false⟩] ∧
      ((s.runFrame oneSlot 0 .done (.dead 0 false)).1.sessionArray 0).dFlag = true := by
  have hrun : (exec (serverStep oneSlot) (startedServer oneSlot 2) overtakenCall).map
        (fun s => (s.threads[3]?, (s.sessionArray 0).sessionID, (s.sessionArray 0).io)) =
          some (some [.dead 0 false], ⟨0, 3⟩, [⟨false, [], true, false⟩]) ∧
      ∀ n < overtakenCall.length,
        ∀ s₀ ∈ exec (serverStep oneSlot) (startedServer oneSlot 2) (overtakenCall.take n),
          (s₀.threads[3]?.bind List.head?) = some (.drop 0 false) →
            (s₀.sessionArray 0).sessionID ≠ ⟨0, 3⟩ := by
    decide +kernel
  obtain ⟨s, hs, heq⟩ := Option.map_eq_some_iff.mp hrun.1
  simp only [Prod.mk.injEq] at heq
  obtain ⟨hstack, hid, hio⟩ := heq
  refine ⟨s, hs, fun hharmless => ?_, hstack, hid, hio, ?_⟩
  · obtain ⟨before, now, outcome, between, s₀, rest, hsplit, hs₀, hdrop, _, _, _, hsame, _⟩ :=
      (hharmless.ended 3 _ _ 0 0 .done hstack rfl).1
    -- While the third client has the slot, the thread has not run.
    have hbefore : overtakenCall.take before.length = before := by rw [hsplit]; simp
    refine hrun.2 before.length ?_ s₀ (by rw [hbefore]; exact hs₀) (by simp [hdrop])
      (by rw [hsame, hid])
    rw [hsplit]
    simp
  · simp [ContentsServer.runFrame, ContentsServer.deadStep, ContentsServer.setDFlag]

end SessionServer.ContentLib
