/-
  ContentLib/Slots.lean --- who owns a slot, and what its `_ioCount` counts.

  A slot is free (its index is on `_indexArray`), owned by one frame (the body of
  `Release`, or `AcceptThread` before it clears `RELEASEFLAG`), or live, and never two of
  these.  `_ioCount` counts the I/O outstanding on the slot and the references of the
  frames.  `Sound` states this, and every step keeps it as long as a sweep calls
  `Disconnect` only for slots that have been accepted.
-/
import SessionServer.ContentLib.Step

set_option autoImplicit false

namespace SessionServer.ContentLib

open SessionServer.Foundation ContentLib.Frame

/-! ## Steps -/

/-- **Everything a step of the server can do**, with what enables it. -/
inductive Served (cfg : Config) (s : ContentsServer) : Step → ContentsServer → Prop where
  | run (t : Nat) (now : UInt64) (outcome : Outcome) (frame : Frame) (rest : List Frame)
      (hstack : s.threads[t]? = some (frame :: rest)) :
      Served cfg s (.run t now outcome)
        ((s.runFrame cfg now outcome frame).1.start t
          ((s.runFrame cfg now outcome frame).2 ++ rest))
  | accept (hstack : s.threads[0]? = some []) : Served cfg s .accept (s.start 0 [.pop])
  | take (t n : Nat) (message : Message) (hstack : s.threads[t]? = some [])
      (hmessage : s.queue[n]? = some message) :
      Served cfg s (.take t n)
        ({ s with queue := s.queue.eraseIdx n }.start t [message.frame])
  | complete (t i n : Nat) (io : Io) (success : Bool) (hstack : s.threads[t]? = some [])
      (hio : (s.sessionArray i).io[n]? = some io) :
      Served cfg s (.complete t i n success)
        ((s.modify i fun x => { x with io := x.io.eraseIdx n }).start t
          [completionFrame i io success])
  | call (t : Nat) (call : Call) (stack : List Frame) (hissued : call.id ∈ s.issued)
      (hstack : s.threads[t]? = some stack) (htop : ∀ frame ∈ stack.head?, frame.isCallback = true) :
      Served cfg s (.call t call) (s.start t (call.frame :: stack))
  | kick (t i : Nat) (rest : List Frame)
      (hstack : s.threads[t]? = some (.recv i .user :: rest)) :
      Served cfg s (.kick t)
        (s.start t (.disconnect (s.sessionArray i).sessionID .inc :: .recv i .user :: rest))
  | sweep (regular : Bool) (now : UInt64) (hstack : s.threads[1]? = some []) :
      Served cfg s (.sweep regular now) (s.start 1 [.sweep regular now 0 .sessionID])

/-- The frame a step runs. -/
def ContentsServer.top (s : ContentsServer) : Step → Option Frame
  | .run t _ _ => s.threads[t]?.bind List.head?
  | _ => none

theorem serverStep_served {cfg : Config} {s s' : ContentsServer} {step : Step}
    (h : serverStep cfg s step = some s') : Served cfg s step s' := by
  cases step with
  | run t now outcome =>
      simp only [serverStep] at h
      split at h
      · rename_i frame rest hstack
        cases h
        exact .run t now outcome frame rest hstack
      · simp at h
  | accept =>
      simp only [serverStep] at h
      split at h
      · rename_i hstack
        cases h
        exact .accept hstack
      · simp at h
  | take t n =>
      simp only [serverStep] at h
      split at h
      · rename_i message hstack hmessage
        split at h
        · cases h
          exact .take t n message hstack hmessage
        · simp at h
      · simp at h
  | complete t i n success =>
      simp only [serverStep] at h
      split at h
      · rename_i io hstack hio
        split at h
        · cases h
          exact .complete t i n io success hstack hio
        · simp at h
      · simp at h
  | call t call =>
      simp only [serverStep] at h
      split at h
      · rename_i hissued
        split at h
        · rename_i hstack
          split at h
          · cases h
            exact .call t call [] hissued hstack (by simp)
          · simp at h
        · rename_i frame rest hstack
          split at h
          · rename_i hcallback
            cases h
            exact .call t call (frame :: rest) hissued hstack (by simpa using hcallback)
          · simp at h
        · simp at h
      · simp at h
  | kick t =>
      simp only [serverStep] at h
      split at h
      · rename_i i rest hstack
        cases h
        exact .kick t i rest hstack
      · simp at h
  | sweep regular now =>
      simp only [serverStep] at h
      split at h
      · rename_i hstack
        cases h
        exact .sweep regular now hstack
      · simp at h

/-- A completion starts the handling of a receive or of a send, or drops a reference. -/
@[elab_as_elim]
theorem completionFrame_cases {P : Frame → Prop} (i : Nat) (io : Io) (success : Bool)
    (hrecv : P (.recv i .firstRecv)) (hsent : P (.sent i (.drop 0))) (hdrop : P (.drop i false)) :
    P (completionFrame i io success) := by
  unfold completionFrame
  split
  · split
    · exact hsent
    · exact hrecv
  · exact hdrop

/-- Taking a completion writes to no session but its I/O. -/
theorem eraseIo_session (s : ContentsServer) (i j n : Nat) :
    ∃ io, io.Sublist (s.sessionArray i).io ∧
      (s.modify j fun x => { x with io := x.io.eraseIdx n }).sessionArray i =
        { s.sessionArray i with io := io } := by
  by_cases hij : i = j
  · subst hij
    exact ⟨_, List.eraseIdx_sublist _ n, by simp [ContentsServer.modify]⟩
  · exact ⟨_, List.Sublist.refl _, by simp [ContentsServer.modify, hij]⟩

/-- The first program point of a function a thread can start with. -/
def Frame.begins : Frame → Bool
  | disconnect _ .inc => true
  | sendPacket _ .inc => true
  | tryMove _ _ .inc => true
  | drop _ _ => true
  | recv _ .firstRecv => true
  | sent _ (.drop 0) => true
  | sendPost _ .dFlag => true
  | release _ .cas => true
  | pop => true
  | sweep _ _ _ .sessionID => true
  | _ => false

/-- A function starts on a stack; at most an I/O or a message is taken. -/
structure Began (s s' : ContentsServer) (first : Frame) : Prop where
  begins : first.begins = true
  named : ∀ id, first = .sendPacket id .inc → id ∈ s.issued
  threads : s'.threads = s.threads
  history : s'.history = s.history
  issued : s'.issued = s.issued
  indexArray : s'.indexArray = s.indexArray
  session : ∀ i, ∃ io, io.Sublist (s.sessionArray i).io ∧
    s'.sessionArray i = { s.sessionArray i with io := io }

/-- A step of the server runs a frame or starts a function, the latter on an empty stack or
from a callback. -/
theorem Served.cases_run {cfg : Config} {s s' : ContentsServer} {step : Step}
    (h : Served cfg s step s') {P : ContentsServer → Prop}
    (hrun : ∀ t now outcome frame rest, step = .run t now outcome →
      s.threads[t]? = some (frame :: rest) →
      P ((s.runFrame cfg now outcome frame).1.start t
        ((s.runFrame cfg now outcome frame).2 ++ rest)))
    (hstart : ∀ t stack first u, (∀ t now outcome, step ≠ .run t now outcome) →
      s.threads[t]? = some stack → (∀ frame ∈ stack.head?, frame.isCallback = true) →
      Began s u first → P (u.start t (first :: stack))) : P s' := by
  have hsame : ∀ first, first.begins = true → (∀ id, first = .sendPacket id .inc → id ∈ s.issued) →
      Began s s first := fun first hfirst hnamed =>
    ⟨hfirst, hnamed, rfl, rfl, rfl, rfl, fun i => ⟨_, List.Sublist.refl _, rfl⟩⟩
  cases h with
  | run t now outcome frame rest hstack => exact hrun t now outcome frame rest rfl hstack
  | accept hstack =>
      exact hstart 0 [] .pop s (by simp) hstack (by simp) (hsame _ rfl (by simp))
  | take t n message hstack hmessage =>
      have hframe : message.frame.begins = true ∧ ∀ id, message.frame ≠ .sendPacket id .inc := by
        cases message <;> exact ⟨rfl, by simp [Message.frame]⟩
      exact hstart t [] message.frame { s with queue := s.queue.eraseIdx n } (by simp) hstack
        (by simp) ⟨hframe.1, fun id hid => absurd hid (hframe.2 id), rfl, rfl, rfl, rfl,
          fun i => ⟨_, List.Sublist.refl _, rfl⟩⟩
  | complete t i n io success hstack hio =>
      have hframe : (completionFrame i io success).begins = true ∧
          ∀ id, completionFrame i io success ≠ .sendPacket id .inc := by
        refine completionFrame_cases i io success ?_ ?_ ?_ <;> exact ⟨rfl, by simp⟩
      exact hstart t [] (completionFrame i io success)
        (s.modify i fun x => { x with io := x.io.eraseIdx n }) (by simp) hstack (by simp)
        ⟨hframe.1, fun id hid => absurd hid (hframe.2 id), rfl, rfl, rfl, rfl,
          fun j => eraseIo_session s j i n⟩
  | call t call stack hissued hstack htop =>
      refine hstart t stack call.frame s (by simp) hstack htop (hsame _ ?_ ?_)
      · cases call <;> rfl
      · intro id hid
        cases call with
        | sendPacket id' =>
            simp only [Call.frame, Frame.sendPacket.injEq, and_true] at hid
            exact hid ▸ hissued
        | _ => simp [Call.frame] at hid
  | kick t i rest hstack =>
      exact hstart t _ _ s (by simp) hstack (by simp [Frame.isCallback]) (hsame _ rfl (by simp))
  | sweep regular now hstack =>
      exact hstart 1 [] _ s (by simp) hstack (by simp) (hsame _ rfl (by simp))

/-! ## Weights -/

namespace ContentsServer

/-- The sum of a weight over the frames at one slot. -/
def tally (s : ContentsServer) (w : Frame → Nat) (i : Nat) : Nat :=
  total (weightAt w i) s.threads

@[simp] theorem modify_self (s : ContentsServer) (i : Nat) (write : Session → Session) :
    (s.modify i write).sessionArray i = write (s.sessionArray i) := by
  simp [modify]

theorem modify_of_ne (s : ContentsServer) {i j : Nat} (h : j ≠ i) (write : Session → Session) :
    (s.modify i write).sessionArray j = s.sessionArray j := by
  simp [modify, h]

/-- A field that a write leaves alone. -/
theorem modify_field {β : Type} (field : Session → β) (s : ContentsServer) (i : Nat)
    {write : Session → Session} (h : ∀ x, field (write x) = field x) (j : Nat) :
    field ((s.modify i write).sessionArray j) = field (s.sessionArray j) := by
  by_cases hij : j = i
  · subst hij
    rw [modify_self, h]
  · rw [s.modify_of_ne hij]

@[simp] theorem start_sessionArray (s : ContentsServer) (t : Nat) (stack : List Frame) :
    (s.start t stack).sessionArray = s.sessionArray := rfl

@[simp] theorem record_sessionArray (s : ContentsServer) (id : SessionID) (event : Event) :
    (s.record id event).sessionArray = s.sessionArray := rfl

end ContentsServer

/-- Frames of one slot weigh in at that slot only. -/
theorem sum_weightAt {slot : Option Nat} {frames : List Frame} {w : Frame → Nat} {i : Nat}
    (h : ∀ frame ∈ frames, frame.slot = slot) :
    (frames.map (weightAt w i)).sum = if slot = some i then (frames.map w).sum else 0 := by
  induction frames with
  | nil => simp
  | cons frame frames ih =>
      have hframe := h frame (by simp)
      have hrest := ih fun other hother => h other (List.mem_cons_of_mem _ hother)
      simp only [List.map_cons, List.sum_cons, hrest, weightAt, hframe]
      split <;> rfl

variable {cfg : Config} {s s' : ContentsServer} {frame : Frame} {frames : List Frame}

theorem Ran.threads (h : Ran cfg s frame s' frames) : s'.threads = s.threads := by
  cases h <;> first | rfl | exact (by assumption : SameCore _ _).threads

/-- The tally of a weight after a step of a frame. -/
theorem tally_run {t : Nat} {rest : List Frame} (frames : List Frame)
    (hstack : s.threads[t]? = some (frame :: rest))
    (hthreads : s'.threads = s.threads) (w : Frame → Nat) (i : Nat) :
    (s'.start t (frames ++ rest)).tally w i + weightAt w i frame =
      s.tally w i + (frames.map (weightAt w i)).sum := by
  simp only [ContentsServer.tally, ContentsServer.start, hthreads]
  exact total_set_cons frames hstack

/-- The tally of a weight after frames are put on a stack. -/
theorem tally_start (s' : ContentsServer) {t : Nat} {stack : List Frame} (frames : List Frame)
    (hstack : s.threads[t]? = some stack) (hthreads : s'.threads = s.threads)
    (w : Frame → Nat) (i : Nat) : (s'.start t (frames ++ stack)).tally w i =
      s.tally w i + (frames.map (weightAt w i)).sum := by
  simp only [ContentsServer.tally, ContentsServer.start, hthreads]
  exact total_set_append frames hstack

/-- A frame that weighs nothing is put on a stack. -/
theorem tally_start_zero {t : Nat} {stack : List Frame} (hstack : s.threads[t]? = some stack)
    (hthreads : s'.threads = s.threads) {w : Frame → Nat} (hw : w frame = 0) (i : Nat) :
    (s'.start t (frame :: stack)).tally w i = s.tally w i := by
  have htally := tally_start s' [frame] hstack hthreads w i
  simpa [weightAt, hw] using htally

/-- The tally after a step of a frame at one slot. -/
theorem tally_run_slot {t j : Nat} {rest : List Frame}
    (hstack : s.threads[t]? = some (frame :: rest)) (hthreads : s'.threads = s.threads)
    (hslot : frame.slot = some j) (hframes : ∀ next ∈ frames, next.slot = some j)
    (w : Frame → Nat) (i : Nat) :
    (s'.start t (frames ++ rest)).tally w i + (if j = i then w frame else 0) =
      s.tally w i + if j = i then (frames.map w).sum else 0 := by
  have := tally_run frames hstack hthreads w i
  rw [sum_weightAt hframes] at this
  simpa only [weightAt, hslot, Option.some.injEq] using this

theorem sum_map_zero {w : Frame → Nat} (h : ∀ next ∈ frames, w next = 0) :
    (frames.map w).sum = 0 := by
  rw [List.sum_eq_zero_iff]
  intro n hn
  obtain ⟨next, hmem, rfl⟩ := List.mem_map.mp hn
  exact h next hmem

theorem sum_weightAt_zero {w : Frame → Nat} (h : ∀ next ∈ frames, w next = 0) (i : Nat) :
    (frames.map (weightAt w i)).sum = 0 :=
  sum_map_zero fun next hn => by rw [weightAt, h next hn, ite_self]

/-- A frame that weighs nothing leaves frames that weigh nothing. -/
theorem tally_run_zero {t : Nat} {rest : List Frame}
    (hstack : s.threads[t]? = some (frame :: rest)) (hthreads : s'.threads = s.threads)
    {w : Frame → Nat} (hw : w frame = 0) (hframes : ∀ next ∈ frames, w next = 0) (i : Nat) :
    (s'.start t (frames ++ rest)).tally w i = s.tally w i := by
  have htally := tally_run frames hstack hthreads w i
  rw [sum_weightAt_zero hframes] at htally
  simpa [weightAt, hw] using htally

/-- The frames of a step stay at its slot. -/
theorem runFrame_slot {j : Nat} {now : UInt64} {outcome : Outcome} (hslot : frame.slot = some j) :
    ∀ next ∈ (s.runFrame cfg now outcome frame).2, next.slot = some j := by
  intro next hn
  exact ((runFrame_next hn).slot_eq (by simp [hslot])).trans hslot

/-- A frame at another slot leaves a weight alone that `pop` and the sweeps do not begin with. -/
theorem tally_elsewhere {t i : Nat} {rest : List Frame} {w : Frame → Nat}
    (hstack : s.threads[t]? = some (frame :: rest)) (hslot : frame.slot ≠ some i)
    (hbegins : frame.slot = none → ∀ next, Next s frame next → w next = 0) (now : UInt64)
    (outcome : Outcome) :
    ((s.runFrame cfg now outcome frame).1.start t
      ((s.runFrame cfg now outcome frame).2 ++ rest)).tally w i = s.tally w i := by
  have hran : Ran cfg s frame _ _ := runFrame_ran now outcome frame
  have htally := tally_run (s.runFrame cfg now outcome frame).2 hstack hran.threads w i
  have hframe : weightAt w i frame = 0 := by rw [weightAt, if_neg hslot]
  have hnext : ((s.runFrame cfg now outcome frame).2.map (weightAt w i)).sum = 0 := by
    refine sum_map_zero fun next hn => ?_
    cases hat : frame.slot with
    | none => rw [weightAt, hbegins hat next (runFrame_next hn), ite_self]
    | some j => rw [weightAt, runFrame_slot hat next hn, ← hat, if_neg hslot]
  omega

theorem weightAt_le_mul {v w : Frame → Nat} {c : Nat} (h : ∀ frame, w frame ≤ c * v frame)
    (i : Nat) (frame : Frame) : weightAt w i frame ≤ c * weightAt v i frame := by
  unfold weightAt
  split
  · exact h frame
  · exact Nat.zero_le _

/-- A weight bounded by a multiple of another one is so at every slot. -/
theorem tally_le_mul {v w : Frame → Nat} {c : Nat} (h : ∀ frame, w frame ≤ c * v frame)
    (i : Nat) : s.tally w i ≤ c * s.tally v i :=
  total_le_mul (weightAt_le_mul h i)

/-- Where the top frame carries all of one weight at its slot, it carries all of a weight
bounded by it. -/
theorem tally_of_owner {v w : Frame → Nat} {c : Nat} (h : ∀ frame, w frame ≤ c * v frame)
    {t i : Nat} {rest : List Frame} (hstack : s.threads[t]? = some (frame :: rest))
    (hslot : frame.slot = some i) (hall : s.tally v i = v frame) : s.tally w i = w frame := by
  have hweight : ∀ u : Frame → Nat, weightAt u i frame = u frame := fun u => by
    rw [weightAt, if_pos hslot]
  have := total_eq_of_owner (weightAt_le_mul h i) hstack (by rw [hweight]; exact hall)
  rwa [hweight] at this

/-- A frame weighs in at its slot. -/
theorem le_tally (hpresent : Present s.threads frame) {i : Nat} (hslot : frame.slot = some i)
    (w : Frame → Nat) : w frame ≤ s.tally w i := by
  have := hpresent.le_total (w := weightAt w i)
  rwa [weightAt, if_pos hslot] at this

/-! ## The references -/

/-- The change of `_ioCount` is the change of what it counts. -/
theorem Ran.account (h : Ran cfg s frame s' frames) (i : Nat)
    (hle : weightAt holds i frame ≤ (s.sessionArray i).ioCount) :
    (s'.sessionArray i).ioCount + (s.sessionArray i).io.length + weightAt holds i frame =
      (s.sessionArray i).ioCount + (s'.sessionArray i).io.length +
        (frames.map (weightAt holds i)).sum := by
  cases h with
  | quiet frame s' frames hsame hfollows hrest hholds =>
      rw [hsame.ioCount, hsame.io, sum_weightAt fun next hnext => (hfollows next hnext).1.slot,
        hholds]
      rfl
  | increment frame j frames hslot hfollows hrest hholds =>
      rw [sum_weightAt fun next hnext => (hfollows next hnext).1.slot, hholds]
      by_cases hij : i = j
      · subst hij
        simp only [ContentsServer.increment, ContentsServer.modify_self, weightAt, hslot, if_true]
        omega
      · have hji : ¬ j = i := fun h => hij h.symm
        simp [ContentsServer.increment, s.modify_of_ne hij, weightAt, hslot, hji]
  | decrement j direct frames hframes =>
      have hzero : (frames.map (weightAt holds i)).sum = 0 := by
        rcases hframes with rfl | rfl
        · rfl
        · simp [weightAt, holds]
      rw [hzero]
      by_cases hij : i = j
      · subst hij
        simp only [weightAt, slot, if_true, drop_holds] at hle ⊢
        simp only [ContentsServer.decrement, ContentsServer.modify_self]
        omega
      · have hji : ¬ j = i := fun h => hij h.symm
        simp [ContentsServer.decrement, s.modify_of_ne hij, weightAt, slot, hji]
  | post frame j message frames hslot hmessage harmed hfollows hrest hholds =>
      rw [sum_weightAt fun next hnext => (hfollows next hnext).1.slot, hholds]
      rfl
  | postIo frame j send buffers pending frames hslot hconfirmed hfollows hrest hholds =>
      rw [sum_weightAt fun next hnext => (hfollows next hnext).1.slot]
      by_cases hij : i = j
      · subst hij
        simp only [ContentsServer.postIo, ContentsServer.modify_self, weightAt, hslot, if_true,
          List.length_cons]
        omega
      · have hji : ¬ j = i := fun h => hij h.symm
        simp [ContentsServer.postIo, s.modify_of_ne hij, weightAt, hslot, hji]
  | cas j hzero =>
      by_cases hij : i = j
      · subst hij
        simp [weightAt, holds]
      · simp [s.modify_of_ne hij, weightAt, holds]
  | uncount j => simp [weightAt, holds]
  | onRelease j => simp [weightAt, holds]
  | push j => simp [weightAt, holds]
  | pop j rest hindex => simp [weightAt, holds]
  | count j => simp [weightAt, holds]
  | identify j =>
      by_cases hij : i = j
      · subst hij
        simp [weightAt, holds]
      · simp [s.modify_of_ne hij, weightAt, holds]
  | arm j =>
      by_cases hij : i = j
      · subst hij
        simp [weightAt, holds, slot]
      · simp [s.modify_of_ne hij, weightAt, holds, slot]
  | nextKey j => simp [weightAt, holds, slot]
  | onAccept j => simp [weightAt, holds, slot]
  | timeOut regular now j session hexpired => simp [weightAt, holds]

/-! ## The owners -/

/-- The slot is live: accepted and not taken by `Release`. -/
def Session.live (x : Session) : Nat := if x.armed && !x.releaseFlag then 1 else 0

theorem Session.live_le_one (x : Session) : x.live ≤ 1 := by
  unfold Session.live
  split <;> omega

theorem Session.live_eq_one {x : Session} :
    x.live = 1 ↔ x.armed = true ∧ x.releaseFlag = false := by
  simp [Session.live]

/-- What a frame relies on about its slot. -/
structure Placed (s : ContentsServer) (frame : Frame) : Prop where
  armed : frame.needsArmed → ∀ i, frame.slot = some i → (s.sessionArray i).armed = true
  confirmed : frame.confirmed → ∀ i, frame.slot = some i →
    (s.sessionArray i).releaseFlag = false
  identified : frame.identified → ∀ i, frame.slot = some i →
    (s.sessionArray i).sessionID.index = i ∧ (s.sessionArray i).sessionID.key ≤ s.sessionKey
  renewed : frame.renewed → ∀ i, frame.slot = some i →
    (s.sessionArray i).sessionID.key < s.sessionKey

/-- **The owners of the slots and what their `_ioCount` counts.** -/
structure Sound (cfg : Config) (s : ContentsServer) : Prop where
  account : ∀ i, (s.sessionArray i).ioCount = (s.sessionArray i).io.length + s.tally holds i
  token : ∀ i, s.indexArray.count i + s.tally owns i + (s.sessionArray i).live =
    if i < cfg.maxUser then 1 else 0
  placed : ∀ frame, Present s.threads frame → Placed s frame
  queued : ∀ message ∈ s.queue, (s.sessionArray message.slot).armed = true
  posted : ∀ i, (s.sessionArray i).io ≠ [] → (s.sessionArray i).live = 1
  named : ∀ i, (s.sessionArray i).armed = true → (s.sessionArray i).sessionID.index = i
  issued : ∀ id ∈ s.issued, (s.sessionArray id.index).armed = true

theorem not_present_started (cfg : Config) (others : Nat) (frame : Frame) :
    ¬ Present (startedServer cfg others).threads frame :=
  not_present_replicate_nil _ frame

theorem sound_started (cfg : Config) (others : Nat) : Sound cfg (startedServer cfg others) := by
  have htally : ∀ w i, (startedServer cfg others).tally w i = 0 :=
    fun _ _ => total_replicate_nil _
  constructor
  · intro i
    rw [htally]
    rfl
  · intro i
    rw [htally]
    have hcount : (startedServer cfg others).indexArray.count i =
        if i < cfg.maxUser then 1 else 0 := by
      simp only [startedServer]
      split
      · rename_i hlt
        exact List.count_eq_one_of_mem List.nodup_range (List.mem_range.mpr hlt)
      · rename_i hge
        exact List.count_eq_zero.mpr fun hmem => hge (List.mem_range.mp hmem)
    rw [hcount]
    rfl
  · exact fun frame hpresent => absurd hpresent (not_present_started cfg others frame)
  · simp [startedServer]
  · simp [startedServer, emptySession]
  · simp [startedServer, emptySession]
  · simp [startedServer]

theorem confirmed_holds (h : frame.confirmed = true) : 0 < frame.holds := by
  unfold confirmed at h
  split at h <;> simp_all

theorem confirmed_needsArmed (h : frame.confirmed = true) : frame.needsArmed = true := by
  cases frame with
  | accept i pc => cases pc <;> first | rfl | simp [confirmed, holds] at h
  | pop => simp [confirmed, holds] at h
  | sweep regular now i pc => simp [confirmed, holds] at h
  | _ => rfl

/-- A frame with a confirmed reference keeps its slot live. -/
theorem Sound.live_of_confirmed (h : Sound cfg s) (hpresent : Present s.threads frame)
    (hconfirmed : frame.confirmed) {i : Nat} (hslot : frame.slot = some i) :
    (s.sessionArray i).live = 1 :=
  Session.live_eq_one.mpr
    ⟨(h.placed frame hpresent).armed (confirmed_needsArmed hconfirmed) i hslot,
      (h.placed frame hpresent).confirmed hconfirmed i hslot⟩

/-- A frame that owns a slot is the only one, and the slot is neither free nor live. -/
theorem Sound.owner (h : Sound cfg s) (hpresent : Present s.threads frame)
    (howns : frame.owns = 1) {i : Nat} (hslot : frame.slot = some i) :
    s.indexArray.count i = 0 ∧ s.tally owns i = 1 ∧ (s.sessionArray i).live = 0 ∧
      i < cfg.maxUser := by
  have hle := hpresent.le_total (w := weightAt owns i)
  have hone : weightAt owns i frame = 1 := by simp [weightAt, hslot, howns]
  have htoken := h.token i
  simp only [ContentsServer.tally] at htoken ⊢
  split at htoken <;> omega

theorem SameCore.live (h : SameCore s s') (i : Nat) :
    (s'.sessionArray i).live = (s.sessionArray i).live := by
  simp only [Session.live, h.armed, h.releaseFlag]

theorem ContentsServer.modify_live (s : ContentsServer) (i : Nat) {write : Session → Session}
    (h : ∀ x, (write x).armed = x.armed ∧ (write x).releaseFlag = x.releaseFlag) (j : Nat) :
    ((s.modify i write).sessionArray j).live = (s.sessionArray j).live := by
  by_cases hij : j = i
  · subst hij
    simp only [ContentsServer.modify_self, Session.live, h]
  · rw [s.modify_of_ne hij]

/-- An owner hands its slot on. -/
theorem Ran.token (h : Ran cfg s frame s' frames) (hsound : Sound cfg s)
    (hpresent : Present s.threads frame) (i : Nat) :
    s'.indexArray.count i + (frames.map (weightAt owns i)).sum + (s'.sessionArray i).live =
      s.indexArray.count i + weightAt owns i frame + (s.sessionArray i).live := by
  cases h with
  | quiet frame s' frames hsame hfollows hrest hholds =>
      rw [hsame.indexArray, hsame.live, sum_weightAt fun next hnext => (hfollows next hnext).1.slot,
        hrest.owns]
      rfl
  | increment frame j frames hslot hfollows hrest hholds =>
      rw [ContentsServer.increment, s.modify_live j,
        sum_weightAt fun next hnext => (hfollows next hnext).1.slot, hrest.owns]
      · rfl
      · exact fun _ => ⟨rfl, rfl⟩
  | decrement j direct frames hframes =>
      rw [ContentsServer.decrement, s.modify_live j]
      · rcases hframes with rfl | rfl <;> simp [weightAt, owns, ContentsServer.modify]
      · exact fun _ => ⟨rfl, rfl⟩
  | post frame j message frames hslot hmessage harmed hfollows hrest hholds =>
      rw [sum_weightAt fun next hnext => (hfollows next hnext).1.slot, hrest.owns]
      rfl
  | postIo frame j send buffers pending frames hslot hconfirmed hfollows hrest hholds =>
      rw [ContentsServer.postIo, s.modify_live j,
        sum_weightAt fun next hnext => (hfollows next hnext).1.slot, hrest.owns]
      · rfl
      · exact fun _ => ⟨rfl, rfl⟩
  | cas j hzero =>
      have harmed := (hsound.placed _ hpresent).armed rfl j rfl
      simp only [ContentsServer.isZero, Bool.and_eq_true, Bool.not_eq_true'] at hzero
      by_cases hij : i = j
      · subst hij
        simp [weightAt, slot, owns, Session.live, harmed, hzero.1, ContentsServer.record,
          ContentsServer.modify]
      · have hji : ¬ j = i := fun h => hij h.symm
        rw [ContentsServer.record_sessionArray, s.modify_of_ne hij]
        simp [weightAt, slot, hji, ContentsServer.record, ContentsServer.modify]
  | uncount j => rfl
  | onRelease j => rfl
  | push j =>
      have hname := hsound.named j ((hsound.placed _ hpresent).armed rfl j rfl)
      simp only [ContentsServer.record, findSession, hname, weightAt, slot, List.count_cons,
        List.map_nil, List.sum_nil, owns, beq_iff_eq, Option.some.injEq]
      omega
  | pop j rest hindex =>
      simp only [hindex, weightAt, slot, List.count_cons, List.map_cons, List.map_nil,
        List.sum_cons, List.sum_nil, owns, beq_iff_eq, Option.some.injEq]
      simp only [reduceCtorEq, if_false]
      omega
  | count j => rfl
  | identify j =>
      rw [s.modify_live j]
      · rfl
      · exact fun _ => ⟨rfl, rfl⟩
  | arm j =>
      obtain ⟨_, _, hlive, _⟩ := hsound.owner hpresent rfl rfl
      by_cases hij : i = j
      · subst hij
        rw [hlive]
        simp [weightAt, slot, owns, Session.live, ContentsServer.modify]
      · have hji : ¬ j = i := fun h => hij h.symm
        rw [s.modify_of_ne hij]
        simp [weightAt, slot, hji, ContentsServer.modify]
  | nextKey j => rfl
  | onAccept j => rfl
  | timeOut regular now j session hexpired => simp [weightAt, owns]

/-- What is once accepted stays so. -/
theorem Ran.armed (h : Ran cfg s frame s' frames) (i : Nat)
    (harmed : (s.sessionArray i).armed = true) : (s'.sessionArray i).armed = true := by
  have hmodify : ∀ (j : Nat) (write : Session → Session),
      (∀ x, x.armed = true → (write x).armed = true) →
      ((s.modify j write).sessionArray i).armed = true := by
    intro j write hwrite
    by_cases hij : i = j
    · subst hij
      rw [ContentsServer.modify_self]
      exact hwrite _ harmed
    · rw [s.modify_of_ne hij]
      exact harmed
  cases h with
  | quiet frame s' frames hsame hfollows hrest hholds => rw [hsame.armed]; exact harmed
  | increment frame j frames hslot hfollows hrest hholds => exact hmodify j _ fun _ hx => hx
  | decrement j direct frames hframes => exact hmodify j _ fun _ hx => hx
  | postIo frame j send buffers pending frames hslot hconfirmed hfollows hrest hholds =>
      exact hmodify j _ fun _ hx => hx
  | cas j hzero =>
      rw [ContentsServer.record_sessionArray]
      exact hmodify j _ fun _ hx => hx
  | identify j => exact hmodify j _ fun _ hx => hx
  | arm j => exact hmodify j _ fun _ _ => rfl
  | _ => exact harmed

/-- `RELEASEFLAG` is set by `Release` only, when nothing refers to the slot. -/
theorem Ran.releaseFlag (h : Ran cfg s frame s' frames) (i : Nat)
    (hflag : (s.sessionArray i).releaseFlag = false) :
    (s'.sessionArray i).releaseFlag = false ∨
      (frame = .release i .cas ∧ (s.sessionArray i).ioCount = 0) := by
  have hmodify : ∀ (j : Nat) (write : Session → Session),
      (∀ x, x.releaseFlag = false → (write x).releaseFlag = false) →
      ((s.modify j write).sessionArray i).releaseFlag = false := by
    intro j write hwrite
    by_cases hij : i = j
    · subst hij
      rw [ContentsServer.modify_self]
      exact hwrite _ hflag
    · rw [s.modify_of_ne hij]
      exact hflag
  cases h with
  | quiet frame s' frames hsame hfollows hrest hholds =>
      exact Or.inl ((hsame.releaseFlag i).trans hflag)
  | increment frame j frames hslot hfollows hrest hholds =>
      exact Or.inl (hmodify j _ fun _ hx => hx)
  | decrement j direct frames hframes => exact Or.inl (hmodify j _ fun _ hx => hx)
  | postIo frame j send buffers pending frames hslot hconfirmed hfollows hrest hholds =>
      exact Or.inl (hmodify j _ fun _ hx => hx)
  | cas j hzero =>
      by_cases hij : i = j
      · subst hij
        simp only [ContentsServer.isZero, Bool.and_eq_true, beq_iff_eq] at hzero
        exact Or.inr ⟨rfl, hzero.2⟩
      · rw [ContentsServer.record_sessionArray, s.modify_of_ne hij]
        exact Or.inl hflag
  | identify j => exact Or.inl (hmodify j _ fun _ hx => hx)
  | arm j => exact Or.inl (hmodify j _ fun _ _ => rfl)
  | _ => exact Or.inl hflag

/-- A session ID is stored by `AcceptThread` only. -/
theorem Ran.sessionID (h : Ran cfg s frame s' frames) (i : Nat) :
    (s'.sessionArray i).sessionID = (s.sessionArray i).sessionID ∨
      (frame = .accept i .sessionID ∧ (s'.sessionArray i).sessionID = ⟨i, s.sessionKey⟩ ∧
        frames = [.accept i .time]) := by
  have hmodify : ∀ (j : Nat) (write : Session → Session),
      (∀ x, (write x).sessionID = x.sessionID) →
      ((s.modify j write).sessionArray i).sessionID = (s.sessionArray i).sessionID := by
    intro j write hwrite
    by_cases hij : i = j
    · subst hij
      rw [ContentsServer.modify_self, hwrite]
    · rw [s.modify_of_ne hij]
  cases h with
  | quiet frame s' frames hsame hfollows hrest hholds => exact Or.inl (hsame.sessionID i)
  | increment frame j frames hslot hfollows hrest hholds => exact Or.inl (hmodify j _ fun _ => rfl)
  | decrement j direct frames hframes => exact Or.inl (hmodify j _ fun _ => rfl)
  | postIo frame j send buffers pending frames hslot hconfirmed hfollows hrest hholds =>
      exact Or.inl (hmodify j _ fun _ => rfl)
  | cas j hzero =>
      rw [ContentsServer.record_sessionArray]
      exact Or.inl (hmodify j _ fun _ => rfl)
  | identify j =>
      by_cases hij : i = j
      · subst hij
        exact Or.inr ⟨rfl, by rw [ContentsServer.modify_self], rfl⟩
      · rw [s.modify_of_ne hij]
        exact Or.inl rfl
  | arm j => exact Or.inl (hmodify j _ fun _ => rfl)
  | _ => exact Or.inl rfl

theorem Ran.sessionKey (h : Ran cfg s frame s' frames) : s.sessionKey ≤ s'.sessionKey := by
  cases h with
  | quiet frame s' frames hsame hfollows hrest hholds => exact Nat.le_of_eq hsame.sessionKey.symm
  | nextKey j => exact Nat.le_succ _
  | _ => exact Nat.le_refl _

/-! ## What the frames rely on -/

/-- A frame that relies on nothing new is placed where the old one was. -/
theorem Placed.follow {next : Frame} (h : Placed s frame) (hfollows : Follows frame next)
    (harmed : ∀ i, (s.sessionArray i).armed = true → (s'.sessionArray i).armed = true)
    (hconfirmed : next.confirmed → ∀ i, frame.slot = some i →
      (s'.sessionArray i).releaseFlag = false)
    (hsessionID : ∀ i, (s'.sessionArray i).sessionID = (s.sessionArray i).sessionID)
    (hkey : s.sessionKey ≤ s'.sessionKey) : Placed s' next where
  armed := by
    intro hneeds i hslot
    rw [hfollows.slot] at hslot
    exact harmed i (h.armed (hfollows.armed hneeds) i hslot)
  confirmed := by
    intro hconf i hslot
    rw [hfollows.slot] at hslot
    exact hconfirmed hconf i hslot
  identified := by
    intro hid i hslot
    rw [hfollows.slot] at hslot
    obtain ⟨hindex, hle⟩ := h.identified (hfollows.identified hid) i hslot
    rw [hsessionID]
    exact ⟨hindex, Nat.le_trans hle hkey⟩
  renewed := by
    intro hrenewed
    rw [hfollows.renewed] at hrenewed
    simp at hrenewed

/-- A frame that relies on nothing but its slot having been accepted. -/
theorem Placed.of_armed (hconfirmed : frame.confirmed = false)
    (hidentified : frame.identified = false) (hrenewed : frame.renewed = false)
    (harmed : frame.needsArmed → ∀ i, frame.slot = some i → (s.sessionArray i).armed = true) :
    Placed s frame :=
  ⟨harmed, by simp [hconfirmed], by simp [hidentified], by simp [hrenewed]⟩

/-- A sweep calls `Disconnect` only for slots that have been accepted. -/
def SweepsAccepted (cfg : Config) (s : ContentsServer) : Step → Prop
  | .run t _ _ =>
      match s.threads[t]? with
      | some (.sweep regular now i (.time session) :: _) =>
          s.expired cfg regular now i = true →
            (s.sessionArray (findSession session)).armed = true
      | _ => True
  | _ => True

instance (cfg : Config) (s : ContentsServer) (step : Step) :
    Decidable (SweepsAccepted cfg s step) := by
  unfold SweepsAccepted
  split
  · split <;> infer_instance
  · infer_instance

/-- The frames a step leaves may rely on their slots. -/
theorem Ran.placed (h : Ran cfg s frame s' frames) (hplaced : Placed s frame)
    (hsweep : ∀ regular now i session, frame = .sweep regular now i (.time session) →
      s.expired cfg regular now i = true →
      (s.sessionArray (findSession session)).armed = true) :
    ∀ next ∈ frames, Placed s' next := by
  have harmed := h.armed
  have hkey := h.sessionKey
  cases h with
  | quiet frame s' frames hsame hfollows hrest hholds =>
      intro next hnext
      obtain ⟨hf, hc⟩ := hfollows next hnext
      exact hplaced.follow hf harmed
        (fun hconf i hslot => (hsame.releaseFlag i).trans (hplaced.confirmed (hc hconf) i hslot))
        hsame.sessionID hkey
  | increment frame j frames hslot hfollows hrest hholds =>
      intro next hnext
      obtain ⟨hf, hc⟩ := hfollows next hnext
      refine hplaced.follow hf harmed (fun hconf i hi => ?_)
        (s.modify_field Session.sessionID j fun _ => rfl) hkey
      rw [ContentsServer.increment, s.modify_field Session.releaseFlag j fun _ => by rfl]
      rcases hc hconf with hold | hclear
      · exact hplaced.confirmed hold i hi
      · rw [hslot, Option.some.injEq] at hi
        exact hi ▸ hclear
  | decrement j direct frames hframes =>
      intro next hnext
      have hnext : next = .dead j direct := by
        rcases hframes with rfl | rfl
        · simp at hnext
        · exact List.mem_singleton.mp hnext
      subst hnext
      refine .of_armed rfl rfl rfl fun _ i hi => ?_
      exact harmed i (hplaced.armed rfl i hi)
  | post frame j message frames hslot hmessage hneeds hfollows hrest hholds =>
      intro next hnext
      obtain ⟨hf, hc⟩ := hfollows next hnext
      exact hplaced.follow hf harmed (fun hconf i hi => hplaced.confirmed (hc hconf) i hi)
        (fun _ => rfl) hkey
  | postIo frame j send buffers pending frames hslot hconfirmed hfollows hrest hholds =>
      intro next hnext
      obtain ⟨hf, hc⟩ := hfollows next hnext
      refine hplaced.follow hf harmed (fun hconf i hi => ?_)
        (s.modify_field Session.sessionID j fun _ => rfl) hkey
      rw [ContentsServer.postIo, s.modify_field Session.releaseFlag j fun _ => by rfl]
      exact hplaced.confirmed (hc hconf) i hi
  | cas j hzero =>
      intro next hnext
      obtain rfl := List.mem_singleton.mp hnext
      exact .of_armed rfl rfl rfl fun _ i hi => harmed i (hplaced.armed rfl i hi)
  | uncount j =>
      intro next hnext
      obtain rfl := List.mem_singleton.mp hnext
      exact .of_armed rfl rfl rfl fun _ i hi => harmed i (hplaced.armed rfl i hi)
  | onRelease j =>
      intro next hnext
      obtain rfl := List.mem_singleton.mp hnext
      exact .of_armed rfl rfl rfl fun _ i hi => harmed i (hplaced.armed rfl i hi)
  | push j => simp
  | pop j rest hindex =>
      intro next hnext
      obtain rfl := List.mem_singleton.mp hnext
      exact .of_armed rfl rfl rfl (by simp [needsArmed, owns])
  | count j =>
      intro next hnext
      obtain rfl := List.mem_singleton.mp hnext
      exact .of_armed rfl rfl rfl (by simp [needsArmed, owns])
  | identify j =>
      intro next hnext
      obtain rfl := List.mem_singleton.mp hnext
      refine ⟨by simp [needsArmed, owns], by simp [confirmed, holds], fun _ i hi => ?_,
        by simp [renewed]⟩
      simp only [slot, Option.some.injEq] at hi
      subst hi
      rw [ContentsServer.modify_self]
      exact ⟨rfl, Nat.le_refl _⟩
  | arm j =>
      intro next hnext
      obtain rfl := List.mem_singleton.mp hnext
      refine ⟨fun _ i hi => ?_, fun _ i hi => ?_, fun _ i hi => ?_, by simp [renewed]⟩
      · simp only [slot, Option.some.injEq] at hi
        subst hi
        rw [ContentsServer.modify_self]
      · simp only [slot, Option.some.injEq] at hi
        subst hi
        rw [ContentsServer.modify_self]
      · rw [s.modify_field Session.sessionID j fun _ => by rfl]
        exact hplaced.identified rfl i hi
  | nextKey j =>
      intro next hnext
      obtain rfl := List.mem_singleton.mp hnext
      refine ⟨fun _ => hplaced.armed rfl, fun _ => hplaced.confirmed rfl, fun _ i hi => ?_,
        fun _ i hi => ?_⟩
      · obtain ⟨hindex, hle⟩ := hplaced.identified rfl i hi
        exact ⟨hindex, Nat.le_succ_of_le hle⟩
      · exact Nat.lt_succ_of_le (hplaced.identified rfl i hi).2
  | onAccept j =>
      intro next hnext
      obtain rfl := List.mem_singleton.mp hnext
      exact ⟨fun _ => hplaced.armed rfl, fun _ => hplaced.confirmed rfl, by simp [identified],
        by simp [renewed]⟩
  | timeOut regular now j session hexpired =>
      intro next hnext
      rcases List.mem_pair.mp hnext with rfl | rfl
      · refine .of_armed rfl rfl rfl fun _ i hi => ?_
        simp only [slot, Option.some.injEq] at hi
        exact hi ▸ hsweep _ _ _ _ rfl hexpired
      · exact .of_armed rfl rfl rfl (by simp [needsArmed])

/-- A frame that holds a reference is counted. -/
theorem Sound.holds_le (h : Sound cfg s) (hpresent : Present s.threads frame) {i : Nat}
    (hslot : frame.slot = some i) : frame.holds ≤ (s.sessionArray i).ioCount := by
  have hle := hpresent.le_total (w := weightAt holds i)
  have haccount := h.account i
  simp only [weightAt, hslot, if_true] at hle
  simp only [ContentsServer.tally] at haccount
  omega

/-- Another frame goes on relying on its slot. -/
theorem Ran.placed_other (h : Ran cfg s frame s' frames) (hsound : Sound cfg s)
    (hpresent : Present s.threads frame) {other : Frame} (hother : Present s.threads other)
    (hbeside : ∀ w : Frame → Nat, w frame + w other ≤ total w s.threads) : Placed s' other := by
  have hplaced := hsound.placed other hother
  have hid : ∀ i, other.identified → other.slot = some i →
      (s'.sessionArray i).sessionID = (s.sessionArray i).sessionID := by
    intro i hidentified hslot
    rcases h.sessionID i with heq | ⟨rfl, _, _⟩
    · exact heq
    · -- The slot would have two owners, or an owner while it is live.
      obtain ⟨_, htally, hlive, _⟩ := hsound.owner hpresent rfl rfl
      exfalso
      by_cases howns : other.owns = 1
      · have hboth := hbeside (weightAt owns i)
        have hone : weightAt owns i (.accept i .sessionID) = 1 := by simp [weightAt, slot, owns]
        have hother' : weightAt owns i other = 1 := by simp [weightAt, hslot, howns]
        simp only [ContentsServer.tally] at htally
        omega
      · have hlive' : (s.sessionArray i).live = 1 := by
          refine hsound.live_of_confirmed hother ?_ hslot
          cases other with
          | accept j pc => cases pc <;> simp_all [identified, owns, confirmed, holds]
          | _ => simp [identified] at hidentified
        omega
  constructor
  · intro hneeds i hslot
    exact h.armed i (hplaced.armed hneeds i hslot)
  · intro hconfirmed i hslot
    rcases h.releaseFlag i (hplaced.confirmed hconfirmed i hslot) with hclear | ⟨_, hzero⟩
    · exact hclear
    · have := hsound.holds_le hother hslot
      have := confirmed_holds hconfirmed
      omega
  · intro hidentified i hslot
    obtain ⟨hindex, hle⟩ := hplaced.identified hidentified i hslot
    rw [hid i hidentified hslot]
    exact ⟨hindex, Nat.le_trans hle h.sessionKey⟩
  · intro hrenewed i hslot
    have hidentified : other.identified := by
      unfold renewed at hrenewed
      split at hrenewed
      · rfl
      · simp at hrenewed
    rw [hid i hidentified hslot]
    exact Nat.lt_of_lt_of_le (hplaced.renewed hrenewed i hslot) h.sessionKey

/-! ## Steps keep it -/

theorem Ran.queue (h : Ran cfg s frame s' frames) (hplaced : Placed s frame)
    {message : Message} (hmem : message ∈ s'.queue) :
    message ∈ s.queue ∨ (s.sessionArray message.slot).armed = true := by
  cases h with
  | quiet frame s' frames hsame hfollows hrest hholds =>
      rw [hsame.queue] at hmem
      exact Or.inl hmem
  | post frame j message' frames hslot hmessage harmed hfollows hrest hholds =>
      rcases List.mem_append.mp hmem with hmem | hmem
      · exact Or.inl hmem
      · obtain rfl := List.mem_singleton.mp hmem
        rw [hmessage]
        exact Or.inr (hplaced.armed harmed j hslot)
  | _ => exact Or.inl hmem

theorem Ran.io (h : Ran cfg s frame s' frames) (i : Nat) (hio : (s'.sessionArray i).io ≠ []) :
    (s.sessionArray i).io ≠ [] ∨ (frame.confirmed = true ∧ frame.slot = some i) := by
  cases h with
  | quiet frame s' frames hsame hfollows hrest hholds =>
      have hlength := hsame.io i
      refine Or.inl fun hnil => hio ?_
      rw [hnil] at hlength
      exact List.eq_nil_of_length_eq_zero hlength
  | increment frame j frames hslot hfollows hrest hholds =>
      rw [ContentsServer.increment, s.modify_field Session.io j fun _ => by rfl] at hio
      exact Or.inl hio
  | decrement j direct frames hframes =>
      rw [ContentsServer.decrement, s.modify_field Session.io j fun _ => by rfl] at hio
      exact Or.inl hio
  | postIo frame j send buffers pending frames hslot hconfirmed hfollows hrest hholds =>
      by_cases hij : i = j
      · exact Or.inr ⟨hconfirmed, hij ▸ hslot⟩
      · rw [ContentsServer.postIo, s.modify_of_ne hij] at hio
        exact Or.inl hio
  | cas j hzero =>
      rw [ContentsServer.record_sessionArray, s.modify_field Session.io j fun _ => by rfl] at hio
      exact Or.inl hio
  | identify j =>
      rw [s.modify_field Session.io j fun _ => by rfl] at hio
      exact Or.inl hio
  | arm j =>
      rw [s.modify_field Session.io j fun _ => by rfl] at hio
      exact Or.inl hio
  | _ => exact Or.inl hio

/-- A slot is accepted by the `InterlockedAnd` of `AcceptThread` only. -/
theorem Ran.armed_back (h : Ran cfg s frame s' frames) (i : Nat)
    (harmed : (s'.sessionArray i).armed = true) :
    (s.sessionArray i).armed = true ∨ frame = .accept i .and := by
  cases h with
  | quiet frame s' frames hsame hfollows hrest hholds =>
      rw [hsame.armed] at harmed
      exact Or.inl harmed
  | increment frame j frames hslot hfollows hrest hholds =>
      rw [ContentsServer.increment, s.modify_field Session.armed j fun _ => by rfl] at harmed
      exact Or.inl harmed
  | decrement j direct frames hframes =>
      rw [ContentsServer.decrement, s.modify_field Session.armed j fun _ => by rfl] at harmed
      exact Or.inl harmed
  | postIo frame j send buffers pending frames hslot hconfirmed hfollows hrest hholds =>
      rw [ContentsServer.postIo, s.modify_field Session.armed j fun _ => by rfl] at harmed
      exact Or.inl harmed
  | cas j hzero =>
      rw [ContentsServer.record_sessionArray, s.modify_field Session.armed j fun _ => by rfl]
        at harmed
      exact Or.inl harmed
  | identify j =>
      rw [s.modify_field Session.armed j fun _ => by rfl] at harmed
      exact Or.inl harmed
  | arm j =>
      by_cases hij : i = j
      · exact Or.inr (by rw [hij])
      · rw [s.modify_of_ne hij] at harmed
        exact Or.inl harmed
  | _ => exact Or.inl harmed

theorem Ran.issued (h : Ran cfg s frame s' frames) {id : SessionID} (hid : id ∈ s'.issued) :
    id ∈ s.issued ∨
      ∃ i, frame = .accept i .onAccept ∧ id = (s.sessionArray i).sessionID := by
  cases h with
  | quiet frame s' frames hsame hfollows hrest hholds =>
      rw [hsame.issued] at hid
      exact Or.inl hid
  | onAccept j =>
      rcases List.mem_cons.mp hid with rfl | hid
      · exact Or.inr ⟨j, rfl, rfl⟩
      · exact Or.inl hid
  | _ => exact Or.inl hid

/-- A live slot with I/O outstanding or a reference stays live. -/
theorem Ran.live (h : Ran cfg s frame s' frames) (i : Nat)
    (hlive : (s.sessionArray i).live = 1) (hcount : 0 < (s.sessionArray i).ioCount) :
    (s'.sessionArray i).live = 1 := by
  obtain ⟨harmed, hflag⟩ := Session.live_eq_one.mp hlive
  refine Session.live_eq_one.mpr ⟨h.armed i harmed, ?_⟩
  rcases h.releaseFlag i hflag with hclear | ⟨_, hzero⟩
  · exact hclear
  · omega

/-- One step of a frame keeps the owners and the account. -/
theorem Sound.run (h : Sound cfg s) {t : Nat} {rest : List Frame}
    (hstack : s.threads[t]? = some (frame :: rest)) (hran : Ran cfg s frame s' frames)
    (hsweep : ∀ regular now i session, frame = .sweep regular now i (.time session) →
      s.expired cfg regular now i = true →
      (s.sessionArray (findSession session)).armed = true) :
    Sound cfg (s'.start t (frames ++ rest)) := by
  have hpresent : Present s.threads frame := present_of_getElem? hstack (by simp)
  have hplaced := h.placed frame hpresent
  have hle : ∀ i, weightAt holds i frame ≤ (s.sessionArray i).ioCount := by
    intro i
    unfold weightAt
    split
    · rename_i hslot
      exact h.holds_le hpresent hslot
    · exact Nat.zero_le _
  constructor
  · intro i
    have htally := tally_run frames hstack hran.threads holds i
    have haccount := hran.account i (hle i)
    have hold := h.account i
    show (s'.sessionArray i).ioCount = (s'.sessionArray i).io.length + _
    omega
  · intro i
    have htally := tally_run frames hstack hran.threads owns i
    have htoken := hran.token h hpresent i
    have hold := h.token i
    show s'.indexArray.count i + _ + (s'.sessionArray i).live = _
    omega
  · intro other hother
    have hother : Present (s.threads.set t (frames ++ rest)) other := by
      rw [← hran.threads]
      exact hother
    rcases Present.of_set_cons hstack hother with hnew | ⟨hold, hbeside⟩
    · have hnext := hran.placed hplaced hsweep other hnew
      exact ⟨hnext.armed, hnext.confirmed, hnext.identified, hnext.renewed⟩
    · have hkept := hran.placed_other h hpresent hold hbeside
      exact ⟨hkept.armed, hkept.confirmed, hkept.identified, hkept.renewed⟩
  · intro message hmem
    rcases hran.queue hplaced hmem with hold | harmed
    · exact hran.armed _ (h.queued message hold)
    · exact hran.armed _ harmed
  · intro i hio
    rcases hran.io i hio with hold | ⟨hconfirmed, hslot⟩
    · refine hran.live i (h.posted i hold) ?_
      have := h.account i
      have := List.length_pos_iff.mpr hold
      omega
    · refine hran.live i (h.live_of_confirmed hpresent hconfirmed hslot) ?_
      have := h.holds_le hpresent hslot
      have := confirmed_holds hconfirmed
      omega
  · intro i harmed
    rcases hran.sessionID i with heq | ⟨_, heq, _⟩
    · show (s'.sessionArray i).sessionID.index = i
      rw [heq]
      rcases hran.armed_back i harmed with hold | rfl
      · exact h.named i hold
      · exact (hplaced.identified rfl i rfl).1
    · show (s'.sessionArray i).sessionID.index = i
      rw [heq]
  · intro id hid
    rcases hran.issued hid with hold | ⟨i, rfl, rfl⟩
    · exact hran.armed _ (h.issued id hold)
    · refine hran.armed _ ?_
      rw [(hplaced.identified rfl i rfl).1]
      exact hplaced.armed rfl i rfl

/-- A frame that starts without references keeps them too. -/
theorem Sound.start (h : Sound cfg s) {t : Nat} {stack : List Frame}
    (hstack : s.threads[t]? = some stack) (hholds : frame.holds = 0) (howns : frame.owns = 0)
    (hplaced : Placed s frame) : Sound cfg (s.start t (frame :: stack)) := by
  have htally : ∀ w : Frame → Nat, w frame = 0 → ∀ i,
      (s.start t (frame :: stack)).tally w i = s.tally w i :=
    fun _ hw => tally_start_zero hstack rfl hw
  constructor
  · intro i
    rw [htally holds hholds]
    exact h.account i
  · intro i
    rw [htally owns howns]
    exact h.token i
  · intro other hother
    rcases Present.of_set_append [frame] hstack hother with hnew | hold
    · obtain rfl := List.mem_singleton.mp hnew
      exact ⟨hplaced.armed, hplaced.confirmed, hplaced.identified, hplaced.renewed⟩
    · have hkept := h.placed other hold
      exact ⟨hkept.armed, hkept.confirmed, hkept.identified, hkept.renewed⟩
  · exact h.queued
  · exact h.posted
  · exact h.named
  · exact h.issued

theorem completionFrame_spec (i : Nat) (io : Io) (success : Bool) :
    (completionFrame i io success).slot = some i ∧ (completionFrame i io success).holds = 1 ∧
      (completionFrame i io success).owns = 0 ∧
      (completionFrame i io success).identified = false ∧
      (completionFrame i io success).renewed = false := by
  refine completionFrame_cases i io success ?_ ?_ ?_ <;> exact ⟨rfl, rfl, rfl, rfl, rfl⟩

/-- A worker takes a completion: the I/O is no longer outstanding, and its reference is
the worker's. -/
theorem Sound.complete (h : Sound cfg s) {t i n : Nat} {io : Io} (success : Bool)
    (hstack : s.threads[t]? = some []) (hio : (s.sessionArray i).io[n]? = some io) :
    Sound cfg ((s.modify i fun x => { x with io := x.io.eraseIdx n }).start t
      [completionFrame i io success]) := by
  have hlive : (s.sessionArray i).live = 1 := by
    refine h.posted i fun hnil => ?_
    rw [hnil] at hio
    simp at hio
  have hlt : n < (s.sessionArray i).io.length := (List.getElem?_eq_some_iff.mp hio).1
  obtain ⟨hslot, hholds, howns, hidentified, hrenewed⟩ := completionFrame_spec i io success
  generalize completionFrame i io success = first at *
  obtain ⟨s', hs'⟩ : ∃ s', s' = s.modify i fun x => { x with io := x.io.eraseIdx n } := ⟨_, rfl⟩
  -- Nothing but the I/O of this slot changes.
  have hid : ∀ j, (s'.sessionArray j).sessionID = (s.sessionArray j).sessionID :=
    hs' ▸ s.modify_field Session.sessionID i fun _ => rfl
  have harmed : ∀ j, (s'.sessionArray j).armed = (s.sessionArray j).armed :=
    hs' ▸ s.modify_field Session.armed i fun _ => rfl
  have hflag : ∀ j, (s'.sessionArray j).releaseFlag = (s.sessionArray j).releaseFlag :=
    hs' ▸ s.modify_field Session.releaseFlag i fun _ => rfl
  have hlives : ∀ j, (s'.sessionArray j).live = (s.sessionArray j).live :=
    hs' ▸ s.modify_field Session.live i fun _ => rfl
  have hcount : ∀ j, (s'.sessionArray j).ioCount = (s.sessionArray j).ioCount :=
    hs' ▸ s.modify_field Session.ioCount i fun _ => rfl
  have hself : (s'.sessionArray i).io = (s.sessionArray i).io.eraseIdx n := by
    rw [hs', ContentsServer.modify_self]
  have helse : ∀ j, j ≠ i → (s'.sessionArray j).io = (s.sessionArray j).io := by
    intro j hj
    rw [hs', s.modify_of_ne hj]
  have hrest : s'.threads = s.threads ∧ s'.indexArray = s.indexArray ∧ s'.queue = s.queue ∧
      s'.sessionKey = s.sessionKey ∧ s'.issued = s.issued := by
    rw [hs']
    exact ⟨rfl, rfl, rfl, rfl, rfl⟩
  obtain ⟨hthreads, hindex, hqueue, hkey, hissued⟩ := hrest
  rw [← hs']
  have htally : ∀ w j, (s'.start t [first]).tally w j =
      s.tally w j + if j = i then w first else 0 := by
    intro w j
    have htally := tally_start s' [first] hstack hthreads w j
    simp only [List.append_nil, List.map_cons, List.map_nil, List.sum_cons, List.sum_nil,
      Nat.add_zero, weightAt, hslot, Option.some.injEq] at htally
    rw [htally]
    simp only [eq_comm]
  constructor
  · intro j
    rw [htally, ContentsServer.start_sessionArray, hcount]
    have haccount := h.account j
    by_cases hj : j = i
    · subst hj
      rw [hself, if_pos rfl, hholds, List.length_eraseIdx, if_pos hlt]
      omega
    · rw [helse j hj, if_neg hj]
      omega
  · intro j
    rw [htally, howns, ite_self, ContentsServer.start_sessionArray, hlives]
    show s'.indexArray.count j + _ + _ = _
    rw [hindex]
    exact h.token j
  · intro other hother
    rw [ContentsServer.start, hthreads] at hother
    rcases Present.of_set_append [first] hstack hother with hnew | hold
    · obtain rfl := List.mem_singleton.mp hnew
      obtain ⟨hiarmed, hiflag⟩ := Session.live_eq_one.mp hlive
      refine ⟨fun _ j hj => ?_, fun _ j hj => ?_, by simp [hidentified], by simp [hrenewed]⟩
      · obtain rfl := Option.some.inj (hslot.symm.trans hj)
        exact (harmed i).trans hiarmed
      · obtain rfl := Option.some.inj (hslot.symm.trans hj)
        exact (hflag i).trans hiflag
    · have hkept := h.placed other hold
      refine ⟨fun hneeds j hj => (harmed j).trans (hkept.armed hneeds j hj),
        fun hconf j hj => (hflag j).trans (hkept.confirmed hconf j hj),
        fun hnamed j hj => ?_, fun hren j hj => ?_⟩
      · rw [ContentsServer.start_sessionArray, hid]
        exact hkey ▸ hkept.identified hnamed j hj
      · rw [ContentsServer.start_sessionArray, hid]
        exact hkey ▸ hkept.renewed hren j hj
  · intro message hmem
    exact (harmed _).trans (h.queued message (hqueue ▸ hmem))
  · intro j hj
    refine (hlives j).trans ?_
    by_cases hji : j = i
    · exact hji ▸ hlive
    · exact h.posted j (helse j hji ▸ hj)
  · intro j hj
    rw [ContentsServer.start_sessionArray, hid]
    exact h.named j ((harmed j).symm.trans hj)
  · intro id hissue
    exact (harmed _).trans (h.issued id (hissued ▸ hissue))

/-- **A step keeps the owners and the account**, unless a sweep disconnects a slot that
was never accepted. -/
theorem Sound.step {step : Step} (h : Sound cfg s) (hok : SweepsAccepted cfg s step)
    (hstep : Served cfg s step s') : Sound cfg s' := by
  cases hstep with
  | run t now outcome frame rest hstack =>
      refine h.run hstack (runFrame_ran now outcome frame) ?_
      rintro regular now' i session rfl hexpired
      simp only [SweepsAccepted, hstack] at hok
      exact hok hexpired
  | accept hstack => exact h.start hstack rfl rfl (.of_armed rfl rfl rfl (by simp [needsArmed]))
  | take t n message hstack hmessage =>
      have hmem := List.mem_of_getElem? hmessage
      have htaken : Sound cfg { s with queue := s.queue.eraseIdx n } :=
        ⟨h.account, h.token, fun frame hframe => ⟨(h.placed frame hframe).armed,
          (h.placed frame hframe).confirmed, (h.placed frame hframe).identified,
          (h.placed frame hframe).renewed⟩,
          fun message hm => h.queued message (List.mem_of_mem_eraseIdx hm), h.posted, h.named,
          h.issued⟩
      have harmed := h.queued message hmem
      cases message with
      | release i =>
          refine htaken.start hstack rfl rfl (.of_armed rfl rfl rfl fun _ j hj => ?_)
          exact Option.some.inj hj ▸ harmed
      | sendPost i =>
          refine htaken.start hstack rfl rfl (.of_armed rfl rfl rfl fun _ j hj => ?_)
          exact Option.some.inj hj ▸ harmed
  | complete t i n io success hstack hio => exact h.complete success hstack hio
  | call t call stack hissued hstack =>
      have harmed := h.issued call.id hissued
      cases call <;>
        refine h.start hstack rfl rfl (.of_armed rfl rfl rfl fun _ j hj => ?_) <;>
        exact Option.some.inj hj ▸ harmed
  | kick t i rest hstack =>
      have hpresent : Present s.threads (.recv i .user) := present_of_getElem? hstack (by simp)
      have harmed := (h.placed _ hpresent).armed rfl i rfl
      refine h.start hstack rfl rfl (.of_armed rfl rfl rfl fun _ j hj => ?_)
      have hj : (s.sessionArray i).sessionID.index = j := Option.some.inj hj
      rw [h.named i harmed] at hj
      exact hj ▸ harmed
  | sweep regular now hstack =>
      exact h.start hstack rfl rfl (.of_armed rfl rfl rfl (by simp [needsArmed]))

end SessionServer.ContentLib
