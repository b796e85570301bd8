/-
  ContentLib/FrameRun.lean --- frame synchronisation of a session.

  The contents branch takes `len + 1` bytes behind a header, as `SetBufferHeader`
  counts them; the other two branches take `len`.  A session keeps its frame boundary
  as long as the completions it gets outside a contents find no complete frame.
-/
import SessionServer.ContentLib.Frame

set_option autoImplicit false

namespace SessionServer.ContentLib

open SessionServer.Common SessionServer.Foundation

/-! ## Receiving -/

section Deliver

variable {rb : RingBuffer} {chunk : List UInt8}

theorem recvSpace_le (h : rb.Valid) : recvSpace rb ≤ rb.getFreeSize := by
  have := h.front_nonneg
  have := h.front_lt
  have := h.rear_nonneg
  have := h.rear_lt
  unfold recvSpace recvSegments
  split
  · simp only [List.map_cons, List.map_nil, List.sum_cons, List.sum_nil]
    unfold RingBuffer.directEnqueueSize RingBuffer.getFreeSize RingBuffer.getUsedSize
    split <;> split <;> (try split) <;> omega
  · simp

/-- The bytes go behind the rear, and from the end of the memory on to its start. -/
theorem scatter_recvSegments (h : rb.Valid) (hfit : (chunk.length : Int) ≤ recvSpace rb) :
    scatter rb.buffer (recvSegments rb) chunk =
      writeBytes
        (writeBytes rb.buffer rb.rear (chunk.take rb.directEnqueueSize.toNat)) 0
        (chunk.drop rb.directEnqueueSize.toNat) := by
  have hfree := recvSpace_le h
  unfold recvSpace at hfit
  unfold recvSegments at hfit ⊢
  split at hfit
  · rename_i hone
    simp only [List.map_cons, List.map_nil, List.sum_cons, List.sum_nil] at hfit
    have hnone : chunk.drop rb.directEnqueueSize.toNat = [] := by
      rw [List.drop_eq_nil_iff]
      omega
    rw [if_pos hone, hnone, writeBytes_nil]
    rfl
  · rename_i htwo
    rw [if_neg htwo]
    have hrest : (chunk.drop rb.directEnqueueSize.toNat).take
        (rb.getFreeSize - rb.directEnqueueSize).toNat = chunk.drop rb.directEnqueueSize.toNat := by
      apply List.take_of_length_le
      rw [List.length_drop]
      simp only [List.map_cons, List.map_nil, List.sum_cons, List.sum_nil] at hfit
      omega
    simp only [scatter, hrest]

/-- **A completion appends what was received.** -/
theorem moveRear_deliver (h : rb.Valid) (chunk : List UInt8)
    (hfit : (chunk.length : Int) ≤ recvSpace rb) :
    ((deliver rb chunk).moveRear chunk.length).Valid ∧
      ((deliver rb chunk).moveRear chunk.length).content = rb.content ++ chunk := by
  have := h.front_nonneg
  have := h.front_lt
  have := h.rear_nonneg
  have := h.rear_lt
  have hfree : (chunk.length : Int) ≤ rb.getFreeSize := hfit.trans (recvSpace_le h)
  have hspace : (deliver rb chunk).getFreeSize ≥ chunk.length := hfree
  have hsplit : (chunk.length ≤ rb.directEnqueueSize.toNat ∧ rb.rear + chunk.length ≤ rb.size) ∨
      (rb.directEnqueueSize.toNat : Int) = rb.size - rb.rear := by
    unfold RingBuffer.getFreeSize RingBuffer.getUsedSize at hfree
    unfold RingBuffer.directEnqueueSize
    split at hfree <;> split <;> (try split) <;> omega
  rw [RingBuffer.moveRear, if_pos hspace, deliver, scatter_recvSegments h hfit]
  exact h.advance_splitWrite hfree hsplit

/-- The bytes of a completion come behind those the ring held. -/
theorem moveRear_arrived (h : rb.Valid) {incoming : List UInt8} {cbTransferred : Nat}
    (havail : cbTransferred ≤ incoming.length) (hspace : (cbTransferred : Int) ≤ recvSpace rb) :
    ((deliver rb (incoming.take cbTransferred)).moveRear cbTransferred).Valid ∧
      ((deliver rb (incoming.take cbTransferred)).moveRear cbTransferred).content =
        rb.content ++ incoming.take cbTransferred := by
  have hlength : (incoming.take cbTransferred).length = cbTransferred :=
    List.length_take_of_le havail
  have hmoved := moveRear_deliver h (incoming.take cbTransferred) (by rw [hlength]; exact hspace)
  rwa [hlength] at hmoved

end Deliver

/-! ## The loops -/

theorem LanHEADER.ofBytes_take (bytes : List UInt8) :
    LanHEADER.ofBytes (bytes.take LanHEADER.size) = LanHEADER.ofBytes bytes := by
  match bytes with
  | [] => rfl
  | [_] => rfl
  | _ :: _ :: _ => rfl

theorem LanHEADER.ofBytes_append {bytes : List UInt8} (h : LanHEADER.size ≤ bytes.length)
    (more : List UInt8) : LanHEADER.ofBytes (bytes ++ more) = LanHEADER.ofBytes bytes := by
  match bytes, h with
  | _ :: _ :: _, _ => rfl

/-- The branch cannot take a frame off the bytes. -/
def RecvBranch.Stuck (branch : RecvBranch) (bytes : List UInt8) : Prop :=
  bytes.length < LanHEADER.size ∨ bytes.length < branch.frameSize (LanHEADER.ofBytes bytes)

namespace RecvBranch

variable (branch : RecvBranch) {rb : RingBuffer}

theorem consume_spec (h : rb.Valid) {n : Nat} (hn : (n : Int) ≤ rb.getUsedSize) :
    (branch.consume rb n).1.Valid ∧ (branch.consume rb n).1.content = rb.content.drop n := by
  cases branch with
  | noContents => exact ⟨(h.dequeue_spec hn).1, (h.dequeue_spec hn).2.1⟩
  | contents => exact ⟨(h.dequeue_spec hn).1, (h.dequeue_spec hn).2.1⟩
  | moving => exact h.moveFront_spec hn

theorem size_le_frameSize (header : LanHEADER) : LanHEADER.size ≤ branch.frameSize header := by
  cases branch <;> simp only [frameSize] <;> omega

/-- One round of a loop: it stops on a stuck ring, and otherwise takes a frame. -/
theorem recvLoop_succ (h : rb.Valid) (fuel : Nat) :
    (branch.Stuck rb.content ∧ recvLoop branch (fuel + 1) rb = (rb, [])) ∨
    (¬ branch.Stuck rb.content ∧
      ∃ next handed,
        branch.consume rb (branch.frameSize (LanHEADER.ofBytes rb.content)) = (next, handed) ∧
        next.Valid ∧
        next.content = rb.content.drop (branch.frameSize (LanHEADER.ofBytes rb.content)) ∧
        recvLoop branch (fuel + 1) rb =
          ((recvLoop branch fuel next).1, handed ++ (recvLoop branch fuel next).2)) := by
  have hlen := h.content_length
  unfold Stuck
  rw [recvLoop]
  split
  · rename_i hshort
    exact Or.inl ⟨Or.inl (by omega), rfl⟩
  · rename_i hheader
    have hpeek : LanHEADER.ofBytes (rb.peek LanHEADER.size) = LanHEADER.ofBytes rb.content := by
      rw [h.peek_eq (by omega), LanHEADER.ofBytes_take]
    simp only [hpeek]
    split
    · rename_i hshort
      exact Or.inl ⟨Or.inr (by omega), rfl⟩
    · rename_i hframe
      have hconsume := consume_spec branch h (Int.not_lt.mp hframe)
      exact Or.inr ⟨by omega, _, _, rfl, hconsume.1, hconsume.2, rfl⟩

end RecvBranch

open RecvBranch in
/-- The loop rule: what taking a frame preserves of the bytes, the loop preserves. -/
theorem recvLoop_invariant {branch : RecvBranch} {P : List UInt8 → Prop}
    (hframe : ∀ bytes, ¬ branch.Stuck bytes → P bytes →
      P (bytes.drop (branch.frameSize (LanHEADER.ofBytes bytes)))) :
    ∀ (fuel : Nat) (rb : RingBuffer), rb.Valid → P rb.content →
      (recvLoop branch fuel rb).1.Valid ∧ P (recvLoop branch fuel rb).1.content := by
  intro fuel
  induction fuel with
  | zero => intro rb h hP; exact ⟨h, hP⟩
  | succ fuel ih =>
      intro rb h hP
      rcases recvLoop_succ branch h fuel with ⟨_, hstop⟩ | ⟨hgo, next, _, _, hv, hc, heq⟩
      · rw [hstop]
        exact ⟨h, hP⟩
      · rw [heq]
        exact ih next hv (hc ▸ hframe rb.content hgo hP)

open RecvBranch in
/-- The bytes in the ring are fuel enough: the loop ends at a ring without a frame. -/
theorem recvLoop_stops {branch : RecvBranch} :
    ∀ (fuel : Nat) (rb : RingBuffer), rb.Valid → rb.content.length ≤ fuel →
      branch.Stuck (recvLoop branch fuel rb).1.content := by
  intro fuel
  induction fuel with
  | zero =>
      intro rb _ hfuel
      exact Or.inl (by simp only [recvLoop, LanHEADER.size]; omega)
  | succ fuel ih =>
      intro rb h hfuel
      rcases recvLoop_succ branch h fuel with ⟨hs, hstop⟩ | ⟨_, next, _, _, hv, hc, heq⟩
      · rw [hstop]
        exact hs
      · rw [heq]
        refine ih next hv ?_
        have hsize := size_le_frameSize branch (LanHEADER.ofBytes rb.content)
        simp only [LanHEADER.size] at hsize
        rw [hc, List.length_drop]
        omega

open RecvBranch in
theorem recvAll_of_stuck {branch : RecvBranch} {rb : RingBuffer} (h : rb.Valid)
    (hs : branch.Stuck rb.content) : recvAll branch rb = (rb, []) := by
  unfold recvAll
  cases hfuel : rb.getUsedSize.toNat with
  | zero => rfl
  | succ fuel =>
      rcases recvLoop_succ branch h fuel with ⟨_, hstop⟩ | ⟨hgo, _⟩
      · exact hstop
      · exact absurd hs hgo

/-! ## Frames -/

/-- The payload sizes a LAN frame can declare. -/
def PayloadSize (payload : List UInt8) : Prop :=
  1 ≤ payload.length ∧ payload.length ≤ 256

/-- The length byte and the one that is not counted are the payload. -/
theorem setBufferHeader_len {payload : List UInt8} (h : PayloadSize payload) :
    (UInt8.ofNat payload.length - 1).toNat + 1 = payload.length := by
  obtain ⟨h1, h2⟩ := h
  rw [UInt8.toNat_sub, UInt8.toNat_ofNat', show (1 : UInt8).toNat = 1 from rfl]
  omega

/-- The contents branch reads the size of the frame off its header. -/
theorem contents_frameSize {payload : List UInt8} (h : PayloadSize payload) (more : List UInt8) :
    RecvBranch.contents.frameSize (LanHEADER.ofBytes (setBufferHeader payload ++ more)) =
      (setBufferHeader payload).length := by
  have hof : LanHEADER.ofBytes (setBufferHeader payload ++ more) =
      ⟨0x89, UInt8.ofNat payload.length - 1⟩ := rfl
  have := setBufferHeader_len h
  rw [hof]
  simp only [RecvBranch.frameSize, setBufferHeader, List.length_cons, LanHEADER.size]
  omega

/-- **The contents branch takes exactly one frame.** -/
theorem contents_takes_frame {bytes incoming : List UInt8} {left : List (List UInt8)}
    (hsize : ∀ payload ∈ left, PayloadSize payload)
    (heq : bytes ++ incoming = stream left) (hgo : ¬ RecvBranch.contents.Stuck bytes) :
    ∃ payload rest, left = payload :: rest ∧
      bytes.drop (RecvBranch.contents.frameSize (LanHEADER.ofBytes bytes)) ++ incoming =
        stream rest := by
  simp only [RecvBranch.Stuck, not_or, not_lt] at hgo
  obtain ⟨hheader, hframe⟩ := hgo
  cases left with
  | nil =>
      have hlen := congrArg List.length heq
      simp only [List.length_append, stream, List.flatMap_nil, List.length_nil] at hlen
      simp only [LanHEADER.size] at hheader
      omega
  | cons payload rest =>
      have hstream : stream (payload :: rest) = setBufferHeader payload ++ stream rest := by
        simp [stream]
      have hsizes : RecvBranch.contents.frameSize (LanHEADER.ofBytes bytes) =
          (setBufferHeader payload).length := by
        rw [← LanHEADER.ofBytes_append hheader incoming, heq, hstream]
        exact contents_frameSize (hsize payload (by simp)) _
      refine ⟨payload, rest, rfl, ?_⟩
      rw [← List.drop_append_of_le_length hframe, heq, hstream, hsizes, List.drop_left]

/-! ## The session -/

/-- The invariant of a session in synchronisation. -/
structure Synchronised (payloads : List (List UInt8)) (r : Receiver) : Prop where
  valid : r.recvQ.Valid
  boundary : AtBoundary payloads r

theorem synchronised_accepted (memory : Int → UInt8) (payloads : List (List UInt8)) :
    Synchronised payloads (Receiver.accepted memory payloads) where
  valid := RingBuffer.new_valid memory
  boundary := ⟨payloads, (List.mem_tails _ _).mpr (List.suffix_refl _), rfl⟩

/-- The contents branch keeps the boundary. -/
theorem recvAll_contents_boundary {payloads : List (List UInt8)}
    (hsize : ∀ payload ∈ payloads, PayloadSize payload) {rb : RingBuffer} {incoming : List UInt8}
    (h : rb.Valid) (hb : ∃ left ∈ payloads.tails, rb.content ++ incoming = stream left) :
    (recvAll .contents rb).1.Valid ∧
      ∃ left ∈ payloads.tails, (recvAll .contents rb).1.content ++ incoming = stream left := by
  refine recvLoop_invariant (P := fun bytes =>
    ∃ left ∈ payloads.tails, bytes ++ incoming = stream left) ?_ _ rb h hb
  rintro bytes hgo ⟨left, hleft, heq⟩
  have hsuffix := (List.mem_tails left payloads).mp hleft
  obtain ⟨payload, rest, rfl, hrest⟩ :=
    contents_takes_frame (fun payload hp => hsize payload (hsuffix.subset hp)) heq hgo
  exact ⟨rest, (List.mem_tails rest payloads).mpr ((List.suffix_cons payload rest).trans hsuffix),
    hrest⟩

/-- A completion keeps the session in synchronisation, if it finds no complete frame
outside a contents. -/
theorem recvStep_synchronised {registered : Int → Bool} {payloads : List (List UInt8)}
    (hsize : ∀ payload ∈ payloads, PayloadSize payload) {r r' : Receiver} {call : RecvCall}
    (h : Synchronised payloads r) (hidle : IdleOutside r call)
    (hstep : recvStep registered r call = some r') : Synchronised payloads r' := by
  obtain ⟨left, hleft, heq⟩ := h.boundary
  unfold recvStep at hstep
  split at hstep
  · rename_i henabled
    obtain ⟨havail, hspace, hnum⟩ := henabled
    obtain ⟨hv, hc⟩ := moveRear_arrived h.valid havail hspace
    have hall : ((deliver r.recvQ (r.incoming.take call.cbTransferred)).moveRear
        call.cbTransferred).content ++ r.incoming.drop call.cbTransferred = stream left := by
      rw [hc, List.append_assoc, List.take_append_drop, heq]
    have houtside : call.contentsNum = 0 ∨ call.contentsNum = CONMOV →
        ∀ branch : RecvBranch, branch ≠ .contents →
          recvAll branch ((deliver r.recvQ (r.incoming.take call.cbTransferred)).moveRear
            call.cbTransferred) =
          ((deliver r.recvQ (r.incoming.take call.cbTransferred)).moveRear
            call.cbTransferred, []) := by
      intro hout branch hbranch
      refine recvAll_of_stuck hv ?_
      have hinc := hidle hout
      rw [← hc] at hinc
      cases branch with
      | noContents => exact hinc
      | contents => exact absurd rfl hbranch
      | moving => exact hinc
    rw [Option.some.injEq] at hstep
    subst hstep
    unfold recvCompletion
    by_cases hzero : call.contentsNum = 0
    · simp only [hzero, if_true]
      rw [houtside (Or.inl hzero) .noContents (by decide)]
      exact ⟨hv, left, hleft, hall⟩
    · by_cases hmove : call.contentsNum = CONMOV
      · simp only [hmove, if_false, ne_eq, not_true]
        rw [if_neg (by decide), houtside (Or.inr hmove) .moving (by decide)]
        exact ⟨hv, left, hleft, hall⟩
      · have hreg : registered call.contentsNum = true := by
          rcases hnum with h | h | h
          · exact absurd h hzero
          · exact absurd h hmove
          · exact h
        simp only [hzero, hmove, hreg, if_false, if_true, ne_eq, not_false_iff]
        obtain ⟨hv', hb⟩ := recvAll_contents_boundary hsize hv ⟨left, hleft, hall⟩
        exact ⟨hv', hb⟩
  · simp at hstep

/-- **A session keeps its frame boundary** over every sequence of completions, in
whatever chunks the frames arrive and however the session moves between contents, if
the completions outside a contents find no complete frame. -/
theorem recvCompletion_at_boundary (registered : Int → Bool) (memory : Int → UInt8)
    (payloads : List (List UInt8)) (hsize : ∀ payload ∈ payloads, PayloadSize payload)
    (calls : List RecvCall)
    (hidle : Along (recvStep registered) IdleOutside (Receiver.accepted memory payloads) calls)
    (r : Receiver)
    (hrun : exec (recvStep registered) (Receiver.accepted memory payloads) calls = some r) :
    AtBoundary payloads r :=
  (exec_invariant_along (fun _ _ _ h hok hs => recvStep_synchronised hsize h hok hs)
    (synchronised_accepted memory payloads) hidle hrun).boundary

/-- One byte of payload, received while the session is between two contents. -/
def movedFrame : List RecvCall := [⟨3, CONMOV⟩]

/-- **A frame received during a move loses its last byte to the next frame.** -/
theorem movedFrame_not_at_boundary :
    ∃ r, exec (recvStep fun n => n = 1) (Receiver.accepted (fun _ => 0) [[5], [6]]) movedFrame =
        some r ∧
      ¬ AtBoundary [[5], [6]] r := by
  refine ⟨_, rfl, ?_⟩
  decide +kernel

/-- The same two frames, the first split and its head received during the move. -/
def splitFrame : List RecvCall := [⟨1, CONMOV⟩, ⟨4, 1⟩, ⟨1, 1⟩]

theorem splitFrame_at_boundary :
    ∃ r, exec (recvStep fun n => n = 1) (Receiver.accepted (fun _ => 0) [[5], [6]]) splitFrame =
        some r ∧ AtBoundary [[5], [6]] r := by
  refine ⟨_, rfl, ?_⟩
  refine recvCompletion_at_boundary (fun n => n = 1) (fun _ => 0) [[5], [6]] ?_ splitFrame ?_ _ rfl
  · simp [PayloadSize]
  · refine ⟨by decide +kernel, fun t ht => ?_⟩
    cases ht
    refine ⟨by decide +kernel, fun t ht => ?_⟩
    cases ht
    exact ⟨by decide +kernel, fun _ _ => trivial⟩

end SessionServer.ContentLib
