/-
  ContentLib/FrameStream.lean --- framing is independent of the segmentation.

  The frames of a LAN session are a framing in the sense of `Foundation.Framing`, and the
  loop of the contents branch on the ring takes frames as its decoder does.  A session that
  stays in a contents thus hands over the payloads in order and keeps less than a frame.
-/
import SessionServer.ContentLib.FrameRun
import SessionServer.Foundation.Framing

set_option autoImplicit false

namespace SessionServer.ContentLib

open SessionServer.Common SessionServer.Foundation

/-! ## The framing -/

/-- The payloads a LAN frame can carry. -/
abbrev Payload := { payload : List UInt8 // PayloadSize payload }

instance (branch : RecvBranch) (bytes : List UInt8) : Decidable (branch.Stuck bytes) :=
  inferInstanceAs (Decidable (_ ∨ _))

/-- The payload of the frame at the front of the bytes. -/
def payloadOf (bytes : List UInt8) : List UInt8 :=
  (bytes.take (RecvBranch.contents.frameSize (LanHEADER.ofBytes bytes))).drop LanHEADER.size

theorem payloadOf_size {bytes : List UInt8} (h : ¬ RecvBranch.contents.Stuck bytes) :
    PayloadSize (payloadOf bytes) := by
  simp only [RecvBranch.Stuck, not_or, not_lt] at h
  have hlen := (LanHEADER.ofBytes bytes).len.toNat_lt
  have hlength : (payloadOf bytes).length = (LanHEADER.ofBytes bytes).len.toNat + 1 := by
    rw [payloadOf, List.length_drop, List.length_take, Nat.min_eq_left h.2]
    simp only [RecvBranch.frameSize]
    omega
  exact ⟨by omega, by omega⟩

theorem stuck_of_cut {payload part : List UInt8} (h : PayloadSize payload)
    (hpre : part <+: setBufferHeader payload) (hne : part ≠ setBufferHeader payload) :
    RecvBranch.contents.Stuck part := by
  obtain ⟨more, hmore⟩ := hpre
  by_cases hheader : part.length < LanHEADER.size
  · exact Or.inl hheader
  · -- The header has arrived, and the frame is longer than what is there.
    refine Or.inr ?_
    have hsize := contents_frameSize h []
    rw [List.append_nil, ← hmore, LanHEADER.ofBytes_append (by omega)] at hsize
    rw [hsize, List.length_append]
    have hpos : more.length ≠ 0 := by
      intro hnil
      rw [List.length_eq_zero_iff.mp hnil, List.append_nil] at hmore
      exact hne hmore
    omega

theorem not_stuck_of_frame {payload : List UInt8} (h : PayloadSize payload) (rest : List UInt8) :
    ¬ RecvBranch.contents.Stuck (setBufferHeader payload ++ rest) := by
  rw [RecvBranch.Stuck, contents_frameSize h rest, List.length_append]
  simp only [setBufferHeader, List.length_cons, LanHEADER.size]
  omega

/-- **The frames of `SetBufferHeader`**, taken as the contents branch takes them. -/
def lanFraming : Framing Payload UInt8 where
  encode payload := setBufferHeader payload.val
  decode bytes :=
    if h : RecvBranch.contents.Stuck bytes then none
    else some (⟨payloadOf bytes, payloadOf_size h⟩,
      bytes.drop (RecvBranch.contents.frameSize (LanHEADER.ofBytes bytes)))
  decode_encode := by
    rintro ⟨payload, hsize⟩ rest
    rw [dif_neg (not_stuck_of_frame hsize rest)]
    have hpayload : payloadOf (setBufferHeader payload ++ rest) = payload := by
      rw [payloadOf, contents_frameSize hsize rest, List.take_left]
      rfl
    simp only [hpayload, contents_frameSize hsize rest, List.drop_left]
  decode_partial := by
    rintro ⟨payload, hsize⟩ part hpre hne
    exact dif_pos (stuck_of_cut hsize hpre hne)
  decode_nil := dif_pos (Or.inl (by simp [LanHEADER.size]))

theorem lanFraming_stream (payloads : List Payload) :
    lanFraming.stream payloads = stream (payloads.map Subtype.val) := by
  rw [Framing.stream, stream, List.flatMap_map]
  rfl

theorem unfinished_length_lt {bytes : List UInt8} {left : List Payload}
    (h : lanFraming.Unfinished bytes left) : bytes.length < 258 := by
  cases left with
  | nil =>
      rw [show bytes = [] from h]
      simp
  | cons payload left =>
      obtain ⟨⟨more, hmore⟩, hne⟩ := h
      have hsize := payload.property.2
      have hlength : bytes.length + more.length = payload.val.length + 2 := by
        rw [← List.length_append, hmore]
        rfl
      have hpos : more.length ≠ 0 := by
        intro hnil
        rw [List.length_eq_zero_iff.mp hnil, List.append_nil] at hmore
        exact hne hmore
      omega

/-! ## The ring -/

/-- **The loop of the contents branch takes frames as the decoder does.** -/
theorem recvLoop_parses :
    ∀ (fuel : Nat) (rb : RingBuffer), rb.Valid → rb.content.length ≤ fuel →
      ∃ taken, lanFraming.Parses rb.content taken (recvLoop .contents fuel rb).1.content ∧
        (recvLoop .contents fuel rb).2 = taken.map Subtype.val ∧
        (recvLoop .contents fuel rb).1.Valid ∧ (recvLoop .contents fuel rb).1.size = rb.size := by
  intro fuel
  induction fuel with
  | zero =>
      intro rb h hfuel
      have hnil : rb.content = [] := List.length_eq_zero_iff.mp (by omega)
      exact ⟨[], .wait (by rw [hnil]; exact lanFraming.decode_nil), rfl, h, rfl⟩
  | succ fuel ih =>
      intro rb h hfuel
      rcases RecvBranch.recvLoop_succ .contents h fuel with
        ⟨hstuck, hstop⟩ | ⟨hgo, next, handed, hconsume, hv, hc, heq⟩
      · rw [hstop]
        exact ⟨[], .wait (dif_pos hstuck), rfl, h, rfl⟩
      · have hsize := RecvBranch.size_le_frameSize .contents (LanHEADER.ofBytes rb.content)
        simp only [LanHEADER.size] at hsize
        obtain ⟨taken, hparses, htaken, hvalid, hring⟩ := ih next hv (by
          rw [hc, List.length_drop]
          omega)
        have hwhole : ¬ RecvBranch.contents.Stuck rb.content := hgo
        simp only [RecvBranch.Stuck, not_or, not_lt] at hgo
        have hlength := h.content_length
        have hspec := h.dequeue_spec
          (n := RecvBranch.contents.frameSize (LanHEADER.ofBytes rb.content)) (by omega)
        simp only [RecvBranch.consume, Prod.mk.injEq] at hconsume
        obtain ⟨rfl, rfl⟩ := hconsume
        rw [heq]
        refine ⟨⟨payloadOf rb.content, payloadOf_size hwhole⟩ :: taken, ?_, ?_, hvalid, ?_⟩
        · refine .take (dif_neg hwhole) ?_
          rw [← hc]
          exact hparses
        · rw [htaken, hspec.2.2]
          rfl
        · rw [hring, RingBuffer.dequeue_size]

theorem recvAll_parses {rb : RingBuffer} (h : rb.Valid) :
    ∃ taken, lanFraming.Parses rb.content taken (recvAll .contents rb).1.content ∧
      (recvAll .contents rb).2 = taken.map Subtype.val ∧ (recvAll .contents rb).1.Valid ∧
      (recvAll .contents rb).1.size = rb.size := by
  have hlength := h.content_length
  exact recvLoop_parses _ rb h (by omega)

/-- With less than a frame in the ring, `RecvPost` has room to offer. -/
theorem recvSpace_pos {rb : RingBuffer} (h : rb.Valid) (hroom : rb.getUsedSize < rb.size - 1) :
    0 < recvSpace rb := by
  have := h.front_nonneg
  have := h.front_lt
  have := h.rear_nonneg
  have := h.rear_lt
  unfold recvSpace recvSegments
  split
  · simp only [List.map_cons, List.map_nil, List.sum_cons, List.sum_nil]
    unfold RingBuffer.directEnqueueSize
    unfold RingBuffer.getUsedSize at hroom
    split at hroom <;> split <;> (try split) <;> omega
  · simp only [List.map_cons, List.map_nil, List.sum_cons, List.sum_nil, RingBuffer.getFreeSize]
    omega

/-! ## The session -/

/-- **A session in step with its stream**: the payloads handed over are the first ones, and
the ring holds what has arrived of the frame of the next one. -/
structure InStep (payloads : List Payload) (r : Receiver) : Prop where
  valid : r.recvQ.Valid
  size : r.recvQ.size = DEFAULT_BUFFER_SIZE
  split : ∃ done left, payloads = done ++ left ∧ r.handed = done.map Subtype.val ∧
    r.recvQ.content ++ r.incoming = stream (left.map Subtype.val) ∧
    lanFraming.Unfinished r.recvQ.content left

theorem inStep_accepted (memory : Int → UInt8) (payloads : List Payload) :
    InStep payloads (Receiver.accepted memory (payloads.map Subtype.val)) where
  valid := RingBuffer.new_valid memory
  size := rfl
  split := by
    refine ⟨[], payloads, rfl, rfl, rfl, ?_⟩
    have hnil : (Receiver.accepted memory (payloads.map Subtype.val)).recvQ.content = [] := rfl
    rw [hnil]
    cases payloads with
    | nil => rfl
    | cons payload payloads =>
        exact ⟨List.nil_prefix, fun heq => by simp [lanFraming, setBufferHeader] at heq⟩

/-- A completion in a registered contents. -/
theorem InStep.step {registered : Int → Bool} {payloads : List Payload} {r r' : Receiver}
    {call : RecvCall} (h : InStep payloads r) (hzero : call.contentsNum ≠ 0)
    (hmove : call.contentsNum ≠ CONMOV) (hstep : recvStep registered r call = some r') :
    InStep payloads r' := by
  obtain ⟨done, left, rfl, hhanded, hall, _⟩ := h.split
  unfold recvStep at hstep
  split at hstep
  · rename_i henabled
    obtain ⟨havail, hspace, hnum⟩ := henabled
    have hreg : registered call.contentsNum = true := by
      rcases hnum with hnum | hnum | hnum
      · exact absurd hnum hzero
      · exact absurd hnum hmove
      · exact hnum
    obtain ⟨hv, hc⟩ := moveRear_arrived h.valid havail hspace
    rw [Option.some.injEq] at hstep
    subst hstep
    simp only [recvCompletion, hzero, hmove, hreg, if_false, if_true, ne_eq, not_false_iff]
    obtain ⟨taken, hparses, htaken, hvalid, hsize⟩ := recvAll_parses hv
    have harrived : ((deliver r.recvQ (r.incoming.take call.cbTransferred)).moveRear
        call.cbTransferred).content ++ r.incoming.drop call.cbTransferred =
          lanFraming.stream left := by
      rw [hc, List.append_assoc, List.take_append_drop, hall, lanFraming_stream]
    obtain ⟨later, rfl, hlast, hunfinished⟩ := hparses.split harrived
    refine ⟨hvalid, ?_, done ++ taken, later, by simp, ?_, ?_, hunfinished⟩
    · rw [hsize, RingBuffer.moveRear_size]
      exact h.size
    · rw [htaken, hhanded, List.map_append]
    · rw [hlast, lanFraming_stream]
  · simp at hstep

/-- **Framing is independent of the segmentation.**  Whatever chunks the stream of the
frames arrives in, a session that stays in a registered contents has handed over the first
payloads, in order and each once; its ring holds what has arrived of the next frame, less
than 258 bytes, and `RecvPost` has room to offer.  Once all has arrived, all payloads have
been handed over and the ring is empty. -/
theorem framing_independent_of_chunks (registered : Int → Bool) (contentsNum : Int)
    (hzero : contentsNum ≠ 0) (hmove : contentsNum ≠ CONMOV) (memory : Int → UInt8)
    (payloads : List Payload) (calls : List RecvCall)
    (hstays : ∀ call ∈ calls, call.contentsNum = contentsNum) (r : Receiver)
    (hrun : exec (recvStep registered)
      (Receiver.accepted memory (payloads.map Subtype.val)) calls = some r) :
    InStep payloads r ∧ r.recvQ.content.length < 258 ∧ 0 < recvSpace r.recvQ ∧
      (r.incoming = [] → r.handed = payloads.map Subtype.val ∧ r.recvQ.content = []) := by
  have halong : Along (recvStep registered) (fun _ call => call.contentsNum = contentsNum)
      (Receiver.accepted memory (payloads.map Subtype.val)) calls :=
    along_of_invariant (I := fun _ => True) (fun _ _ _ hcall => hcall) (fun _ _ _ _ _ _ => trivial)
      trivial hstays
  have h : InStep payloads r := exec_invariant_along
    (fun _ call _ h hcall hstep => h.step (hcall ▸ hzero) (hcall ▸ hmove) hstep)
    (inStep_accepted memory payloads) halong hrun
  obtain ⟨done, left, hpayloads, hhanded, hall, hunfinished⟩ := h.split
  have hlength := unfinished_length_lt hunfinished
  refine ⟨h, hlength, recvSpace_pos h.valid ?_, fun hend => ?_⟩
  · have hused := h.valid.content_length
    rw [h.size, DEFAULT_BUFFER_SIZE]
    omega
  · rw [hend, List.append_nil, ← lanFraming_stream] at hall
    obtain ⟨rfl, hnil⟩ := hunfinished.nil_of_eq hall
    rw [List.append_nil] at hpayloads
    exact ⟨by rw [hhanded, hpayloads], hnil⟩

/-- Two frames, cut inside the first header and inside the second payload. -/
def cutFrames : List RecvCall := [⟨1, 1⟩, ⟨5, 1⟩, ⟨1, 1⟩]

theorem cutFrames_handed :
    ∃ r, exec (recvStep fun n => n = 1) (Receiver.accepted (fun _ => 0) [[5], [6, 7]]) cutFrames =
        some r ∧ r.handed = [[5], [6, 7]] ∧ r.recvQ.content = [] := by
  have hrun : ∃ r ∈ exec (recvStep fun n => n = 1) (Receiver.accepted (fun _ => 0) [[5], [6, 7]])
      cutFrames, r.incoming = [] := by
    decide +kernel
  obtain ⟨r, hr, hend⟩ := hrun
  have hframing := framing_independent_of_chunks (fun n => n = 1) 1 (by decide) (by decide)
    (fun _ => 0) [⟨[5], by simp [PayloadSize]⟩, ⟨[6, 7], by simp [PayloadSize]⟩] cutFrames
    (by simp [cutFrames]) r hr
  exact ⟨r, hr, hframing.2.2.2 hend⟩

end SessionServer.ContentLib
