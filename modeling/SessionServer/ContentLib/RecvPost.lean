/-
  ContentLib/RecvPost.lean --- the memory a receive is posted into.

  `ContentsServer::RecvPost` and `CoreClient::DoRecv` hand `WSARecv` one or two segments of
  the ring.  They lie in the array and apart from each other and from the bytes in the ring,
  and what is received into them is appended by `MoveRear`.
-/
import SessionServer.Common.RingQueue
import SessionServer.ContentLib.FrameRun

set_option autoImplicit false

namespace SessionServer.ContentLib

open SessionServer.Common

/-- The segments of `CoreClient::DoRecv`. -/
def CoreClient.recvSegments (rb : RingBuffer) : List (Int × Int) :=
  if rb.getUsedSize = rb.directEnqueueSize then
    [(rb.rear, rb.directEnqueueSize)]
  else
    [(rb.rear, rb.directEnqueueSize), (0, rb.getFreeSize - rb.directEnqueueSize)]

theorem CoreClient.recvSegments_eq (rb : RingBuffer) :
    CoreClient.recvSegments rb = ContentLib.recvSegments rb := rfl

/-- The index lies in the segment. -/
def Within (segment : Int × Int) (x : Int) : Prop :=
  segment.1 ≤ x ∧ x < segment.1 + segment.2

/-- What a receive may be posted into: memory of the array, no byte of it twice, none that
holds a byte of the ring, and no more than is free. -/
structure Postable (rb : RingBuffer) (segments : List (Int × Int)) : Prop where
  inArray : rb.InArray segments
  apart : segments.Pairwise fun a b => ∀ x, ¬ (Within a x ∧ Within b x)
  unused : ∀ segment ∈ segments, ∀ i : Nat, (i : Int) < rb.getUsedSize →
    ¬ Within segment ((rb.front + i) % rb.size)
  total : (segments.map Prod.snd).sum ≤ rb.getFreeSize

/-- Where the free bytes are: before the front, up to the last cell, or up to the end of the
memory and from its start on. -/
theorem free_cases {rb : RingBuffer} (h : rb.Valid) :
    (rb.rear < rb.front ∧ rb.directEnqueueSize = rb.front - rb.rear - 1 ∧
        rb.getFreeSize = rb.directEnqueueSize ∧ rb.getUsedSize = rb.size - rb.front + rb.rear) ∨
      (rb.front ≤ rb.rear ∧ rb.front = 0 ∧ rb.directEnqueueSize = rb.size - rb.rear - 1 ∧
        rb.getFreeSize = rb.directEnqueueSize ∧ rb.getUsedSize = rb.rear) ∨
      (rb.front ≤ rb.rear ∧ 0 < rb.front ∧ rb.directEnqueueSize = rb.size - rb.rear ∧
        rb.getFreeSize = rb.directEnqueueSize + rb.front - 1 ∧
        rb.getUsedSize = rb.rear - rb.front) := by
  have hfront := h.front_nonneg
  unfold RingBuffer.getFreeSize RingBuffer.getUsedSize RingBuffer.directEnqueueSize
  split_ifs <;> omega

/-- A segment is at the rear, or what is left of the free bytes at the start. -/
theorem mem_recvSegments {rb : RingBuffer} {segment : Int × Int}
    (hmem : segment ∈ recvSegments rb) :
    segment = (rb.rear, rb.directEnqueueSize) ∨
      segment = (0, rb.getFreeSize - rb.directEnqueueSize) := by
  unfold recvSegments at hmem
  split at hmem
  · exact Or.inl (List.mem_singleton.mp hmem)
  · simpa only [List.mem_cons, List.not_mem_nil, or_false] using hmem

theorem recvSegments_postable {rb : RingBuffer} (h : rb.Valid) :
    Postable rb (recvSegments rb) := by
  have := h.front_nonneg
  have := h.front_lt
  have := h.rear_nonneg
  have := h.rear_lt
  have hcases := free_cases h
  refine ⟨?_, ?_, ?_, recvSpace_le h⟩
  · intro segment hmem
    rcases mem_recvSegments hmem with rfl | rfl <;> constructor <;> dsimp only <;> omega
  · unfold recvSegments
    split
    · exact List.pairwise_singleton _ _
    · refine List.pairwise_pair.mpr fun x hx => ?_
      unfold Within at hx
      dsimp only at hx
      omega
  · intro segment hmem i hi hwithin
    rw [RingBuffer.wrap_eq (by omega) (by omega)] at hwithin
    unfold Within at hwithin
    rcases mem_recvSegments hmem with rfl | rfl <;> dsimp only at hwithin <;>
      split at hwithin <;> omega

/-- **A receive appends.**  On every valid ring the segments of `RecvPost`, and of `DoRecv`,
may be posted, and once `chunk` has been received into them `MoveRear` makes it the end of
the queue. -/
theorem scatter_receive_appends (rb : RingBuffer) (h : rb.Valid) :
    (Postable rb (recvSegments rb) ∧ Postable rb (CoreClient.recvSegments rb)) ∧
      ∀ chunk : List UInt8, ∀ segments ∈ [recvSegments rb, CoreClient.recvSegments rb],
        (chunk.length : Int) ≤ (segments.map Prod.snd).sum →
          let received := { rb with buffer := scatter rb.buffer segments chunk }
          (received.moveRear chunk.length).Valid ∧
            (received.moveRear chunk.length).content = rb.content ++ chunk := by
  have hpostable := recvSegments_postable h
  refine ⟨⟨hpostable, CoreClient.recvSegments_eq rb ▸ hpostable⟩, ?_⟩
  intro chunk segments hmem hfit
  obtain rfl : segments = recvSegments rb := by
    simpa only [CoreClient.recvSegments_eq, List.mem_cons, List.not_mem_nil, or_false,
      or_self] using hmem
  exact moveRear_deliver h chunk hfit

/-- Eight bytes, of which the last two and the first one are in use. -/
def wrappedRing : RingBuffer := ⟨fun i => UInt8.ofNat i.toNat, 6, 1, 8⟩

theorem wrappedRing_appends :
    (Postable wrappedRing (recvSegments wrappedRing) ∧
        Postable wrappedRing (CoreClient.recvSegments wrappedRing)) ∧
      ∀ chunk : List UInt8,
        ∀ segments ∈ [recvSegments wrappedRing, CoreClient.recvSegments wrappedRing],
          (chunk.length : Int) ≤ (segments.map Prod.snd).sum →
            let received :=
              { wrappedRing with buffer := scatter wrappedRing.buffer segments chunk }
            (received.moveRear chunk.length).Valid ∧
              (received.moveRear chunk.length).content = wrappedRing.content ++ chunk :=
  scatter_receive_appends wrappedRing ⟨by decide, by decide, by decide, by decide, by decide⟩

end SessionServer.ContentLib
