/-
  Common/RingResize.lean --- `RingBuffer::Resize`.

  `Resize` moves the bytes to the start of a new allocation and leaves `_size` alone.  The
  ring goes on as a queue of the capacity it had, in an allocation that is larger or smaller
  than the indices run; it is a queue of the new capacity only where the two sizes agree.
-/
import SessionServer.Common.RingQueue

set_option autoImplicit false

namespace SessionServer.Common

open SessionServer.Foundation

/-- The segments lie in an allocation of `n` bytes. -/
def WithinBytes (n : Int) (segments : List (Int × Int)) : Prop :=
  ∀ segment ∈ segments, 0 ≤ segment.1 ∧ 0 ≤ segment.2 ∧ segment.1 + segment.2 ≤ n

/-- **A queue in `n` bytes**: every sequence of calls is answered as by a queue of capacity
`n - 1`, and every call on the way copies within the `n` bytes. -/
structure QueueIn (n : Int) (rb : RingBuffer) (queue : List UInt8) : Prop where
  answered : ∀ calls, answers RingBuffer.call rb calls = answers (queueCall (n - 1)) queue calls
  within : ∀ calls call, WithinBytes n ((after RingBuffer.call rb calls).touched call)

/-- What `Resize(n)` is for, from `rb` to `rb'`. -/
structure Resized (n : Int) (rb rb' : RingBuffer) : Prop where
  content : rb'.content = rb.content
  bufferSize : rb'.getBufferSize = n - 1
  later : QueueIn n rb' rb.content

theorem Holds.queueIn {size : Int} {rb : RingBuffer} {queue : List UInt8}
    (h : Holds size rb queue) : QueueIn size rb queue where
  answered calls := (ring_simulates size).answers_eq h calls
  within calls call := by
    have hafter := (ring_simulates size).after h calls
    have hwithin := hafter.valid.touched_inArray call
    rwa [RingBuffer.InArray, hafter.size_eq] at hwithin

/-- `Resize` never comes to its `DebugBreak`. -/
theorem RingBuffer.copied_used (rb : RingBuffer) : rb.copied rb.getUsedSize = rb.getUsedSize := by
  rw [copied, if_pos le_rfl]

namespace RingBuffer.Valid

variable {rb : RingBuffer}

/-- **`Resize` keeps the bytes**, and the ring is one of the old size. -/
theorem resize_holds (h : rb.Valid) (memory : Int → UInt8) :
    Holds rb.size (rb.resize memory) rb.content := by
  have hused := h.used_nonneg
  have hlt := h.used_lt
  have hlength := h.content_length
  have hbytes : (rb.dequeue rb.getUsedSize).2 = rb.content := by
    have htaken := (h.dequeue_content rb.getUsedSize.toNat).2.2
    rwa [Int.toNat_of_nonneg hused, List.take_of_length_le (by omega)] at htaken
  have hvalid : (rb.resize memory).Valid := by
    refine ⟨h.size_ge, le_rfl, ?_, ?_, ?_⟩
    · show (0 : Int) < rb.size
      omega
    · show 0 ≤ rb.copied rb.getUsedSize
      rw [rb.copied_used]
      exact hused
    · show rb.copied rb.getUsedSize < rb.size
      rw [rb.copied_used]
      exact hlt
  have hsame : (rb.resize memory).getUsedSize = rb.getUsedSize := by
    have hstraight : (rb.resize memory).front ≤ (rb.resize memory).rear := hvalid.rear_nonneg
    rw [getUsedSize, if_pos hstraight]
    show rb.copied rb.getUsedSize - 0 = _
    rw [rb.copied_used, Int.sub_zero]
  refine ⟨hvalid, rfl, List.ext_getElem ?_ fun i h₁ h₂ => ?_⟩
  · have hresized := hvalid.content_length
    omega
  · have hi : (i : Int) < rb.size := by omega
    simp only [content, List.getElem_map, List.getElem_range]
    rw [hvalid.byteAt_eq hi]
    have hzero : (rb.resize memory).front = 0 := rfl
    have hsize : (rb.resize memory).size = rb.size := rfl
    rw [hzero, hsize, if_pos (by omega)]
    show writeBytes memory 0 (rb.dequeue rb.getUsedSize).2 (0 + i) = _
    rw [hbytes, writeBytes_of_lt h₂]
    simp only [content, List.getElem_map, List.getElem_range]

/-- No queue has two capacities: an `Enqueue` that fills the larger one tells them apart. -/
theorem queueIn_size {n : Int} {queue : List UInt8} (hold : Holds rb.size rb queue)
    (hroom : (queue.length : Int) < n) (hqueue : QueueIn n rb queue) : n = rb.size := by
  have hvalid := hold.valid
  have hlt := hvalid.used_lt
  have hlength := hvalid.content_length
  rw [hold.content_eq] at hlength
  have hagree : ∀ data : List UInt8,
      (queueCall (rb.size - 1) queue (.enqueue data)).2 =
        (queueCall (n - 1) queue (.enqueue data)).2 := by
    intro data
    have hboth := (hold.queueIn.answered [.enqueue data]).symm.trans
      (hqueue.answered [.enqueue data])
    exact (List.cons.inj hboth).1
  by_contra hne
  have hfill := hagree (List.replicate (max n rb.size - 1 - queue.length).toNat 0)
  have hmax : ((max n rb.size - 1 - queue.length).toNat : Int) =
      max n rb.size - 1 - queue.length := by omega
  simp only [queueCall, List.length_replicate, hmax] at hfill
  rcases lt_or_gt_of_ne hne with hless | hmore
  · rw [if_pos (by omega), if_neg (by omega)] at hfill
    have := congrArg Prod.fst hfill
    simp only at this
    omega
  · rw [if_neg (by omega), if_pos (by omega)] at hfill
    have := congrArg Prod.fst hfill
    simp only at this
    omega

end RingBuffer.Valid

/-- **When `Resize` leaves a queue of the new size**: where that is the old one.  The bytes
are kept in any case, `GetBufferSize` and the capacity are the old ones. -/
theorem resize_iff (rb : RingBuffer) (memory : Int → UInt8) (n : Int) (h : rb.Valid)
    (hroom : rb.getUsedSize < n) :
    (Resized n rb (rb.resize memory) ↔ n = rb.size) ∧
      (rb.resize memory).content = rb.content ∧
      ((rb.resize memory).getBufferSize = n - 1 ↔ n = rb.size) ∧
      (QueueIn n (rb.resize memory) rb.content ↔ n = rb.size) := by
  have hold := h.resize_holds memory
  have hlength := h.content_length
  have hbuffer : (rb.resize memory).getBufferSize = n - 1 ↔ n = rb.size := by
    show rb.size - 1 = n - 1 ↔ n = rb.size
    omega
  have hqueue : QueueIn n (rb.resize memory) rb.content ↔ n = rb.size := by
    constructor
    · exact RingBuffer.Valid.queueIn_size hold (by omega)
    · rintro rfl
      exact hold.queueIn
  refine ⟨⟨fun hresized => hbuffer.mp hresized.bufferSize, fun heq => ?_⟩, hold.content_eq,
    hbuffer, hqueue⟩
  exact ⟨hold.content_eq, hbuffer.mpr heq, hqueue.mpr heq⟩

/-- A ring of four bytes that wraps around, to be resized. -/
def wrapped : RingBuffer :=
  after RingBuffer.call (RingBuffer.ofSize (fun _ => 0) 4)
    [.enqueue [1, 2, 3], .dequeue 2, .enqueue [4, 5]]

theorem wrapped_resized :
    (Resized 4 wrapped (wrapped.resize fun _ => 0) ↔ (4 : Int) = wrapped.size) ∧
      (wrapped.resize fun _ => 0).content = wrapped.content ∧
      ((wrapped.resize fun _ => 0).getBufferSize = 4 - 1 ↔ (4 : Int) = wrapped.size) ∧
      (QueueIn 4 (wrapped.resize fun _ => 0) wrapped.content ↔ (4 : Int) = wrapped.size) :=
  resize_iff wrapped (fun _ => 0) 4 (by constructor <;> decide) (by decide)

/-- After `Resize(8)` the ring still takes three bytes only. -/
theorem wrapped_not_enlarged :
    wrapped.Valid ∧ wrapped.getUsedSize = 3 ∧ (wrapped.resize fun _ => 0).getBufferSize = 3 ∧
      answers RingBuffer.call (wrapped.resize fun _ => 0) [.enqueue [6]] = [(0, [])] ∧
      ¬ Resized 8 wrapped (wrapped.resize fun _ => 0) := by
  refine ⟨by constructor <;> decide, by decide, by decide, by decide, fun h => ?_⟩
  have hbuffer := h.bufferSize
  revert hbuffer
  decide

end SessionServer.Common
