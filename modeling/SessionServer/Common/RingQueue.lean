/-
  Common/RingQueue.lean --- the ring is a bounded queue.

  Any sequence of calls of a `RingBuffer` answers as a queue of bytes does that holds one
  byte less than the ring has, and every copy stays within the allocated memory.
-/
import SessionServer.Common.RingBuffer
import SessionServer.Foundation.Simulation

set_option autoImplicit false

namespace SessionServer.Common

open SessionServer.Foundation

/-! ## Calls -/

/-- A call of the queue operations, with the data or the size it passes. -/
inductive RingCall where
  | enqueue (data : List UInt8)
  | dequeue (size : Nat)
  | peek (size : Nat)
  | clearBuffer
  deriving DecidableEq

/-- What a call returns, and the bytes it copies to the caller. -/
abbrev RingAnswer := Int × List UInt8

namespace RingBuffer

def call (rb : RingBuffer) : RingCall → RingBuffer × RingAnswer
  | .enqueue data => ((rb.enqueue data).1, (rb.enqueue data).2, [])
  | .dequeue size => ((rb.dequeue size).1, rb.copied size, (rb.dequeue size).2)
  | .peek size => (rb, rb.copied size, rb.peek size)
  | .clearBuffer => (rb.clearBuffer, 0, [])

/-- The memory a call copies to or from, as `(start, length)` pairs. -/
def touched (rb : RingBuffer) : RingCall → List (Int × Int)
  | .enqueue data =>
      if rb.getFreeSize ≥ data.length then rb.enqueueSegments data.length else []
  | .dequeue size => rb.copySegments size
  | .peek size => rb.copySegments size
  | .clearBuffer => []

/-- The segments lie in the allocated memory. -/
def InArray (rb : RingBuffer) (segments : List (Int × Int)) : Prop :=
  ∀ segment ∈ segments, 0 ≤ segment.1 ∧ 0 ≤ segment.2 ∧ segment.1 + segment.2 ≤ rb.size

end RingBuffer

/-- A queue of at most `capacity` bytes. -/
def queueCall (capacity : Int) (queue : List UInt8) : RingCall → List UInt8 × RingAnswer
  | .enqueue data =>
      if (queue.length + data.length : Int) ≤ capacity then (queue ++ data, data.length, [])
      else (queue, 0, [])
  | .dequeue size => (queue.drop size, min size queue.length, queue.take size)
  | .peek size => (queue, min size queue.length, queue.take size)
  | .clearBuffer => ([], 0, [])

/-! ## One call -/

namespace RingBuffer.Valid

variable {rb : RingBuffer}

theorem enqueue_fits (h : rb.Valid) {data : List UInt8}
    (hfit : (data.length : Int) ≤ rb.getFreeSize) :
    (rb.enqueue data).1.Valid ∧ (rb.enqueue data).1.content = rb.content ++ data := by
  have hrear := h.rear_lt
  have hfront := h.front_lt
  rw [enqueue, if_pos hfit]
  -- The straight copies are a split behind the data.
  have hstraight : scatter rb.buffer [(rb.rear, (data.length : Int))] data =
      splitWrite rb data.length data := by
    rw [splitWrite, List.drop_length, writeBytes_nil]
    rfl
  unfold enqueueSegments
  split
  · rename_i hlt
    rw [hstraight]
    refine h.advance_splitWrite hfit (Or.inl ⟨le_rfl, ?_⟩)
    unfold getFreeSize getUsedSize at hfit
    split at hfit <;> omega
  · split
    · rename_i hroom
      rw [hstraight]
      exact h.advance_splitWrite hfit (Or.inl ⟨le_rfl, by omega⟩)
    · rename_i hwrap
      have hscatter : scatter rb.buffer
          [(rb.rear, rb.size - rb.rear), (0, data.length - (rb.size - rb.rear))] data =
            splitWrite rb (rb.size - rb.rear).toNat data := by
        have hrest : (data.drop (rb.size - rb.rear).toNat).take
            (data.length - (rb.size - rb.rear)).toNat = data.drop (rb.size - rb.rear).toNat := by
          apply List.take_of_length_le
          rw [List.length_drop]
          omega
        simp only [scatter, hrest, splitWrite]
      rw [hscatter]
      exact h.advance_splitWrite hfit (Or.inr (by omega))

theorem copied_eq (h : rb.Valid) (n : Nat) : rb.copied n = min (n : Int) rb.content.length := by
  have hlen := h.content_length
  unfold copied
  split
  · omega
  · split <;> omega

theorem free_eq (h : rb.Valid) : rb.getFreeSize = rb.size - 1 - rb.content.length := by
  have hlen := h.content_length
  unfold getFreeSize
  omega

theorem clearBuffer_spec (h : rb.Valid) :
    rb.clearBuffer.Valid ∧ rb.clearBuffer.content = [] := by
  have hsize := h.size_ge
  refine ⟨⟨hsize, le_rfl, ?_, le_rfl, ?_⟩, ?_⟩
  · show (0 : Int) < rb.size
    omega
  · show (0 : Int) < rb.size
    omega
  · simp [content, getUsedSize, clearBuffer]

/-- **Every copy stays within the array.** -/
theorem touched_inArray (h : rb.Valid) (call : RingCall) : rb.InArray (rb.touched call) := by
  have := h.front_nonneg
  have := h.front_lt
  have := h.rear_nonneg
  have := h.rear_lt
  have hcopy : ∀ n : Nat, rb.InArray (rb.copySegments n) := by
    intro n segment hmem
    have hused := h.used_nonneg
    unfold copySegments at hmem
    unfold getUsedSize at hmem hused
    split_ifs at * <;> simp only [List.mem_cons, List.not_mem_nil, or_false] at hmem
    all_goals
      rcases hmem with rfl | rfl <;> constructor <;> dsimp only <;> omega
  cases call with
  | enqueue data =>
      intro segment hmem
      simp only [touched] at hmem
      split at hmem
      · rename_i hfit
        unfold getFreeSize getUsedSize at hfit
        unfold enqueueSegments at hmem
        split_ifs at * <;> simp only [List.mem_cons, List.not_mem_nil, or_false] at hmem
        all_goals
          rcases hmem with rfl | rfl <;> constructor <;> dsimp only <;> omega
      · exact absurd hmem List.not_mem_nil
  | dequeue size => exact hcopy size
  | peek size => exact hcopy size
  | clearBuffer => exact fun _ hmem => absurd hmem List.not_mem_nil

end RingBuffer.Valid

/-! ## Whole runs -/

/-- The ring holds the bytes of the queue. -/
structure Holds (size : Int) (rb : RingBuffer) (queue : List UInt8) : Prop where
  valid : rb.Valid
  size_eq : rb.size = size
  content_eq : rb.content = queue

theorem Holds.ofSize (memory : Int → UInt8) {size : Int} (hsize : 2 ≤ size) :
    Holds size (RingBuffer.ofSize memory size) [] where
  valid := by constructor <;> simp only [RingBuffer.ofSize] <;> omega
  size_eq := rfl
  content_eq := rfl

/-- **One call** answers as the queue does. -/
theorem ring_simulates (size : Int) :
    Simulates RingBuffer.call (queueCall (size - 1)) (Holds size) := by
  rintro rb queue call ⟨h, hsize, rfl⟩
  have hfree := h.free_eq
  cases call with
  | enqueue data =>
      by_cases hfit : (data.length : Int) ≤ rb.getFreeSize
      · obtain ⟨hvalid, hcontent⟩ := h.enqueue_fits hfit
        have hqueue : (rb.content.length + data.length : Int) ≤ size - 1 := by omega
        have hreturn : rb.enqueue data = ((rb.enqueue data).1, (data.length : Int)) := by
          rw [RingBuffer.enqueue, if_pos hfit]
        rw [queueCall, if_pos hqueue]
        refine ⟨by rw [RingBuffer.call, hreturn], hvalid, ?_, hcontent⟩
        rw [RingBuffer.call, RingBuffer.enqueue, if_pos hfit]
        exact hsize
      · have hqueue : ¬ (rb.content.length + data.length : Int) ≤ size - 1 := by omega
        rw [queueCall, if_neg hqueue, RingBuffer.call, RingBuffer.enqueue, if_neg hfit]
        exact ⟨rfl, h, hsize, rfl⟩
  | dequeue n =>
      obtain ⟨hvalid, hcontent, hbytes⟩ := h.dequeue_content n
      refine ⟨?_, hvalid, (rb.dequeue_size n).trans hsize, hcontent⟩
      simp only [RingBuffer.call, queueCall, h.copied_eq, hbytes]
  | peek n =>
      refine ⟨?_, h, hsize, rfl⟩
      simp only [RingBuffer.call, queueCall, h.copied_eq, h.peek_content]
  | clearBuffer =>
      obtain ⟨hvalid, hcontent⟩ := h.clearBuffer_spec
      exact ⟨rfl, hvalid, hsize, hcontent⟩

/-- **The ring refines a bounded queue**: after any calls it has answered as the queue of
`size - 1` bytes, holds what the queue holds, and the next call copies within the array. -/
theorem ring_refines_queue (memory : Int → UInt8) (size : Int) (hsize : 2 ≤ size)
    (calls : List RingCall) :
    let rb := after RingBuffer.call (RingBuffer.ofSize memory size) calls
    let queue := after (queueCall (size - 1)) [] calls
    answers RingBuffer.call (RingBuffer.ofSize memory size) calls =
        answers (queueCall (size - 1)) [] calls ∧
      rb.content = queue ∧ rb.getUsedSize = queue.length ∧
      rb.getUsedSize + rb.getFreeSize = size - 1 ∧
      ∀ call, rb.InArray (rb.touched call) := by
  have hstart := Holds.ofSize memory hsize
  have hholds := (ring_simulates size).after hstart calls
  obtain ⟨hvalid, hsize', hcontent⟩ := hholds
  refine ⟨(ring_simulates size).answers_eq hstart calls, hcontent, ?_, ?_, ?_⟩
  · rw [← hcontent, hvalid.content_length]
  · unfold RingBuffer.getFreeSize
    omega
  · exact hvalid.touched_inArray

/-- A ring of four bytes that wraps around. -/
theorem fourBytes_refine :
    let calls := [.enqueue [1, 2, 3], .dequeue 2, .enqueue [4, 5], .enqueue [6], .peek 9]
    let rb := after RingBuffer.call (RingBuffer.ofSize (fun _ => 0) 4) calls
    let queue := after (queueCall (4 - 1)) [] calls
    answers RingBuffer.call (RingBuffer.ofSize (fun _ => 0) 4) calls =
        answers (queueCall (4 - 1)) [] calls ∧
      rb.content = queue ∧ rb.getUsedSize = queue.length ∧
      rb.getUsedSize + rb.getFreeSize = 4 - 1 ∧
      ∀ call, rb.InArray (rb.touched call) :=
  ring_refines_queue (fun _ => 0) 4 (by decide) _

example : answers (queueCall 3) []
    [.enqueue [1, 2, 3], .dequeue 2, .enqueue [4, 5], .enqueue [6], .peek 9] =
      [(3, []), (2, [1, 2]), (2, []), (0, []), (3, [3, 4, 5])] := by decide

end SessionServer.Common
