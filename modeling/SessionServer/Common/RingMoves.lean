/-
  Common/RingMoves.lean --- `MoveRear` and `MoveFront` past the free and the used bytes.

  A move by more than there is room or data for is cut down to that.  `MoveFront` does so
  in every state of the ring; `MoveRear` reckons one lap short where the ring is empty, and
  puts the rear before the start of the memory where the front is at 0.
-/
import SessionServer.Common.RingBuffer

set_option autoImplicit false

namespace SessionServer.Common

namespace RingBuffer

/-- `MoveRear` goes as far as there is room and returns how far. -/
structure RearClamped (rb : RingBuffer) (n : Int) : Prop where
  rear : (rb.moveRear n).rear = (rb.rear + min n rb.getFreeSize) % rb.size
  returned : rb.movedRear n = min n rb.getFreeSize
  valid : (rb.moveRear n).Valid

/-- `MoveFront` goes as far as there are data and returns how far. -/
structure FrontClamped (rb : RingBuffer) (n : Int) : Prop where
  front : (rb.moveFront n).front = (rb.front + min n rb.getUsedSize) % rb.size
  returned : rb.movedFront n = min n rb.getUsedSize
  valid : (rb.moveFront n).Valid

namespace Valid

variable {rb : RingBuffer} {n : Int}

theorem rearClamped_of_le (h : rb.Valid) (hn : 0 ≤ n) (hfit : n ≤ rb.getFreeSize) :
    RearClamped rb n := by
  have hsize := h.size_ge
  have hrear := h.rear_nonneg
  have hmod : (rb.rear + n).tmod rb.size = (rb.rear + n) % rb.size :=
    Int.tmod_eq_emod_of_nonneg (by omega)
  have hpos : 0 < rb.size := by omega
  rw [← min_eq_left hfit] at hmod
  refine ⟨?_, ?_, ?_⟩
  · rw [moveRear, if_pos hfit, ← hmod, min_eq_left hfit]
  · rw [movedRear, if_pos hfit, min_eq_left hfit]
  · rw [moveRear, if_pos hfit]
    refine ⟨hsize, h.front_nonneg, h.front_lt, ?_, ?_⟩
    · show 0 ≤ (rb.rear + n).tmod rb.size
      rw [Int.tmod_eq_emod_of_nonneg (by omega)]
      exact Int.emod_nonneg _ (by omega)
    · show (rb.rear + n).tmod rb.size < rb.size
      rw [Int.tmod_eq_emod_of_nonneg (by omega)]
      exact Int.emod_lt_of_pos _ hpos

/-- The rear is put right before the front. -/
theorem rearClamped_of_lt (h : rb.Valid) (hmore : rb.getFreeSize < n) :
    RearClamped rb n ↔ rb.front ≠ rb.rear ∧ rb.front ≠ 0 := by
  have hsize := h.size_ge
  have hfront := h.front_nonneg
  have hlt := h.front_lt
  have hrear := h.rear_nonneg
  have hrearlt := h.rear_lt
  have hnot : ¬ rb.getFreeSize ≥ n := by omega
  constructor
  · rintro ⟨-, hreturned, hvalid⟩
    rw [movedRear, if_neg hnot, min_eq_right (by omega)] at hreturned
    rw [moveRear, if_neg hnot] at hvalid
    have hnonneg : 0 ≤ rb.front - 1 := hvalid.rear_nonneg
    unfold getFreeSize getUsedSize at hreturned
    constructor
    · intro heq
      split at hreturned <;> split at hreturned <;> omega
    · omega
  · rintro ⟨hne, hzero⟩
    have hwrap : rb.rear + rb.getFreeSize < 2 * rb.size := by
      unfold getFreeSize getUsedSize
      split <;> omega
    have hfree : 0 ≤ rb.getFreeSize := by
      have := h.used_lt
      unfold getFreeSize
      omega
    refine ⟨?_, ?_, ?_⟩
    · rw [moveRear, if_neg hnot, min_eq_right (by omega), wrap_eq (by omega) hwrap]
      show rb.front - 1 = _
      unfold getFreeSize getUsedSize
      split <;> split <;> omega
    · rw [movedRear, if_neg hnot, min_eq_right (by omega)]
      unfold getFreeSize getUsedSize
      split <;> split <;> omega
    · rw [moveRear, if_neg hnot]
      refine ⟨hsize, hfront, hlt, ?_, ?_⟩
      · show 0 ≤ rb.front - 1
        omega
      · show rb.front - 1 < rb.size
        omega

/-- **`MoveFront` is clamped** in every state. -/
theorem frontClamped (h : rb.Valid) (hn : 0 ≤ n) : FrontClamped rb n := by
  have hsize := h.size_ge
  have hfront := h.front_nonneg
  have hlt := h.front_lt
  have hused := h.used_nonneg
  by_cases hfit : n ≤ rb.getUsedSize
  · have hmod : (rb.front + n).tmod rb.size = (rb.front + n) % rb.size :=
      Int.tmod_eq_emod_of_nonneg (by omega)
    refine ⟨?_, ?_, ?_⟩
    · rw [moveFront, if_pos hfit, min_eq_left hfit]
      exact hmod
    · rw [movedFront, if_pos hfit, min_eq_left hfit]
    · have hmoved := (h.moveFront_spec (n := n.toNat) (by omega)).1
      rwa [Int.toNat_of_nonneg hn] at hmoved
  · have hnot : ¬ rb.getUsedSize ≥ n := hfit
    refine ⟨?_, ?_, ?_⟩
    · rw [moveFront, if_neg hnot, min_eq_right (by omega)]
      exact h.rear_eq
    · rw [movedFront, if_neg hnot, min_eq_right (by omega)]
      unfold getUsedSize
      split <;> omega
    · rw [moveFront, if_neg hnot]
      exact ⟨hsize, h.rear_nonneg, h.rear_lt, h.rear_nonneg, h.rear_lt⟩

end Valid

/-- **When the index moves are clamped**: always for `MoveFront`, and for `MoveRear` unless
it is to go past the free bytes of a ring that is empty or has its front at 0. -/
theorem moves_clamped_iff (rb : RingBuffer) (n : Int) (h : rb.Valid) (hn : 0 ≤ n) :
    (RearClamped rb n ∧ FrontClamped rb n ↔
      n ≤ rb.getFreeSize ∨ (rb.front ≠ rb.rear ∧ rb.front ≠ 0)) ∧
    FrontClamped rb n := by
  have hfront := h.frontClamped hn
  refine ⟨?_, hfront⟩
  rw [and_iff_left hfront]
  by_cases hfit : n ≤ rb.getFreeSize
  · exact iff_of_true (h.rearClamped_of_le hn hfit) (Or.inl hfit)
  · rw [h.rearClamped_of_lt (by omega), or_iff_right hfit]

/-- A ring of ten bytes with two in it, from place 7 on. -/
def atSeven : RingBuffer := { ofSize (fun _ => 0) 10 with front := 7, rear := 9 }

theorem atSeven_clamped :
    (RearClamped atSeven 20 ∧ FrontClamped atSeven 20 ↔
      (20 : Int) ≤ atSeven.getFreeSize ∨ (atSeven.front ≠ atSeven.rear ∧ atSeven.front ≠ 0)) ∧
    FrontClamped atSeven 20 :=
  moves_clamped_iff atSeven 20 (by constructor <;> decide) (by decide)

/-- A new ring has 4999 bytes of room; `MoveRear(5000)` returns -1 and leaves the rear at
-1. -/
theorem newRing_not_clamped :
    (new fun _ => 0).Valid ∧ (new fun _ => 0).getFreeSize = 4999 ∧
      (new fun _ => 0).movedRear 5000 = -1 ∧ ((new fun _ => 0).moveRear 5000).rear = -1 ∧
      ¬ (RearClamped (new fun _ => 0) 5000 ∧ FrontClamped (new fun _ => 0) 5000) := by
  refine ⟨new_valid _, by decide, by decide, by decide, fun h => ?_⟩
  have hreturned := h.1.returned
  revert hreturned
  decide

end RingBuffer

end SessionServer.Common
