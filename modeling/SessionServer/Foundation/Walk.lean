/-
  Foundation/Walk.lean --- walking in a region, step by step and at once.

  A walker takes the same step again and again and stays where it is when the step would
  leave the region.  When the steps that fit are a first part of all steps, so many steps
  taken one by one are as many taken at once, up to the last that fits.
-/
import Mathlib.Algebra.Group.Basic
import Mathlib.Logic.Function.Iterate

set_option autoImplicit false

namespace SessionServer.Foundation

variable {α : Type} [AddMonoid α] (region : α → Prop) [DecidablePred region] (step : α)

/-- One step, if it ends in the region. -/
def stepWithin (place : α) : α := if region (place + step) then place + step else place

variable {region step}

/-- A step keeps a walker in the region. -/
theorem stepWithin_mem {place : α} (h : region place) : region (stepWithin region step place) := by
  unfold stepWithin
  split
  · assumption
  · exact h

theorem iterate_stepWithin_mem {place : α} (h : region place) (n : Nat) :
    region ((stepWithin region step)^[n] place) := by
  induction n with
  | zero => exact h
  | succ n ih =>
      rw [Function.iterate_succ_apply']
      exact stepWithin_mem ih

/-- **Steps one by one are steps at once.**  `fit` is the number of steps that fit. -/
theorem iterate_stepWithin {place : α} {fit : Nat}
    (hfit : ∀ k : Nat, region (place + k • step) ↔ k ≤ fit) (n : Nat) :
    (stepWithin region step)^[n] place = place + min n fit • step := by
  induction n with
  | zero => rw [Nat.zero_min, zero_nsmul, add_zero, Function.iterate_zero_apply]
  | succ n ih =>
      have hnext : place + min n fit • step + step = place + (min n fit + 1) • step := by
        rw [succ_nsmul, add_assoc]
      rw [Function.iterate_succ_apply', ih, stepWithin, hnext]
      by_cases hroom : n < fit
      · rw [if_pos ((hfit _).mpr (by omega))]
        congr 2
        omega
      · rw [if_neg fun h => by have := (hfit _).mp h; omega]
        congr 2
        omega

/-- A walker whose step goes nowhere stays. -/
theorem iterate_stepWithin_zero (place : α) (n : Nat) :
    (stepWithin region 0)^[n] place = place := by
  have hstay : stepWithin region 0 place = place := by rw [stepWithin, add_zero, ite_self]
  exact Function.iterate_fixed hstay n

end SessionServer.Foundation
