/-
  Foundation/Clock.lean --- a 32-bit clock and a limit on a rate.

  A clock that counts milliseconds in 32 bits shows the time modulo 2^32.  A limiter keeps
  the reading of the last request it has let through and lets the next one through when
  enough has passed since; a stored 0 stands for "never".  A request let through at the
  reading 0 is therefore forgotten, and this is the only way two requests get through too
  close to one another.
-/
import Mathlib

set_option autoImplicit false

namespace SessionServer.Foundation

/-! ## Readings -/

/-- What the clock shows at a time. -/
def clock (t : Nat) : UInt32 := UInt32.ofNat t

theorem clock_toNat (t : Nat) : (clock t).toNat = t % 4294967296 := by
  rw [clock, UInt32.toNat_ofNat']

/-- The difference of two readings is the time between them, up to whole laps. -/
theorem clock_sub {s t : Nat} (h : s ≤ t) : (clock t - clock s).toNat = (t - s) % 4294967296 := by
  rw [UInt32.toNat_sub, clock_toNat, clock_toNat]
  omega

/-- Going on from a reading. -/
theorem clock_add (t : Nat) {d : UInt32} {n : Nat} (h : d.toNat = n % 4294967296) :
    clock t + d = clock (t + n) := by
  refine UInt32.toNat_inj.mp ?_
  rw [UInt32.toNat_add, clock_toNat, clock_toNat, h]
  omega

theorem clock_eq_zero {t : Nat} : clock t = 0 ↔ t % 4294967296 = 0 := by
  rw [← UInt32.toNat_inj, clock_toNat]
  rfl

/-! ## A limiter -/

/-- The limiter lets a request through: it has stored nothing, or enough has passed. -/
def allows (interval last now : UInt32) : Bool := last == 0 || now - last ≥ interval

theorem allows_zero (interval now : UInt32) : allows interval 0 now = true := rfl

/-- What a limiter lets through that has stored a reading other than 0 comes at least an
interval after it. -/
theorem apart_of_allows {interval : UInt32} {s t : Nat} (hs : clock s ≠ 0) (hle : s ≤ t)
    (hlap : t < s + 4294967296) (h : allows interval (clock s) (clock t) = true) :
    s + interval.toNat ≤ t := by
  have hreading : (clock s == 0) = false := beq_false_of_ne hs
  rw [allows, hreading, Bool.false_or, decide_eq_true_eq, ge_iff_le, UInt32.le_iff_toNat_le,
    clock_sub hle] at h
  omega

/-- The times of the requests that get through. -/
def letThrough (interval : UInt32) : UInt32 → List Nat → List Nat
  | _, [] => []
  | last, t :: rest =>
      if allows interval last (clock t) then t :: letThrough interval (clock t) rest
      else letThrough interval last rest

/-- No request comes within an interval after one that has got through at the reading 0. -/
def Remembered (interval : UInt32) : UInt32 → List Nat → Prop
  | _, [] => True
  | last, t :: rest =>
      if allows interval last (clock t) then
        (clock t = 0 → ∀ u ∈ rest, t + interval.toNat ≤ u) ∧ Remembered interval (clock t) rest
      else Remembered interval last rest

theorem letThrough_subset {interval : UInt32} {times : List Nat} :
    ∀ {last : UInt32}, letThrough interval last times ⊆ times := by
  induction times with
  | nil =>
      intro last u hmem
      exact hmem
  | cons t rest ih =>
      intro last u hmem
      simp only [letThrough] at hmem
      split at hmem
      · rcases List.mem_cons.mp hmem with rfl | hrest
        · exact List.mem_cons_self
        · exact List.mem_cons_of_mem _ (ih hrest)
      · exact List.mem_cons_of_mem _ (ih hmem)

/-- After a stored reading other than 0 every request that gets through is far enough from
it. -/
theorem letThrough_after {interval : UInt32} {s : Nat} (hs : clock s ≠ 0) {times : List Nat}
    (hsorted : (s :: times).Pairwise (· ≤ ·)) (hlap : ∀ t ∈ times, t < s + 4294967296) :
    ∀ t ∈ letThrough interval (clock s) times, s + interval.toNat ≤ t := by
  induction times with
  | nil => exact fun _ hmem => absurd hmem List.not_mem_nil
  | cons first rest ih =>
      rw [List.pairwise_cons, List.pairwise_cons] at hsorted
      obtain ⟨hle, hfirst, hrest⟩ := hsorted
      have hbefore : (s :: rest).Pairwise (· ≤ ·) :=
        List.pairwise_cons.mpr ⟨fun t hmem => hle t (List.mem_cons_of_mem _ hmem), hrest⟩
      intro t hmem
      simp only [letThrough] at hmem
      split at hmem
      · rename_i hallows
        have hapart := apart_of_allows hs (hle first List.mem_cons_self)
          (hlap first List.mem_cons_self) hallows
        rcases List.mem_cons.mp hmem with rfl | hlater
        · exact hapart
        · exact Nat.le_trans hapart (hfirst t (letThrough_subset hlater))
      · exact ih hbefore (fun u hu => hlap u (List.mem_cons_of_mem _ hu)) t hmem

/-- **The limit is kept**, over less than one lap of the clock, exactly where no request
comes within an interval after one that has got through at the reading 0. -/
theorem letThrough_apart_iff {interval : UInt32} {times : List Nat} :
    ∀ {last : UInt32}, times.Pairwise (fun s t => s ≤ t ∧ t < s + 4294967296) →
      ((letThrough interval last times).Pairwise (fun s t => s + interval.toNat ≤ t) ↔
        Remembered interval last times) := by
  induction times with
  | nil => exact fun _ => iff_of_true List.Pairwise.nil trivial
  | cons t rest ih =>
      intro last htimes
      obtain ⟨hfirst, hrest⟩ := List.pairwise_cons.mp htimes
      have hsorted : (t :: rest).Pairwise (· ≤ ·) := htimes.imp And.left
      simp only [letThrough, Remembered]
      split
      · rw [List.pairwise_cons, ih hrest]
        refine and_congr_left fun _ => ⟨fun hafter hzero u hu => ?_, fun hforgets u hu => ?_⟩
        · -- The first request of the rest gets through: the limiter has stored 0.
          cases rest with
          | nil => exact absurd hu List.not_mem_nil
          | cons next later =>
              have hnext : t + interval.toNat ≤ next := by
                refine hafter next ?_
                rw [letThrough, hzero, allows_zero, if_pos rfl]
                exact List.mem_cons_self
              rcases List.mem_cons.mp hu with rfl | hlater
              · exact hnext
              · have hle := (List.pairwise_cons.mp (List.pairwise_cons.mp hsorted).2).1 u hlater
                exact Nat.le_trans hnext hle
        · by_cases hzero : clock t = 0
          · exact hforgets hzero u (letThrough_subset hu)
          · exact letThrough_after hzero hsorted (fun v hv => (hfirst v hv).2) u hu
      · exact ih hrest

end SessionServer.Foundation
