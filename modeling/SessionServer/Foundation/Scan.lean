/-
  Foundation/Scan.lean --- loops that rewrite a buffer in place.

  A scan goes over neighbouring cells with a state: each round reads its cell, writes it and
  moves the state on.  Where a second scan takes back every round of a first one, it takes
  back the whole of it.
-/
import Mathlib

set_option autoImplicit false

namespace SessionServer.Foundation

variable {α σ : Type} {m : Nat}

/-- `n` rounds over the cells from `i` on.  Round `i` takes the state and the content of its
cell to the new content and the next state; behind the end of the buffer there is no round. -/
def scan (round : Nat → σ → α → α × σ) : Nat → Nat → σ → Vector α m → Vector α m
  | 0, _, _, buffer => buffer
  | n + 1, i, s, buffer =>
      match buffer[i]? with
      | none => buffer
      | some a =>
          scan round n (i + 1) (round i s a).2 (buffer.setIfInBounds i (round i s a).1)

section

variable {round : Nat → σ → α → α × σ}

theorem setIfInBounds_getElem? {buffer : Vector α m} {i : Nat} {a : α}
    (h : buffer[i]? = some a) : buffer.setIfInBounds i a = buffer := by
  refine Vector.ext fun j hj => Option.some.inj ?_
  rw [← Vector.getElem?_eq_getElem, ← Vector.getElem?_eq_getElem]
  by_cases heq : i = j
  · subst heq
    rw [Vector.getElem?_setIfInBounds_self_of_lt hj, h]
  · rw [Vector.getElem?_setIfInBounds_ne heq]

/-- A scan leaves the cells outside its range alone. -/
theorem scan_getElem?_of_outside {n i : Nat} {s : σ} {buffer : Vector α m} {j : Nat}
    (h : j < i ∨ i + n ≤ j) : (scan round n i s buffer)[j]? = buffer[j]? := by
  induction n generalizing i s buffer with
  | zero => rfl
  | succ n ih =>
      rw [scan]
      split
      · rfl
      · rw [ih (by omega), Vector.getElem?_setIfInBounds_ne (by omega)]

/-- A write before the range of a scan can as well be made after it. -/
theorem scan_setIfInBounds {n i j : Nat} (h : j < i) (s : σ) (buffer : Vector α m) (a : α) :
    scan round n i s (buffer.setIfInBounds j a) =
      (scan round n i s buffer).setIfInBounds j a := by
  induction n generalizing i s buffer with
  | zero => rfl
  | succ n ih =>
      rw [scan, scan, Vector.getElem?_setIfInBounds_ne (by omega)]
      split
      · rfl
      · rw [Vector.setIfInBound_comm _ _ (by omega)]
        exact ih (by omega) _ _

/-- A scan reads nothing but the cells of its range. -/
theorem scan_congr {n i : Nat} {s : σ} {buffer other : Vector α m}
    (h : ∀ j, i ≤ j → j < i + n → other[j]? = buffer[j]?) :
    ∀ j, i ≤ j → j < i + n → (scan round n i s other)[j]? = (scan round n i s buffer)[j]? := by
  induction n generalizing i s buffer other with
  | zero => exact h
  | succ n ih =>
      have hcell : other[i]? = buffer[i]? := h i (Nat.le_refl i) (by omega)
      intro j hlow hhigh
      rw [scan, scan, hcell]
      split
      · exact h j hlow hhigh
      · rename_i a ha
        have hi : i < m := (Vector.getElem?_eq_some_iff.mp ha).1
        rcases Nat.eq_or_lt_of_le hlow with rfl | hlater
        · rw [scan_getElem?_of_outside (by omega), scan_getElem?_of_outside (by omega),
            Vector.getElem?_setIfInBounds_self_of_lt hi,
            Vector.getElem?_setIfInBounds_self_of_lt hi]
        · refine ih (fun k hk hkn => ?_) j hlater (by omega)
          rw [Vector.getElem?_setIfInBounds_ne (by omega),
            Vector.getElem?_setIfInBounds_ne (by omega)]
          exact h k (by omega) (by omega)

/-- **A scan whose rounds take back those of another takes back the scan.** -/
theorem scan_scan {back : Nat → σ → α → α × σ}
    (hround : ∀ i s a, back i s (round i s a).1 = (a, (round i s a).2)) (n i : Nat) (s : σ)
    (buffer : Vector α m) : scan back n i s (scan round n i s buffer) = buffer := by
  induction n generalizing i s buffer with
  | zero => rfl
  | succ n ih =>
      cases hcell : buffer[i]? with
      | none => simp only [scan, hcell]
      | some a =>
          have hi : i < m := (Vector.getElem?_eq_some_iff.mp hcell).1
          have hscan : scan round (n + 1) i s buffer = scan round n (i + 1) (round i s a).2
              (buffer.setIfInBounds i (round i s a).1) := by
            simp only [scan, hcell]
          have hread : (scan round (n + 1) i s buffer)[i]? = some (round i s a).1 := by
            rw [hscan, scan_getElem?_of_outside (by omega),
              Vector.getElem?_setIfInBounds_self_of_lt hi]
          -- The cell is written back first; the rest is the induction hypothesis.
          have hback : (scan round (n + 1) i s buffer).setIfInBounds i a =
              scan round n (i + 1) (round i s a).2 buffer := by
            rw [hscan, ← scan_setIfInBounds (by omega), Vector.setIfInBounds_setIfInBounds]
            rw [setIfInBounds_getElem? hcell]
          rw [scan, hread]
          simp only [hround]
          rw [hback, ih]

end

end SessionServer.Foundation
