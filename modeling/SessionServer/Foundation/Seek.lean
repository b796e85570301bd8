/-
  Foundation/Seek.lean --- pointers that move forward over a buffer.

  A pointer into a buffer is the part of the buffer from it on; one past the end is the
  empty list.  A loop that moves a pointer to the first byte of a kind goes wrong where there
  is none.

  Nothing here names the server; the later files instantiate it.
-/
import Mathlib

set_option autoImplicit false

namespace SessionServer.Foundation

variable {α : Type} {p : α → Bool} {l word rest : List α} {c : α}

/-- The first element of a kind and what is behind it; `none` where the list ends before. -/
def seek (p : α → Bool) : List α → Option (α × List α)
  | [] => none
  | c :: rest => if p c then some (c, rest) else seek p rest

theorem seek_cons_pos (h : p c = true) : seek p (c :: rest) = some (c, rest) := if_pos h

theorem seek_cons_neg (h : p c = false) : seek p (c :: rest) = seek p rest :=
  if_neg (by rw [h]; exact Bool.false_ne_true)

/-- What is passed over is not of the kind. -/
theorem seek_append (hword : ∀ x ∈ word, p x = false) : seek p (word ++ l) = seek p l := by
  induction word with
  | nil => rfl
  | cons x word ih =>
      rw [List.cons_append, seek_cons_neg (hword x List.mem_cons_self)]
      exact ih fun y hy => hword y (List.mem_cons_of_mem x hy)

theorem seek_eq_some_iff :
    seek p l = some (c, rest) ↔
      ∃ word, l = word ++ c :: rest ∧ (∀ x ∈ word, p x = false) ∧ p c = true := by
  constructor
  · intro h
    induction l with
    | nil => simp [seek] at h
    | cons x l ih =>
        cases hx : p x with
        | true =>
            rw [seek_cons_pos hx, Option.some.injEq, Prod.mk.injEq] at h
            obtain ⟨rfl, rfl⟩ := h
            exact ⟨[], rfl, by simp, hx⟩
        | false =>
            rw [seek_cons_neg hx] at h
            obtain ⟨word, rfl, hword, hc⟩ := ih h
            exact ⟨x :: word, rfl, List.forall_mem_cons.mpr ⟨hx, hword⟩, hc⟩
  · rintro ⟨word, rfl, hword, hc⟩
    rw [seek_append hword, seek_cons_pos hc]

theorem seek_isSome_iff : (seek p l).isSome ↔ ∃ c ∈ l, p c = true := by
  induction l with
  | nil => simp [seek]
  | cons x l ih =>
      cases hx : p x with
      | true => simp [seek_cons_pos hx, hx]
      | false => simp [seek_cons_neg hx, hx, ih]

theorem seek_eq_none_iff : seek p l = none ↔ ∀ c ∈ l, p c = false := by
  rw [← Option.not_isSome_iff_eq_none, seek_isSome_iff]
  simp

/-- The first element that is not of a kind. -/
theorem seek_not : seek (fun c => !p c) l = (l.dropWhile p).head?.map fun c =>
    (c, (l.dropWhile p).tail) := by
  induction l with
  | nil => rfl
  | cons x l ih =>
      cases hx : p x with
      | true => rw [seek_cons_neg (by simp [hx]), List.dropWhile_cons_of_pos hx, ih]
      | false =>
          rw [seek_cons_pos (by simp [hx]), List.dropWhile_cons_of_neg (by simp [hx])]
          rfl

/-! ## Places

A place of a buffer is told by what is before it and what is from it on. -/

variable {P : List α → List α → Prop} {before mid u v : List α}

/-- At some place of `l`, which `before` is before, `P` holds. -/
def Somewhere (P : List α → List α → Prop) (before l : List α) : Prop :=
  ∃ mid rest, l = mid ++ rest ∧ P (before ++ mid) rest

/-- The first such place has `mid` before it in `l`, and `rest` from it on. -/
structure First (P : List α → List α → Prop) (before l mid rest : List α) : Prop where
  split : l = mid ++ rest
  holds : P (before ++ mid) rest
  least : ∀ mid' rest', l = mid' ++ rest' → P (before ++ mid') rest' → mid.length ≤ mid'.length

theorem First.somewhere (h : First P before l mid rest) : Somewhere P before l :=
  ⟨mid, rest, h.split, h.holds⟩

/-- Where a place is first there is no other first one. -/
theorem First.unique (h : First P before l mid rest) {mid' rest' : List α}
    (h' : First P before l mid' rest') : mid = mid' ∧ rest = rest' := by
  have hlength : mid.length = mid'.length :=
    Nat.le_antisymm (h.least mid' rest' h'.split h'.holds) (h'.least mid rest h.split h.holds)
  exact List.append_inj (h.split.symm.trans h'.split) hlength

theorem Somewhere.first (h : Somewhere P before l) : ∃ mid rest, First P before l mid rest := by
  classical
  have hlength : ∃ n, ∃ mid rest, l = mid ++ rest ∧ P (before ++ mid) rest ∧ mid.length = n := by
    obtain ⟨mid, rest, hsplit, hholds⟩ := h
    exact ⟨_, mid, rest, hsplit, hholds, rfl⟩
  obtain ⟨mid, rest, hsplit, hholds, hn⟩ := Nat.find_spec hlength
  refine ⟨mid, rest, hsplit, hholds, fun mid' rest' hsplit' hholds' => ?_⟩
  rw [hn]
  exact Nat.find_min' hlength ⟨mid', rest', hsplit', hholds', rfl⟩

theorem somewhere_nil : Somewhere P before [] ↔ P before [] := by
  constructor
  · rintro ⟨mid, rest, hsplit, hholds⟩
    obtain ⟨rfl, rfl⟩ := List.append_eq_nil_iff.mp hsplit.symm
    rwa [List.append_nil] at hholds
  · exact fun h => ⟨[], [], rfl, by rwa [List.append_nil]⟩

/-- A place of `u ++ v` is one in `u` or one of `v`. -/
theorem somewhere_append :
    Somewhere P before (u ++ v) ↔
      (∃ mid mid', u = mid ++ mid' ∧ mid' ≠ [] ∧ P (before ++ mid) (mid' ++ v)) ∨
        Somewhere P (before ++ u) v := by
  constructor
  · rintro ⟨mid, rest, hsplit, hholds⟩
    rcases List.append_eq_append_iff.mp hsplit with ⟨as, rfl, rfl⟩ | ⟨as, rfl, rfl⟩
    · exact Or.inr ⟨as, rest, rfl, by rwa [List.append_assoc]⟩
    · by_cases has : as = []
      · subst has
        exact Or.inr ⟨[], v, rfl, by simpa using hholds⟩
      · exact Or.inl ⟨mid, as, rfl, has, hholds⟩
  · rintro (⟨mid, mid', rfl, -, hholds⟩ | ⟨mid, rest, rfl, hholds⟩)
    · exact ⟨mid, mid' ++ v, List.append_assoc _ _ _, hholds⟩
    · exact ⟨u ++ mid, rest, (List.append_assoc _ _ _).symm, by rwa [← List.append_assoc]⟩

/-- The first place of `v` is that of `u ++ v` where there is none in `u`. -/
theorem First.append (h : First P (before ++ u) v mid rest)
    (hnone : ∀ mid mid', u = mid ++ mid' → mid' ≠ [] → ¬ P (before ++ mid) (mid' ++ v)) :
    First P before (u ++ v) (u ++ mid) rest where
  split := by rw [h.split, List.append_assoc]
  holds := by
    rw [← List.append_assoc]
    exact h.holds
  least := by
    intro mid' rest' hsplit hholds
    rcases List.append_eq_append_iff.mp hsplit with ⟨as, rfl, hv⟩ | ⟨as, hu, rfl⟩
    · rw [List.length_append, List.length_append]
      exact Nat.add_le_add_left (h.least as rest' hv (by rwa [List.append_assoc])) _
    · by_cases has : as = []
      · subst has
        rw [List.append_nil] at hu
        subst hu
        have hleast := h.least [] v rfl (by simpa using hholds)
        rw [List.length_append]
        exact Nat.add_le_add_left hleast _
      · exact absurd hholds (hnone mid' as hu has)

theorem First.cons (h : First P (before ++ [c]) l mid rest) (hnone : ¬ P before (c :: l)) :
    First P before (c :: l) (c :: mid) rest := by
  refine First.append (u := [c]) h fun mid mid' hsplit hne hholds => hnone ?_
  cases mid with
  | nil =>
      obtain rfl : [c] = mid' := hsplit
      simpa using hholds
  | cons x mid =>
      obtain ⟨-, hnil⟩ := List.cons.inj hsplit
      exact absurd (List.append_eq_nil_iff.mp hnil.symm).2 hne

theorem First.here (h : P before l) : First P before l [] l where
  split := rfl
  holds := by rwa [List.append_nil]
  least := fun _ _ _ _ => Nat.zero_le _

/-! ## Texts

A text is written word by word.  A scan that reacts to some of the words gives what the first
of these makes of it. -/

section

variable {ω ρ ι : Type} {Q : ω → Prop} {w : ω} {ws ws' : List ω}

/-- The first of the words that `Q` holds of. -/
def FirstIn (Q : ω → Prop) (ws : List ω) (w : ω) : Prop :=
  ∃ before after, ws = before ++ w :: after ∧ Q w ∧ ∀ x ∈ before, ¬ Q x

theorem firstIn_nil : ¬ FirstIn Q [] w := by
  rintro ⟨before, after, hsplit, -, -⟩
  simp at hsplit

theorem firstIn_append :
    FirstIn Q (ws ++ ws') w ↔ FirstIn Q ws w ∨ ((∀ x ∈ ws, ¬ Q x) ∧ FirstIn Q ws' w) := by
  constructor
  · rintro ⟨before, after, hsplit, hw, hbefore⟩
    rcases List.append_eq_append_iff.mp hsplit with ⟨as, rfl, hws'⟩ | ⟨as, hws, hafter⟩
    · exact Or.inr ⟨fun x hx => hbefore x (List.mem_append_left as hx), as, after, hws', hw,
        fun x hx => hbefore x (List.mem_append_right ws hx)⟩
    · cases as with
      | nil =>
          rw [List.append_nil] at hws
          subst hws
          exact Or.inr ⟨hbefore, [], after, hafter.symm, hw, fun x hx => absurd hx List.not_mem_nil⟩
      | cons x as =>
          obtain ⟨rfl, -⟩ := List.cons.inj hafter
          exact Or.inl ⟨before, as, hws, hw, hbefore⟩
  · rintro (⟨before, after, rfl, hw, hbefore⟩ | ⟨hws, before, after, rfl, hw, hbefore⟩)
    · exact ⟨before, after ++ ws', by simp, hw, hbefore⟩
    · exact ⟨ws ++ before, after, by simp, hw, List.forall_mem_append.mpr ⟨hws, hbefore⟩⟩

theorem firstIn_cons {x : ω} :
    FirstIn Q (x :: ws) w ↔ (Q x ∧ w = x) ∨ (¬ Q x ∧ FirstIn Q ws w) := by
  constructor
  · rintro ⟨before, after, hsplit, hw, hbefore⟩
    cases before with
    | nil =>
        obtain ⟨rfl, -⟩ := List.cons.inj hsplit
        exact Or.inl ⟨hw, rfl⟩
    | cons y before =>
        obtain ⟨rfl, hws⟩ := List.cons.inj hsplit
        exact Or.inr ⟨hbefore x List.mem_cons_self, before, after, hws, hw,
          fun y hy => hbefore y (List.mem_cons_of_mem x hy)⟩
  · rintro (⟨hx, rfl⟩ | ⟨hx, before, after, rfl, hw, hbefore⟩)
    · exact ⟨[], ws, rfl, hx, fun y hy => absurd hy List.not_mem_nil⟩
    · exact ⟨x :: before, after, rfl, hw, List.forall_mem_cons.mpr ⟨hx, hbefore⟩⟩

theorem FirstIn.mem (h : FirstIn Q ws w) : w ∈ ws := by
  obtain ⟨before, after, rfl, -, -⟩ := h
  simp

/-- There is a first one where there is one. -/
theorem exists_firstIn (hw : w ∈ ws) (h : Q w) : ∃ w, FirstIn Q ws w := by
  induction ws with
  | nil => exact absurd hw List.not_mem_nil
  | cons x ws ih =>
      by_cases hx : Q x
      · exact ⟨x, firstIn_cons.mpr (Or.inl ⟨hx, rfl⟩)⟩
      · have hne : w ≠ x := fun heq => hx (heq ▸ h)
        obtain ⟨w', hfirst⟩ := ih ((List.mem_cons.mp hw).resolve_left hne)
        exact ⟨w', firstIn_cons.mpr (Or.inr ⟨hx, hfirst⟩)⟩

variable {scan : List α → ρ} {Result : ω → ρ → Prop} {l' l'' : List α}

/-- The scan of `l` reacts to the first of the words, and where it reacts to none it goes on
with `l'`. -/
structure Passes (scan : List α → ρ) (Q : ω → Prop) (Result : ω → ρ → Prop) (l : List α)
    (ws : List ω) (l' : List α) : Prop where
  found : ∀ w, FirstIn Q ws w → Result w (scan l)
  passed : (∀ w ∈ ws, ¬ Q w) → scan l = scan l'

/-- No word stands there. -/
theorem Passes.skip (h : scan l = scan l') : Passes scan Q Result l [] l' where
  found := fun _ hfirst => absurd hfirst firstIn_nil
  passed := fun _ => h

theorem Passes.single (hfound : Q w → Result w (scan l)) (hpassed : ¬ Q w → scan l = scan l') :
    Passes scan Q Result l [w] l' where
  found := by
    intro w' hfirst
    rcases firstIn_cons.mp hfirst with ⟨hw, rfl⟩ | ⟨-, hnil⟩
    · exact hfound hw
    · exact absurd hnil firstIn_nil
  passed := fun hnone => hpassed (hnone w List.mem_cons_self)

theorem Passes.trans (h : Passes scan Q Result l ws l') (h' : Passes scan Q Result l' ws' l'') :
    Passes scan Q Result l (ws ++ ws') l'' where
  found := by
    intro w hfirst
    rcases firstIn_append.mp hfirst with hhere | ⟨hnone, hlater⟩
    · exact h.found w hhere
    · rw [h.passed hnone]
      exact h'.found w hlater
  passed := by
    intro hnone
    obtain ⟨hws, hws'⟩ := List.forall_mem_append.mp hnone
    exact (h.passed hws).trans (h'.passed hws')

/-- No word stands before it. -/
theorem Passes.ahead (heq : scan l = scan l') (h : Passes scan Q Result l' ws l'') :
    Passes scan Q Result l ws l'' := Passes.trans (.skip heq) h

/-- No word stands behind it. -/
theorem Passes.behind (h : Passes scan Q Result l ws l') (heq : scan l' = scan l'') :
    Passes scan Q Result l ws l'' where
  found := h.found
  passed := fun hnone => (h.passed hnone).trans heq

/-- Text after text, where `R` is what the scan of one needs of what is behind it. -/
theorem Passes.flatMap {R : List α → Prop} {text : ι → List α} {words : ι → List ω} {xs : List ι}
    (hstep : ∀ x ∈ xs, ∀ l, R l →
      Passes scan Q Result (text x ++ l) (words x) l ∧ R (text x ++ l)) (hl : R l) :
    Passes scan Q Result (xs.flatMap text ++ l) (xs.flatMap words) l ∧
      R (xs.flatMap text ++ l) := by
  induction xs with
  | nil => exact ⟨.skip rfl, hl⟩
  | cons x xs ih =>
      obtain ⟨hxs, hR⟩ := ih fun y hy => hstep y (List.mem_cons_of_mem x hy)
      obtain ⟨hx, hR'⟩ := hstep x List.mem_cons_self _ hR
      rw [List.flatMap_cons, List.flatMap_cons, List.append_assoc]
      exact ⟨hx.trans hxs, hR'⟩

end

end SessionServer.Foundation
