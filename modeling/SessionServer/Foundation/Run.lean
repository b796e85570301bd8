/-
  Foundation/Run.lean --- runs of a partial step function.

  A system is given by a step function `σ → ι → Option σ`: the label says which
  thread moves and what the environment answers, and `none` says that the label
  is not enabled.  Every nondeterministic choice sits in the label, so a run is a
  list of labels and can be evaluated.

  Nothing here names the server; the later files instantiate it.
-/
import Mathlib

set_option autoImplicit false

namespace SessionServer.Foundation

variable {σ ι : Type}

/-- Execute a list of labels; `none` as soon as one of them is not enabled. -/
def exec (step : σ → ι → Option σ) : σ → List ι → Option σ
  | s, [] => some s
  | s, i :: is => (step s i).bind fun t => exec step t is

/-- Every step of the run from `s` along the labels meets `ok` in the state it
is taken in. -/
def Along (step : σ → ι → Option σ) (ok : σ → ι → Prop) : σ → List ι → Prop
  | _, [] => True
  | s, i :: is => ok s i ∧ ∀ t, step s i = some t → Along step ok t is

instance Along.decidable {step : σ → ι → Option σ} {ok : σ → ι → Prop}
    [∀ s i, Decidable (ok s i)] : (s : σ) → (is : List ι) → Decidable (Along step ok s is)
  | _, [] => inferInstanceAs (Decidable True)
  | s, i :: is =>
      have : ∀ t, Decidable (Along step ok t is) := fun t => Along.decidable t is
      inferInstanceAs (Decidable (ok s i ∧ ∀ t ∈ step s i, Along step ok t is))

theorem Along.and {step : σ → ι → Option σ} {p q : σ → ι → Prop} :
    ∀ {is : List ι} {s : σ}, Along step p s is → Along step q s is →
      Along step (fun s i => p s i ∧ q s i) s is := by
  intro is
  induction is with
  | nil => intros; trivial
  | cons i is ih =>
      intro s hp hq
      exact ⟨⟨hp.1, hq.1⟩, fun t ht => ih (hp.2 t ht) (hq.2 t ht)⟩

theorem Along.imp {step : σ → ι → Option σ} {p q : σ → ι → Prop} (himp : ∀ s i, p s i → q s i) :
    ∀ {is : List ι} {s : σ}, Along step p s is → Along step q s is := by
  intro is
  induction is with
  | nil => intros; trivial
  | cons i is ih =>
      intro s h
      exact ⟨himp s i h.1, fun t ht => ih (h.2 t ht)⟩

variable {step : σ → ι → Option σ} {ok : σ → ι → Prop}

@[simp] theorem exec_nil (s : σ) : exec step s [] = some s := rfl

theorem exec_cons (s : σ) (i : ι) (is : List ι) :
    exec step s (i :: is) = (step s i).bind fun t => exec step t is := rfl

/-- A run of a nonempty list is a first step followed by a run. -/
theorem exec_cons_eq_some {s u : σ} {i : ι} {is : List ι} :
    exec step s (i :: is) = some u ↔ ∃ t, step s i = some t ∧ exec step t is = some u := by
  rw [exec_cons, Option.bind_eq_some_iff]

/-- A run over a concatenation passes through a middle state. -/
theorem exec_append (s : σ) (is js : List ι) :
    exec step s (is ++ js) = (exec step s is).bind fun t => exec step t js := by
  induction is generalizing s with
  | nil => rfl
  | cons i is ih =>
      rw [List.cons_append, exec_cons, exec_cons, Option.bind_assoc]
      congr 1
      funext t
      exact ih t

/-- A run and one step after it. -/
theorem exec_concat_eq_some {s u : σ} {is : List ι} {i : ι} :
    exec step s (is ++ [i]) = some u ↔ ∃ t, exec step s is = some t ∧ step t i = some u := by
  rw [exec_append, Option.bind_eq_some_iff]
  exact exists_congr fun t => and_congr_right fun _ => by simp [exec_cons]

/-- The invariant rule, for runs whose steps all meet `ok`. -/
theorem exec_invariant_along {I : σ → Prop}
    (hstep : ∀ s i t, I s → ok s i → step s i = some t → I t) :
    ∀ {is : List ι} {s t : σ}, I s → Along step ok s is → exec step s is = some t → I t := by
  intro is
  induction is with
  | nil =>
      intro s t hs _ h
      rw [exec_nil, Option.some.injEq] at h
      exact h ▸ hs
  | cons i is ih =>
      intro s t hs hok h
      obtain ⟨m, hm, hrest⟩ := exec_cons_eq_some.mp h
      exact ih (hstep s i m hs hok.1 hm) (hok.2 m hm) hrest

/-- Where the condition makes every step enabled, and the step keeps the invariant, every
run goes through. -/
theorem exec_enabled_along {I : σ → Prop}
    (hstep : ∀ s i, I s → ok s i → ∃ t, step s i = some t ∧ I t) :
    ∀ {is : List ι} {s : σ}, I s → Along step ok s is → ∃ t, exec step s is = some t ∧ I t := by
  intro is
  induction is with
  | nil => exact fun hs _ => ⟨_, rfl, hs⟩
  | cons i is ih =>
      intro s hs hok
      obtain ⟨m, hm, hinv⟩ := hstep s i hs hok.1
      obtain ⟨t, ht, hlast⟩ := ih hinv (hok.2 m hm)
      exact ⟨t, exec_cons_eq_some.mpr ⟨m, hm, ht⟩, hlast⟩

/-- A condition along a run that goes through gives another one, where the invariant it
keeps does. -/
theorem along_of_run {I : σ → Prop} {other : σ → ι → Prop}
    (himp : ∀ s i t, I s → ok s i → step s i = some t → other s i)
    (hstep : ∀ s i t, I s → ok s i → step s i = some t → I t) :
    ∀ {is : List ι} {s u : σ}, I s → Along step ok s is → exec step s is = some u →
      Along step other s is := by
  intro is
  induction is with
  | nil => intros; trivial
  | cons i is ih =>
      intro s u hs hok hrun
      obtain ⟨m, hm, hrest⟩ := exec_cons_eq_some.mp hrun
      refine ⟨himp s i m hs hok.1 hm, fun t ht => ?_⟩
      obtain rfl := Option.some.inj (hm.symm.trans ht)
      exact ih (hstep s i m hs hok.1 hm) (hok.2 m hm) hrest

/-- A condition on a part of the state is one along the steps of that part. -/
theorem Along.map {τ : Type} {f : σ → τ} {step' : τ → ι → Option τ} {cond : τ → ι → Prop}
    (hstep : ∀ s i, step' (f s) i = (step s i).map f) :
    ∀ {is : List ι} {s : σ}, Along step (fun s i => cond (f s) i) s is →
      Along step' cond (f s) is := by
  intro is
  induction is with
  | nil => intros; trivial
  | cons i is ih =>
      intro s h
      refine ⟨h.1, fun t ht => ?_⟩
      rw [hstep] at ht
      obtain ⟨m, hm, rfl⟩ := Option.map_eq_some_iff.mp ht
      exact ih (h.2 m hm)

/-- The condition that asks for nothing. -/
theorem along_true : ∀ {is : List ι} {s : σ}, Along step (fun _ _ => True) s is := by
  intro is
  induction is with
  | nil => exact trivial
  | cons i is ih => exact ⟨trivial, fun _ _ => ih⟩

/-- A condition on steps that an invariant implies is met all along. -/
theorem along_of_invariant {I : σ → Prop} {P : ι → Prop}
    (hok : ∀ s i, I s → P i → ok s i) (hstep : ∀ s i t, I s → P i → step s i = some t → I t) :
    ∀ {is : List ι} {s : σ}, I s → (∀ i ∈ is, P i) → Along step ok s is := by
  intro is
  induction is with
  | nil => intros; trivial
  | cons i is ih =>
      intro s hs hP
      have hi := hP i (by simp)
      exact ⟨hok s i hs hi, fun t ht =>
        ih (hstep s i t hs hi ht) fun j hj => hP j (List.mem_cons_of_mem _ hj)⟩

/-- The invariant rule. -/
theorem exec_invariant {I : σ → Prop}
    (hstep : ∀ s i t, I s → step s i = some t → I t)
    {is : List ι} {s t : σ} (hs : I s) (h : exec step s is = some t) : I t := by
  induction is generalizing s with
  | nil =>
      rw [exec_nil, Option.some.injEq] at h
      exact h ▸ hs
  | cons i is ih =>
      obtain ⟨m, hm, hrest⟩ := exec_cons_eq_some.mp h
      exact ih (hstep s i m hs hm) hrest

/-- A condition along a concatenation is one along each part. -/
theorem along_append {is js : List ι} {s : σ} :
    Along step ok s (is ++ js) ↔
      Along step ok s is ∧ ∀ t, exec step s is = some t → Along step ok t js := by
  induction is generalizing s with
  | nil => simp [Along]
  | cons i is ih =>
      simp only [List.cons_append, Along, exec_cons, Option.bind_eq_some_iff, ih]
      constructor
      · rintro ⟨hi, hall⟩
        exact ⟨⟨hi, fun t ht => (hall t ht).1⟩, fun u ⟨t, ht, hu⟩ => (hall t ht).2 u hu⟩
      · rintro ⟨⟨hi, hall⟩, hrest⟩
        exact ⟨hi, fun t ht => ⟨hall t ht, fun u hu => hrest u ⟨t, ht, hu⟩⟩⟩

/-- A condition along a run and on the step after it. -/
theorem along_concat {is : List ι} {i : ι} {s t : σ} (h : exec step s is = some t) :
    Along step ok s (is ++ [i]) ↔ Along step ok s is ∧ ok t i := by
  rw [along_append, h]
  simp [Along]

/-- The invariant rule for a property of the state and of the run that has led to it. -/
theorem exec_history {I : List ι → σ → Prop} {start : σ} (hstart : I [] start)
    (hstep : ∀ is s i t, Along step ok start is → exec step start is = some s → I is s →
      ok s i → step s i = some t → I (is ++ [i]) t)
    {is : List ι} {s : σ} (hok : Along step ok start is) (h : exec step start is = some s) :
    I is s := by
  induction is using List.reverseRecOn generalizing s with
  | nil =>
      rw [exec_nil, Option.some.injEq] at h
      exact h ▸ hstart
  | append_singleton is i ih =>
      obtain ⟨hbefore, hlast⟩ := along_append.mp hok
      obtain ⟨m, hm, hlaststep⟩ := exec_concat_eq_some.mp h
      exact hstep is m i s hbefore hm (ih hbefore hm) (hlast m hm).1 hlaststep

/-! ## Moments of a run -/

/-- At its beginning or after one of its steps. -/
def Sometime (step : σ → ι → Option σ) (P : σ → Prop) : σ → List ι → Prop
  | s, [] => P s
  | s, i :: is => P s ∨ ∃ t, step s i = some t ∧ Sometime step P t is

/-- A step has two moments. -/
theorem not_sometime_step {P : σ → Prop} {s u : σ} {i : ι} (h : exec step s [i] = some u)
    (hs : ¬ P s) (hu : ¬ P u) : ¬ Sometime step P s [i] := by
  rintro (hbegins | ⟨t, ht, hends⟩)
  · exact hs hbegins
  · obtain ⟨m, hm, hnil⟩ := exec_cons_eq_some.mp h
    rw [exec_nil, Option.some.injEq] at hnil
    obtain rfl := Option.some.inj (hm.symm.trans ht)
    exact hu (hnil ▸ hends)

/-- What a run brings about is brought about by one of its steps, at some moment. -/
theorem sometime_of_comes {I P Q : σ → Prop}
    (hkeep : ∀ s i t, I s → ok s i → step s i = some t → I t)
    (hcomes : ∀ s i t, I s → ok s i → step s i = some t → ¬ Q s → Q t → P s) :
    ∀ {is : List ι} {s u : σ}, I s → Along step ok s is → exec step s is = some u → ¬ Q s → Q u →
      Sometime step P s is := by
  intro is
  induction is with
  | nil =>
      intro s u _ _ h hnot hyes
      rw [exec_nil, Option.some.injEq] at h
      exact absurd (h ▸ hyes) hnot
  | cons i is ih =>
      intro s u hs hok h hnot hyes
      obtain ⟨m, hm, hrest⟩ := exec_cons_eq_some.mp h
      by_cases hcame : Q m
      · exact Or.inl (hcomes s i m hs hok.1 hm hnot hcame)
      · exact Or.inr ⟨m, hm, ih (hkeep s i m hs hok.1 hm) (hok.2 m hm) hrest hcame hyes⟩

/-- What comes about between a step and the end of a run. -/
theorem sometime_since {I P Q : σ → Prop} {start s u : σ} {before during : List ι} {i : ι}
    (hstart : I start) (hkeep : ∀ s i t, I s → ok s i → step s i = some t → I t)
    (hcomes : ∀ s i t, I s → ok s i → step s i = some t → ¬ Q s → Q t → P s)
    (hok : Along step ok start (before ++ i :: during))
    (hbegin : exec step start (before ++ [i]) = some s) (hend : exec step s during = some u)
    (hnot : ¬ Q s) (hyes : Q u) : Sometime step P s during := by
  have hsplit : before ++ i :: during = (before ++ [i]) ++ during := by simp
  rw [hsplit] at hok
  obtain ⟨hbefore, hduring⟩ := along_append.mp hok
  exact sometime_of_comes hkeep hcomes (exec_invariant_along hkeep hstart hbefore hbegin)
    (hduring s hbegin) hend hnot hyes

/-! ## Total step functions -/

/-- A condition on every step of a run, at the state the step is taken in. -/
def AlongTotal (next : σ → ι → σ) (ok : σ → ι → Prop) (s : σ) : List ι → Prop
  | [] => True
  | i :: is => ok s i ∧ AlongTotal next ok (next s i) is

instance AlongTotal.decidable (next : σ → ι → σ) (ok : σ → ι → Prop)
    [∀ s i, Decidable (ok s i)] : ∀ (is : List ι) (s : σ), Decidable (AlongTotal next ok s is)
  | [], _ => isTrue trivial
  | i :: is, s =>
      have := AlongTotal.decidable next ok is (next s i)
      inferInstanceAs (Decidable (ok s i ∧ AlongTotal next ok (next s i) is))

/-- A run is split before its first step or inside the rest. -/
theorem forall_splits_cons {next : σ → ι → σ} {R : σ → ι → Prop} {s : σ} {i : ι} {is : List ι} :
    (∀ before j after, i :: is = before ++ j :: after → R (before.foldl next s) j) ↔
      R s i ∧ ∀ before j after, is = before ++ j :: after →
        R (before.foldl next (next s i)) j := by
  constructor
  · intro h
    refine ⟨h [] i is rfl, fun before j after heq => ?_⟩
    exact h (i :: before) j after (by rw [heq, List.cons_append])
  · rintro ⟨hfirst, hlater⟩ before j after heq
    cases before with
    | nil =>
        obtain ⟨rfl, _⟩ := List.cons.inj heq
        exact hfirst
    | cons k before =>
        obtain ⟨rfl, htail⟩ := List.cons.inj heq
        exact hlater before j after htail

/-- Whether a condition holds at every split of a run can be computed. -/
theorem forall_splits_iff {next : σ → ι → σ} {R : σ → ι → Prop} {is : List ι} {s : σ} :
    (∀ before j after, is = before ++ j :: after → R (before.foldl next s) j) ↔
      AlongTotal next R s is := by
  induction is generalizing s with
  | nil => simp [AlongTotal]
  | cons i is ih => rw [forall_splits_cons, AlongTotal, ih]

/-- A property of every step of a run is a condition on every step, where the two are
equivalent in the states a run reaches that has met the condition so far. -/
theorem foldl_forall_iff {next : σ → ι → σ} {I : σ → Prop} {P : ι → Prop}
    {property condition : σ → ι → Prop}
    (hiff : ∀ s i, I s → P i → (property s i ↔ condition s i))
    (hkeep : ∀ s i, I s → P i → condition s i → I (next s i)) :
    ∀ {is : List ι} {s : σ}, I s → (∀ i ∈ is, P i) →
      ((∀ before i after, is = before ++ i :: after → property (before.foldl next s) i) ↔
        ∀ before i after, is = before ++ i :: after → condition (before.foldl next s) i) := by
  intro is
  induction is with
  | nil => simp
  | cons i is ih =>
      intro s hs hP
      have hi := hP i List.mem_cons_self
      have hrest : ∀ j ∈ is, P j := fun j hj => hP j (List.mem_cons_of_mem _ hj)
      rw [forall_splits_cons, forall_splits_cons, hiff s i hs hi]
      exact and_congr_right fun hcondition => ih (hkeep s i hs hi hcondition) hrest

/-- The same with the condition on a state of its own, which the steps change alongside. -/
theorem foldl_forall_iff_beside {τ : Type} {next : σ → ι → σ} {count : τ → ι → τ}
    {R : σ → τ → Prop} {property : σ → ι → Prop} {condition : τ → ι → Prop}
    (hiff : ∀ s a i, R s a → (property s i ↔ condition a i))
    (hkeep : ∀ s a i, R s a → condition a i → R (next s i) (count a i)) {is : List ι} {s : σ}
    {a : τ} (h : R s a) :
    (∀ before i after, is = before ++ i :: after → property (before.foldl next s) i) ↔
      ∀ before i after, is = before ++ i :: after → condition (before.foldl count a) i := by
  induction is generalizing s a with
  | nil => simp
  | cons i is ih =>
      rw [forall_splits_cons, forall_splits_cons, hiff s a i h]
      exact and_congr_right fun hcondition => ih (hkeep s a i h hcondition)

/-- A property of the state after every part of a run, where every step keeps it exactly
under a condition. -/
theorem foldl_prefix_iff {next : σ → ι → σ} {I : σ → Prop} {P : ι → Prop}
    {condition : σ → ι → Prop}
    (hiff : ∀ s i, I s → P i → (I (next s i) ↔ condition s i)) {is : List ι} {s : σ} (hs : I s)
    (hP : ∀ i ∈ is, P i) :
    (∀ run, run <+: is → I (run.foldl next s)) ↔
      ∀ before i after, is = before ++ i :: after → condition (before.foldl next s) i := by
  rw [← foldl_forall_iff hiff (fun s i hI hi => (hiff s i hI hi).mpr) hs hP]
  constructor
  · rintro h before i after rfl
    have hrun := h (before ++ [i]) ⟨after, by simp⟩
    rwa [List.foldl_append, List.foldl_cons, List.foldl_nil] at hrun
  · rintro h run ⟨rest, rfl⟩
    induction run using List.reverseRecOn with
    | nil => exact hs
    | append_singleton run i ih =>
        rw [List.foldl_append, List.foldl_cons, List.foldl_nil]
        exact h run i rest (by simp)

end SessionServer.Foundation
