/-
  Foundation/Observer.lean --- what an observer can conclude from what it is shown.

  A system takes one step after the other, and each step shows an observer something.  A
  replica is what the observer makes of it, sight by sight.  Where every step keeps the
  replica in agreement with the system, it agrees after every run.  A replica that is a
  table of entries is filled by being told of them.

  Nothing here names the server.
-/
import SessionServer.Foundation.Run

set_option autoImplicit false

namespace SessionServer.Foundation

variable {σ ι μ ρ : Type}

/-- Everything that is shown along a run. -/
def shown (next : σ → ι → σ) (sights : σ → ι → List μ) : σ → List ι → List μ
  | _, [] => []
  | s, i :: is => sights s i ++ shown next sights (next s i) is

variable {next : σ → ι → σ} {sights : σ → ι → List μ} {see : ρ → μ → ρ}

theorem shown_append (s : σ) (is js : List ι) :
    shown next sights s (is ++ js) =
      shown next sights s is ++ shown next sights (is.foldl next s) js := by
  induction is generalizing s with
  | nil => rfl
  | cons i is ih => rw [List.cons_append, shown, shown, ih, List.foldl_cons, List.append_assoc]

/-- **The replica rule.**  An agreement that every step keeps, with what it shows, is kept by
every run. -/
theorem replica_agrees_along {Agrees : σ → ρ → Prop} {ok : σ → ι → Prop}
    (hstep : ∀ s i r, Agrees s r → ok s i → Agrees (next s i) ((sights s i).foldl see r)) :
    ∀ {is : List ι} {s : σ} {r : ρ}, Agrees s r → AlongTotal next ok s is →
      Agrees (is.foldl next s) ((shown next sights s is).foldl see r) := by
  intro is
  induction is with
  | nil => exact fun h _ => h
  | cons i is ih =>
      intro s r h hok
      rw [shown, List.foldl_append, List.foldl_cons]
      exact ih (hstep s i r h hok.1) hok.2

/-! ## Tables -/

variable {κ α : Type} [DecidableEq κ]

/-- The table once it has been told of the entries. -/
def learn (table : κ → Option α) (entries : List (κ × α)) : κ → Option α :=
  entries.foldl (fun table entry => Function.update table entry.1 (some entry.2)) table

/-- What no entry is about stays as it was. -/
theorem learn_of_notMem {entries : List (κ × α)} {table : κ → Option α} {k : κ}
    (h : ∀ entry ∈ entries, entry.1 ≠ k) : learn table entries k = table k := by
  induction entries generalizing table with
  | nil => rfl
  | cons entry entries ih =>
      have hne := h entry List.mem_cons_self
      refine (ih fun other hother => h other (List.mem_cons_of_mem _ hother)).trans ?_
      exact Function.update_of_ne hne.symm _ _

/-- The last word counts: where all entries about a key say the same, the table says it. -/
theorem learn_of_mem {entries : List (κ × α)} {table : κ → Option α} {k : κ} {a : α}
    (hmem : (k, a) ∈ entries) (h : ∀ entry ∈ entries, entry.1 = k → entry.2 = a) :
    learn table entries k = some a := by
  induction entries generalizing table with
  | nil => cases hmem
  | cons entry entries ih =>
      by_cases hrest : (k, a) ∈ entries
      · exact ih hrest fun other hother => h other (List.mem_cons_of_mem _ hother)
      · have hlater : ∀ other ∈ entries, other.1 ≠ k := by
          intro other hother hkey
          apply hrest
          have hvalue := h other (List.mem_cons_of_mem _ hother) hkey
          rw [← hkey, ← hvalue]
          exact hother
        obtain rfl := (List.mem_cons.mp hmem).resolve_right hrest
        refine (learn_of_notMem hlater).trans ?_
        exact Function.update_self _ _ _

end SessionServer.Foundation
