/-
  Foundation/Simulation.lean --- machines that answer every call.

  A machine is a total step function `σ → ι → σ × ω`: a call changes the state and gives
  an answer.  A simulation relates the states of two machines so that related states
  answer alike and stay related; whole runs then answer alike.

  Nothing here names the server.
-/
import Mathlib

set_option autoImplicit false

namespace SessionServer.Foundation

variable {σ τ ι ω : Type}

/-- The answers along a list of calls. -/
def answers (step : σ → ι → σ × ω) : σ → List ι → List ω
  | _, [] => []
  | s, i :: is => (step s i).2 :: answers step (step s i).1 is

/-- The state after a list of calls. -/
def after (step : σ → ι → σ × ω) (s : σ) (is : List ι) : σ :=
  is.foldl (fun s i => (step s i).1) s

@[simp] theorem after_nil (step : σ → ι → σ × ω) (s : σ) : after step s [] = s := rfl

theorem after_cons (step : σ → ι → σ × ω) (s : σ) (i : ι) (is : List ι) :
    after step s (i :: is) = after step (step s i).1 is := rfl

theorem after_append (step : σ → ι → σ × ω) (s : σ) (is js : List ι) :
    after step s (is ++ js) = after step (after step s is) js :=
  List.foldl_append

theorem answers_append (step : σ → ι → σ × ω) (s : σ) (is js : List ι) :
    answers step s (is ++ js) = answers step s is ++ answers step (after step s is) js := by
  induction is generalizing s with
  | nil => rfl
  | cons i is ih => rw [List.cons_append, answers, answers, ih, after_cons, List.cons_append]

/-- A property that every call keeps holds after every run. -/
theorem after_invariant {step : σ → ι → σ × ω} {I : σ → Prop}
    (hstep : ∀ s i, I s → I (step s i).1) {s : σ} (hs : I s) (is : List ι) :
    I (after step s is) := by
  induction is generalizing s with
  | nil => exact hs
  | cons i is ih => exact ih (hstep s i hs)

/-- Related states answer alike and stay related. -/
def Simulates (step : σ → ι → σ × ω) (spec : τ → ι → τ × ω) (R : σ → τ → Prop) : Prop :=
  ∀ s t i, R s t → (step s i).2 = (spec t i).2 ∧ R (step s i).1 (spec t i).1

variable {step : σ → ι → σ × ω} {spec : τ → ι → τ × ω} {R : σ → τ → Prop}

theorem Simulates.after (h : Simulates step spec R) {s : σ} {t : τ} (hst : R s t)
    (is : List ι) : R (after step s is) (after spec t is) := by
  induction is generalizing s t with
  | nil => exact hst
  | cons i is ih => exact ih (h s t i hst).2

theorem Simulates.answers_eq (h : Simulates step spec R) {s : σ} {t : τ} (hst : R s t)
    (is : List ι) : answers step s is = answers spec t is := by
  induction is generalizing s t with
  | nil => rfl
  | cons i is ih =>
      obtain ⟨hanswer, hnext⟩ := h s t i hst
      rw [answers, answers, hanswer, ih hnext]

end SessionServer.Foundation
