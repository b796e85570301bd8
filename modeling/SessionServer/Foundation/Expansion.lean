/-
  Foundation/Expansion.lean --- a step that is several calls of a specification.

  One step of a machine can do what a specification does in any number of calls.  The run is
  then the run of the specification over all these calls, in their order, with the same
  answers; what is to be known of the calls is a property of the history.

  Nothing here names the server.
-/
import SessionServer.Foundation.Run
import SessionServer.Foundation.Simulation

set_option autoImplicit false

namespace SessionServer.Foundation

variable {σ τ ι κ ω : Type}

/-- Each step is the calls given for it, on what the machine shows of its state, with their
answers in the log. -/
structure Expands (step : σ → ι → Option σ) (spec : τ → κ → τ × ω) (view : σ → τ)
    (log : σ → List ω) (calls : σ → ι → List κ) : Prop where
  state : ∀ s i t, step s i = some t → view t = after spec (view s) (calls s i)
  answered : ∀ s i t, step s i = some t → log t = log s ++ answers spec (view s) (calls s i)

/-- The calls of a run. -/
def callsAlong (step : σ → ι → Option σ) (calls : σ → ι → List κ) : σ → List ι → List κ
  | _, [] => []
  | s, i :: is =>
      calls s i ++ match step s i with
        | some t => callsAlong step calls t is
        | none => []

variable {step : σ → ι → Option σ} {spec : τ → κ → τ × ω} {view : σ → τ}
  {log : σ → List ω} {calls : σ → ι → List κ}

theorem callsAlong_cons {s t : σ} {i : ι} {is : List ι} (h : step s i = some t) :
    callsAlong step calls s (i :: is) = calls s i ++ callsAlong step calls t is := by
  rw [callsAlong, h]

/-- **A run is the run of the specification over the calls of its steps.** -/
theorem Expands.run (h : Expands step spec view log calls) :
    ∀ {is : List ι} {s t : σ}, exec step s is = some t →
      view t = after spec (view s) (callsAlong step calls s is) ∧
        log t = log s ++ answers spec (view s) (callsAlong step calls s is) := by
  intro is
  induction is with
  | nil =>
      intro s t hrun
      rw [exec_nil, Option.some.injEq] at hrun
      subst hrun
      exact ⟨rfl, (List.append_nil _).symm⟩
  | cons i is ih =>
      intro s t hrun
      obtain ⟨m, hm, hrest⟩ := exec_cons_eq_some.mp hrun
      obtain ⟨hview, hlog⟩ := ih hrest
      rw [callsAlong_cons hm, after_append, answers_append, ← h.state s i m hm]
      refine ⟨hview, ?_⟩
      rw [hlog, h.answered s i m hm, List.append_assoc]

/-- The history rule: what every step that meets a condition keeps, with its calls, holds of
the calls of a run. -/
theorem calls_history_along {ok : σ → ι → Prop} {H : σ → List κ → Prop}
    (hstep : ∀ s i t done, H s done → ok s i → step s i = some t → H t (done ++ calls s i)) :
    ∀ {is : List ι} {s t : σ} {done : List κ}, H s done → Along step ok s is →
      exec step s is = some t → H t (done ++ callsAlong step calls s is) := by
  intro is
  induction is with
  | nil =>
      intro s t done hs _ hrun
      rw [exec_nil, Option.some.injEq] at hrun
      subst hrun
      rw [callsAlong, List.append_nil]
      exact hs
  | cons i is ih =>
      intro s t done hs hok hrun
      obtain ⟨m, hm, hrest⟩ := exec_cons_eq_some.mp hrun
      rw [callsAlong_cons hm, ← List.append_assoc]
      exact ih (hstep s i m done hs hok.1 hm) (hok.2 m hm) hrest

/-- The rule without a condition. -/
theorem calls_history {H : σ → List κ → Prop}
    (hstep : ∀ s i t done, H s done → step s i = some t → H t (done ++ calls s i))
    {is : List ι} {s t : σ} {done : List κ} (hs : H s done) (hrun : exec step s is = some t) :
    H t (done ++ callsAlong step calls s is) :=
  calls_history_along (fun s i t done hs _ hm => hstep s i t done hs hm) hs along_true hrun

end SessionServer.Foundation
