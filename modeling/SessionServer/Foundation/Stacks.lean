/-
  Foundation/Stacks.lean --- weights of the frames on the stacks of a set of threads.

  A set of threads is a list of threads.  The total of a weight over all frames changes
  with a step of one thread only by what the step takes off its stack and puts on it,
  and a frame that is present alongside the stepping one weighs in with it.

  Nothing here names the server; the later files instantiate it.
-/
import Mathlib

set_option autoImplicit false

namespace SessionServer.Foundation

variable {α : Type}

/-- The sum of a weight over the frames of all stacks. -/
def total (w : α → Nat) (threads : List (List α)) : Nat :=
  (threads.map fun stack => (stack.map w).sum).sum

/-- The frame is on one of the stacks. -/
def Present (threads : List (List α)) (frame : α) : Prop :=
  ∃ stack ∈ threads, frame ∈ stack

instance [DecidableEq α] (threads : List (List α)) (frame : α) :
    Decidable (Present threads frame) :=
  inferInstanceAs (Decidable (∃ stack ∈ threads, frame ∈ stack))

variable {w : α → Nat} {threads : List (List α)} {t : Nat}

/-- Replacing one element changes a sum by the difference of the two. -/
theorem sum_map_set {β : Type} (weight : β → Nat) {l : List β} {i : Nat} {a : β} (b : β)
    (h : l[i]? = some a) :
    ((l.set i b).map weight).sum + weight a = (l.map weight).sum + weight b := by
  induction l generalizing i with
  | nil => simp at h
  | cons c l ih =>
      cases i with
      | zero =>
          simp only [List.getElem?_cons_zero, Option.some.injEq] at h
          subst h
          simp only [List.set_cons_zero, List.map_cons, List.sum_cons]
          omega
      | succ i =>
          have hrest := ih (by simpa using h)
          simp only [List.set_cons_succ, List.map_cons, List.sum_cons]
          omega

/-- An element of a list after one has been replaced. -/
theorem getElem?_set_cases {β : Type} {l : List β} {i j : Nat} {a x : β}
    (h : (l.set i a)[j]? = some x) : (j = i ∧ x = a) ∨ (j ≠ i ∧ l[j]? = some x) := by
  by_cases hij : j = i
  · subst hij
    have hlt : j < l.length := by
      have hlen := (List.getElem?_eq_some_iff.mp h).1
      rwa [List.length_set] at hlen
    rw [List.getElem?_set_self hlt, Option.some.injEq] at h
    exact Or.inl ⟨rfl, h.symm⟩
  · rw [List.getElem?_set_ne (Ne.symm hij)] at h
    exact Or.inr ⟨hij, h⟩

/-- An element that was not there before is the one that has been put there. -/
theorem getElem?_set_came {β : Type} {l : List β} {i j : Nat} {a x : β}
    (h : (l.set i a)[j]? = some x) (hbefore : l[j]? ≠ some x) : j = i ∧ x = a := by
  rcases getElem?_set_cases h with hset | ⟨-, hold⟩
  · exact hset
  · exact absurd hold hbefore

/-- Replacing one stack changes the total by the difference of the two stacks. -/
theorem total_set {old : List α} (new : List α) (h : threads[t]? = some old) :
    total w (threads.set t new) + (old.map w).sum = total w threads + (new.map w).sum :=
  sum_map_set (fun stack => (stack.map w).sum) new h

/-- The top frame of a stack is replaced. -/
theorem total_set_cons {frame : α} {rest : List α} (frames : List α)
    (h : threads[t]? = some (frame :: rest)) :
    total w (threads.set t (frames ++ rest)) + w frame = total w threads + (frames.map w).sum := by
  have := total_set (w := w) (frames ++ rest) h
  simp only [List.map_cons, List.sum_cons, List.map_append, List.sum_append] at this
  omega

/-- Frames are put on a stack. -/
theorem total_set_append {stack : List α} (frames : List α) (h : threads[t]? = some stack) :
    total w (threads.set t (frames ++ stack)) = total w threads + (frames.map w).sum := by
  have := total_set (w := w) (frames ++ stack) h
  simp only [List.map_append, List.sum_append] at this
  omega

theorem total_add {v : α → Nat} :
    total (fun frame => v frame + w frame) threads = total v threads + total w threads := by
  have hstack : ∀ stack : List α, (stack.map fun frame => v frame + w frame).sum =
      (stack.map v).sum + (stack.map w).sum := fun stack => List.sum_map_add
  simp only [total, hstack, List.sum_map_add]

/-- A weight that is at most a multiple of another one is so in total. -/
theorem total_le_mul {v : α → Nat} {c : Nat} (h : ∀ frame, w frame ≤ c * v frame) :
    total w threads ≤ c * total v threads := by
  have hstack : ∀ stack : List α, (stack.map w).sum ≤ c * (stack.map v).sum := by
    intro stack
    induction stack with
    | nil => simp
    | cons frame stack ih =>
        have := h frame
        simp only [List.map_cons, List.sum_cons, Nat.mul_add]
        omega
  induction threads with
  | nil => simp [total]
  | cons stack threads ih =>
      have := hstack stack
      simp only [total, List.map_cons, List.sum_cons, Nat.mul_add] at ih ⊢
      omega

/-- Where the top frame carries all of one weight, it carries all of a weight bounded by
it. -/
theorem total_eq_of_owner {v : α → Nat} {c : Nat} (h : ∀ frame, w frame ≤ c * v frame)
    {frame : α} {rest : List α} (hstack : threads[t]? = some (frame :: rest))
    (hall : total v threads = v frame) : total w threads = w frame := by
  have hv := total_set_cons (w := v) [] hstack
  have hw := total_set_cons (w := w) [] hstack
  have hle : total w (threads.set t ([] ++ rest)) ≤ c * total v (threads.set t ([] ++ rest)) :=
    total_le_mul h
  simp only [List.map_nil, List.sum_nil] at hv hw
  have hzero : total v (threads.set t ([] ++ rest)) = 0 := by omega
  rw [hzero] at hle
  omega

theorem le_sum_of_mem {stack : List α} {frame : α} (h : frame ∈ stack) :
    w frame ≤ (stack.map w).sum :=
  List.le_sum_of_mem (List.mem_map_of_mem h)

/-- Threads that call nothing. -/
theorem total_replicate_nil (n : Nat) : total w (List.replicate n []) = 0 := by
  simp [total, List.map_replicate, List.sum_replicate]

theorem not_present_replicate_nil (n : Nat) (frame : α) :
    ¬ Present (List.replicate n []) frame := by
  rintro ⟨stack, hstack, hframe⟩
  rw [(List.mem_replicate.mp hstack).2] at hframe
  exact List.not_mem_nil hframe

/-- A frame that is present weighs in the total. -/
theorem Present.le_total {frame : α} (h : Present threads frame) : w frame ≤ total w threads := by
  obtain ⟨stack, hstack, hframe⟩ := h
  refine Nat.le_trans (le_sum_of_mem hframe) ?_
  exact List.le_sum_of_mem (List.mem_map.mpr ⟨stack, hstack, rfl⟩)

/-- A weight no frame carries. -/
theorem total_eq_zero (h : ∀ frame, Present threads frame → w frame = 0) :
    total w threads = 0 := by
  unfold total
  rw [List.sum_eq_zero_iff]
  intro n hn
  obtain ⟨stack, hstack, rfl⟩ := List.mem_map.mp hn
  rw [List.sum_eq_zero_iff]
  intro m hm
  obtain ⟨frame, hframe, rfl⟩ := List.mem_map.mp hm
  exact h frame ⟨stack, hstack, hframe⟩

/-- Where the top frame carries all of one weight, it carries all of a weight that only such
frames have. -/
theorem total_eq_of_only {v : α → Nat} (h : ∀ frame, v frame = 0 → w frame = 0)
    {frame : α} {rest : List α} (hstack : threads[t]? = some (frame :: rest))
    (hall : total v threads = v frame) : total w threads = w frame := by
  have hv := total_set_cons (w := v) [] hstack
  have hw := total_set_cons (w := w) [] hstack
  simp only [List.map_nil, List.sum_nil] at hv hw
  have hzero : total w (threads.set t ([] ++ rest)) = 0 := by
    refine total_eq_zero fun other hother => h other ?_
    have := hother.le_total (w := v)
    omega
  omega

/-- Two weights that agree on the frames present. -/
theorem total_congr {v : α → Nat} (h : ∀ frame, Present threads frame → v frame = w frame) :
    total v threads = total w threads := by
  unfold total
  refine congrArg List.sum (List.map_congr_left fun stack hstack => ?_)
  exact congrArg List.sum (List.map_congr_left fun frame hframe => h frame ⟨stack, hstack, hframe⟩)

theorem present_of_getElem? {stack : List α} {frame : α} (h : threads[t]? = some stack)
    (hframe : frame ∈ stack) : Present threads frame :=
  ⟨stack, List.mem_of_getElem? h, hframe⟩

/-- After a step, a frame is one the step has put on the stack, or it was present
beside the frame that has stepped. -/
theorem Present.of_set_cons {frame other : α} {rest frames : List α}
    (h : threads[t]? = some (frame :: rest))
    (hother : Present (threads.set t (frames ++ rest)) other) :
    other ∈ frames ∨
      (Present threads other ∧ ∀ w : α → Nat, w frame + w other ≤ total w threads) := by
  obtain ⟨stack, hstack, hmem⟩ := hother
  obtain ⟨k, hk⟩ := List.getElem?_of_mem hstack
  rcases getElem?_set_cases hk with ⟨rfl, rfl⟩ | ⟨heq, hold⟩
  · rcases List.mem_append.mp hmem with hmem | hmem
    · exact Or.inl hmem
    · refine Or.inr ⟨present_of_getElem? h (List.mem_cons_of_mem _ hmem), fun w => ?_⟩
      have hsum := le_sum_of_mem (w := w) hmem
      have hset : ((frame :: rest).map w).sum ≤ total w threads :=
        List.le_sum_of_mem (List.mem_map.mpr ⟨frame :: rest, List.mem_of_getElem? h, rfl⟩)
      simp only [List.map_cons, List.sum_cons] at hset
      omega
  · refine Or.inr ⟨present_of_getElem? hold hmem, fun w => ?_⟩
    have htotal := total_set_cons (w := w) [] h
    have hstill : Present (threads.set t ([] ++ rest)) other :=
      present_of_getElem? (t := k) (by rw [List.getElem?_set_ne (Ne.symm heq)]; exact hold) hmem
    have := hstill.le_total (w := w)
    simp only [List.map_nil, List.sum_nil] at htotal
    omega

/-- A frame that is present stays where it is, unless it is the one that steps. -/
theorem Present.kept {frame other : α} {rest : List α} (frames : List α)
    (h : threads[t]? = some (frame :: rest)) (hother : Present threads other) :
    other = frame ∨ Present (threads.set t (frames ++ rest)) other := by
  obtain ⟨hlt, _⟩ := List.getElem?_eq_some_iff.mp h
  obtain ⟨stack, hstack, hmem⟩ := hother
  obtain ⟨k, hk⟩ := List.getElem?_of_mem hstack
  by_cases heq : t = k
  · subst heq
    rw [h, Option.some.injEq] at hk
    rw [← hk] at hmem
    refine (List.mem_cons.mp hmem).imp id fun hrest => ?_
    exact present_of_getElem? (List.getElem?_set_self hlt) (List.mem_append_right _ hrest)
  · exact Or.inr (present_of_getElem? ((List.getElem?_set_ne heq).trans hk) hmem)

/-- A frame a step has put on the stack is present. -/
theorem Present.added {frame : α} {stack new : List α} (h : threads[t]? = some stack)
    (hmem : frame ∈ new) : Present (threads.set t new) frame := by
  obtain ⟨hlt, _⟩ := List.getElem?_eq_some_iff.mp h
  exact present_of_getElem? (List.getElem?_set_self hlt) hmem

/-- Putting frames on a stack takes none away. -/
theorem Present.under {stack : List α} {other : α} (frames : List α) (h : threads[t]? = some stack)
    (hother : Present threads other) : Present (threads.set t (frames ++ stack)) other := by
  cases stack with
  | nil =>
      obtain ⟨found, hfound, hmem⟩ := hother
      obtain ⟨k, hk⟩ := List.getElem?_of_mem hfound
      have hne : t ≠ k := by
        rintro rfl
        rw [h, Option.some.injEq] at hk
        simp [← hk] at hmem
      exact present_of_getElem? ((List.getElem?_set_ne hne).trans hk) hmem
  | cons frame rest =>
      rcases hother.kept (frames ++ [frame]) h with rfl | hkept
      · exact Present.added h (by simp)
      · simpa using hkept

/-- After frames have been put on a stack, a frame is one of these or was present. -/
theorem Present.of_set_append {stack : List α} (frames : List α) {other : α}
    (h : threads[t]? = some stack)
    (hother : Present (threads.set t (frames ++ stack)) other) :
    other ∈ frames ∨ Present threads other := by
  obtain ⟨found, hfound, hmem⟩ := hother
  rcases List.mem_or_eq_of_mem_set hfound with hold | rfl
  · exact Or.inr ⟨found, hold, hmem⟩
  · rcases List.mem_append.mp hmem with hmem | hmem
    · exact Or.inl hmem
    · exact Or.inr (present_of_getElem? h hmem)

end SessionServer.Foundation
