/-
  Foundation/Histories.lean --- what a stack and a queue are for.

  A history is the list of the pushes and pops that took effect, in order.  It is that of a
  stack if every pop takes the last value pushed that is still there, and that of a queue if
  it takes the first.

  Nothing here names the server; the later files instantiate it.
-/
import Mathlib

set_option autoImplicit false

namespace SessionServer.Foundation

variable {α : Type}

/-- An operation that took effect, with its value. -/
inductive Event (α : Type)
  | push (a : α)
  | pop (a : α)
  deriving DecidableEq

/-- The history leads from an empty stack to one with these values, the last one first. -/
inductive Lifo : List (Event α) → List α → Prop
  | empty : Lifo [] []
  | push {history : List (Event α)} {values : List α} (h : Lifo history values) (a : α) :
      Lifo (history ++ [.push a]) (a :: values)
  | pop {history : List (Event α)} {values : List α} {a : α} (h : Lifo history (a :: values)) :
      Lifo (history ++ [.pop a]) values

/-- The history leads from an empty queue to one with these values, the first one first. -/
inductive Fifo : List (Event α) → List α → Prop
  | empty : Fifo [] []
  | push {history : List (Event α)} {values : List α} (h : Fifo history values) (a : α) :
      Fifo (history ++ [.push a]) (values ++ [a])
  | pop {history : List (Event α)} {values : List α} {a : α} (h : Fifo history (a :: values)) :
      Fifo (history ++ [.pop a]) values

/-- The values pushed, in order. -/
def pushed : List (Event α) → List α
  | [] => []
  | .push a :: history => a :: pushed history
  | .pop _ :: history => pushed history

/-- The values popped, in order. -/
def popped : List (Event α) → List α
  | [] => []
  | .push _ :: history => popped history
  | .pop a :: history => a :: popped history

theorem pushed_append (h h' : List (Event α)) : pushed (h ++ h') = pushed h ++ pushed h' := by
  induction h with
  | nil => rfl
  | cons e h ih => cases e <;> simp [pushed, ih]

theorem popped_append (h h' : List (Event α)) : popped (h ++ h') = popped h ++ popped h' := by
  induction h with
  | nil => rfl
  | cons e h ih => cases e <;> simp [popped, ih]

variable {history : List (Event α)} {values : List α}

/-- What was pushed has been popped or is still on the stack. -/
theorem Lifo.perm (h : Lifo history values) : (pushed history).Perm (popped history ++ values) := by
  induction h with
  | empty => exact List.Perm.refl []
  | push h a ih =>
      rw [pushed_append, popped_append]
      refine (ih.append_right [a]).trans ?_
      simp only [popped, List.append_nil, List.append_assoc]
      exact List.perm_append_comm.append_left _
  | pop h ih =>
      rw [pushed_append, popped_append]
      simpa [pushed, popped] using ih

/-- What was pushed has been popped in the same order, and the rest is still in the queue. -/
theorem Fifo.eq (h : Fifo history values) : pushed history = popped history ++ values := by
  induction h with
  | empty => rfl
  | push h a ih =>
      rw [pushed_append, popped_append, ih]
      simp [pushed, popped]
  | pop h ih =>
      rw [pushed_append, popped_append, ih]
      simp [pushed, popped]

end SessionServer.Foundation
