/-
  Common/LockFreeStack.lean --- the lock-free stack.

  `LockFreeStack.h`.  The calls of all threads are taken apart into their reads and writes
  of what they share.  The pool gives any node that is nobody's.  `_size` is a `long`; the
  number of nodes bounds it from above, and twice the number of threads from below, so that it
  is an `Int` here.
-/
import SessionServer.Common.LockFree

set_option autoImplicit false

namespace SessionServer.Common

open SessionServer.Foundation

open LockFree

/-- The stack and the nodes of its pool.  `home`, `tags` and `history` are the records. -/
structure LFStack (α : Type) where
  top : Word
  size : Int
  key : UInt16
  data : Nat → α
  next : Nat → Word
  home : Nat → Home
  tags : UInt16 → TagUse
  history : List (Event α)

namespace LFStack

variable {α : Type}

/-- The constructor; what is in the nodes before is whatever it is. -/
def new (data : Nat → α) (next : Nat → Word) : LFStack α where
  top := none
  size := 0
  key := 0
  data := data
  next := next
  home := fun _ => .free
  tags := fun _ => .unused
  history := []

/-- Where a call is, with its variables. -/
inductive Pc (α : Type)
  | idle
  | pushData (newnode : Nat) (data : α)
  | pushKey (newnode : Nat) (data : α)
  | pushRead (countnode : Tagged) (data : α)
  | pushNext (countnode : Tagged) (data : α) (oldtop : Word)
  | pushCas (countnode : Tagged) (data : α) (oldtop : Word)
  | pushSize (countnode : Tagged)
  | popSize
  | popRestore
  | popRead
  | popNext (oldtop : Word)
  | popData (oldtop : Tagged) (newtop : Word)
  | popCas (oldtop : Tagged) (newtop : Word) (data : α)
  | popFree (realadr : Nat) (data : α)
  deriving DecidableEq

/-- One read or write of what the threads share; `none` where a null pointer is followed or the
thread is in no call. -/
def advance (s : LFStack α) (t : Nat) : Pc α → Option (LFStack α × Pc α)
  | .idle => none
  | .pushData newnode data =>
      some ({ s with data := Function.update s.data newnode data }, .pushKey newnode data)
  | .pushKey newnode data =>
      some ({ s with key := s.key + 1, tags := Function.update s.tags (s.key + 1) (.pending t) },
        .pushRead ⟨newnode, s.key + 1⟩ data)
  | .pushRead countnode data => some (s, .pushNext countnode data s.top)
  | .pushNext countnode data oldtop =>
      some ({ s with next := Function.update s.next countnode.node oldtop },
        .pushCas countnode data oldtop)
  | .pushCas countnode data oldtop =>
      if s.top = oldtop then
        some ({ s with
          top := some countnode
          home := Function.update s.home countnode.node (.container 0)
          tags := Function.update s.tags countnode.tag .used
          history := s.history ++ [.push data] }, .pushSize countnode)
      else some (s, .pushRead countnode data)
  | .pushSize _ => some ({ s with size := s.size + 1 }, .idle)
  | .popSize =>
      some ({ s with size := s.size - 1 }, if s.size - 1 < 0 then .popRestore else .popRead)
  | .popRestore => some ({ s with size := s.size + 1 }, .idle)
  | .popRead => some (s, .popNext s.top)
  | .popNext none => none
  | .popNext (some oldtop) => some (s, .popData oldtop (s.next oldtop.node))
  | .popData oldtop newtop => some (s, .popCas oldtop newtop (s.data oldtop.node))
  | .popCas oldtop newtop data =>
      if s.top = some oldtop then
        some ({ s with
          top := newtop
          home := Function.update s.home oldtop.node (.thread t)
          history := s.history ++ [.pop data] }, .popFree oldtop.node data)
      else some (s, .popRead)
  | .popFree realadr _ => some ({ s with home := Function.update s.home realadr .free }, .idle)

/-- `begun` are the values of the `Push` calls. -/
structure System (α : Type) where
  stack : LFStack α
  threads : List (Pc α)
  begun : List α

/-- A thread begins a call, `Push` with the node that the pool gives it, or goes on with one. -/
inductive Label (α : Type)
  | push (t : Nat) (data : α) (newnode : Nat)
  | pop (t : Nat)
  | step (t : Nat)
  deriving DecidableEq

def step (s : System α) : Label α → Option (System α)
  | .push t data newnode =>
      match s.threads[t]? with
      | some .idle =>
          if s.stack.home newnode = .free then
            some
              { stack := { s.stack with home := Function.update s.stack.home newnode (.thread t) }
                threads := s.threads.set t (.pushData newnode data)
                begun := s.begun ++ [data] }
          else none
      | _ => none
  | .pop t =>
      match s.threads[t]? with
      | some .idle => some { s with threads := s.threads.set t .popSize }
      | _ => none
  | .step t =>
      match s.threads[t]? with
      | none => none
      | some pc =>
          (advance s.stack t pc).map fun (stack, pc') =>
            { s with stack := stack, threads := s.threads.set t pc' }

/-- The system before the first call. -/
def start (data : Nat → α) (next : Nat → Word) (threads : Nat) : System α where
  stack := new data next
  threads := List.replicate threads .idle
  begun := []

/-- The tags do not repeat: `Push` gets one that no `Push` had before. -/
def Fresh (s : LFStack α) : Pc α → Prop
  | .pushKey _ _ => s.tags (s.key + 1) = .unused
  | _ => True

instance (s : LFStack α) : (pc : Pc α) → Decidable (s.Fresh pc)
  | .pushKey _ _ => inferInstanceAs (Decidable (s.tags (s.key + 1) = .unused))
  | .idle | .pushData _ _ | .pushRead _ _ | .pushNext _ _ _ | .pushCas _ _ _ | .pushSize _
  | .popSize | .popRestore | .popRead | .popNext _ | .popData _ _ | .popCas _ _ _
  | .popFree _ _ => isTrue trivial

def System.Fresh (s : System α) : Label α → Prop
  | .step t => ∀ pc ∈ s.threads[t]?, s.stack.Fresh pc
  | _ => True

instance (s : System α) : (label : Label α) → Decidable (s.Fresh label)
  | .step t => inferInstanceAs (Decidable (∀ pc ∈ s.threads[t]?, s.stack.Fresh pc))
  | .push _ _ _ | .pop _ => isTrue trivial

/-- The words that a call has read from the top, or has pushed and not yet counted. -/
def held : Pc α → List Tagged
  | .pushSize w | .popNext (some w) | .popData w _ | .popCas w _ _ => [w]
  | _ => []

/-- A word does not come back to the top while a call still has it. -/
def Unheld (s : LFStack α) (threads : List (Pc α)) : Pc α → Prop
  | .pushCas countnode _ oldtop => s.top = oldtop → ∀ pc ∈ threads, countnode ∉ held pc
  | _ => True

instance (s : LFStack α) (threads : List (Pc α)) : (pc : Pc α) → Decidable (s.Unheld threads pc)
  | .pushCas countnode _ oldtop =>
      inferInstanceAs (Decidable (s.top = oldtop → ∀ pc ∈ threads, countnode ∉ held pc))
  | .idle | .pushData _ _ | .pushKey _ _ | .pushRead _ _ | .pushNext _ _ _ | .pushSize _
  | .popSize | .popRestore | .popRead | .popNext _ | .popData _ _ | .popCas _ _ _
  | .popFree _ _ => isTrue trivial

def System.Unheld (s : System α) : Label α → Prop
  | .step t => ∀ pc ∈ s.threads[t]?, s.stack.Unheld s.threads pc
  | _ => True

instance (s : System α) : (label : Label α) → Decidable (s.Unheld label)
  | .step t => inferInstanceAs (Decidable (∀ pc ∈ s.threads[t]?, s.stack.Unheld s.threads pc))
  | .push _ _ _ | .pop _ => isTrue trivial

end LFStack

end SessionServer.Common
