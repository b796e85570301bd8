/-
  Common/LockFreeQueue.lean --- the lock-free queues.

  `LockFreeQueue(CAS).h` and `MaxLockFreeQueue(CAS).h`.  The pool is static: all queues of a
  kind take their nodes from the same one, and a node that leaves one queue may enter
  another.  The calls of all threads on all queues are taken apart into their reads and
  writes of what they share.  `_size` and `_maxSize` are `long`; the number of nodes bounds
  `_size` from above, and twice the number of threads from below, so that it is an `Int` here.
-/
import SessionServer.Common.LockFree

set_option autoImplicit false

namespace SessionServer.Common

open SessionServer.Foundation

open LockFree

/-- One queue; a `MAXLFQueue` has a `_maxSize`.  `tags` and `history` are the records. -/
structure LFQueue (α : Type) where
  head : Word
  tail : Word
  size : Int
  maxSize : Option Int
  tags : UInt16 → TagUse
  history : List (Event α)

/-- The constructor of `LFQueue`, with the node the pool gives for the dummy. -/
def LFQueue.new {α : Type} (dummy : Nat) : LFQueue α where
  head := some ⟨dummy, 0⟩
  tail := some ⟨dummy, 0⟩
  size := 0
  maxSize := none
  tags := fun tag => if tag = 0 then .used else .unused
  history := []

/-- The constructor of `MAXLFQueue`. -/
def MAXLFQueue.new {α : Type} (maxsize : Int) (dummy : Nat) : LFQueue α :=
  { LFQueue.new dummy with maxSize := some maxsize }

namespace LFQueue

/-- The queues and the nodes of their pool.  `home` is a record. -/
structure Memory (n : Nat) (α : Type) where
  queues : Fin n → LFQueue α
  data : Nat → α
  next : Nat → Word
  home : Nat → Home

variable {n : Nat} {α : Type}

/-- One of the queues is written to. -/
def Memory.setQueue (m : Memory n α) (q : Fin n) (queue : LFQueue α) : Memory n α :=
  { m with queues := Function.update m.queues q queue }

/-- Where a call is, with its variables.  The tag in `countnode` of `Enqueue` lives on through
its rounds. -/
inductive Pc (n : Nat) (α : Type)
  | idle
  | enqCheck (q : Fin n) (data : α)
  | enqAlloc (q : Fin n) (data : α)
  | enqData (q : Fin n) (newnode : Nat) (data : α)
  | enqNext (q : Fin n) (newnode : Nat) (data : α)
  | enqRead (q : Fin n) (newnode : Nat) (tag : UInt16) (data : α)
  | enqTail (q : Fin n) (newnode : Nat) (tag : UInt16) (oldtail : Word) (data : α)
  | enqLink (q : Fin n) (countnode : Tagged) (realadr : Option Nat) (data : α)
  | enqSize (q : Fin n) (countnode : Tagged)
  | deqSize (q : Fin n)
  | deqRestore (q : Fin n)
  | deqTail (q : Fin n)
  | deqTailNext (q : Fin n) (oldtail : Word)
  | deqTailAgain (q : Fin n) (oldtail : Tagged)
  | deqTailCas (q : Fin n) (oldtail : Tagged) (next : Word)
  | deqHead (q : Fin n)
  | deqNext (q : Fin n) (oldhead : Word)
  | deqData (q : Fin n) (oldhead newhead : Tagged)
  | deqCas (q : Fin n) (oldhead newhead : Tagged) (data : α)
  | deqFree (q : Fin n) (realadr : Nat) (data : α)
  deriving DecidableEq

/-- One read or write of what the threads share; `none` where a null pointer is followed or the
thread is in no call.  `Alloc` is a step of its own. -/
def advance (m : Memory n α) (t : Nat) : Pc n α → Option (Memory n α × Pc n α)
  | .idle => none
  | .enqCheck q data =>
      match (m.queues q).maxSize with
      | none => some (m, .enqAlloc q data)
      | some maxSize =>
          if maxSize ≤ (m.queues q).size then some (m, .idle) else some (m, .enqAlloc q data)
  | .enqAlloc _ _ => none
  | .enqData q newnode data =>
      some ({ m with data := Function.update m.data newnode data }, .enqNext q newnode data)
  | .enqNext q newnode data =>
      some ({ m with next := Function.update m.next newnode none }, .enqRead q newnode 0 data)
  | .enqRead q newnode tag data =>
      some (m, .enqTail q newnode (tag ||| (m.queues q).tail.nextTag) (m.queues q).tail data)
  | .enqTail q newnode tag oldtail data =>
      if (m.queues q).tail = oldtail then
        some
          ({ m.setQueue q { m.queues q with
                tail := some ⟨newnode, tag⟩
                tags := Function.update (m.queues q).tags tag .used
                history := (m.queues q).history ++ [.push data] } with
              home := Function.update m.home newnode (.entering t q) },
            .enqLink q ⟨newnode, tag⟩ oldtail.node data)
      else some (m, .enqRead q newnode tag data)
  | .enqLink _ _ none _ => none
  | .enqLink q countnode (some realadr) data =>
      if m.next realadr = none then
        some
          ({ m with
              next := Function.update m.next realadr (some countnode)
              home := Function.update m.home countnode.node (.container q) },
            .enqSize q countnode)
      else some (m, .enqRead q countnode.node countnode.tag data)
  | .enqSize q _ => some (m.setQueue q { m.queues q with size := (m.queues q).size + 1 }, .idle)
  | .deqSize q =>
      some (m.setQueue q { m.queues q with size := (m.queues q).size - 1 },
        if (m.queues q).size - 1 < 0 then .deqRestore q else .deqTail q)
  | .deqRestore q => some (m.setQueue q { m.queues q with size := (m.queues q).size + 1 }, .idle)
  | .deqTail q => some (m, .deqTailNext q (m.queues q).tail)
  | .deqTailNext _ none => none
  | .deqTailNext q (some oldtail) =>
      if m.next oldtail.node = none then some (m, .deqHead q) else some (m, .deqTailAgain q oldtail)
  | .deqTailAgain q oldtail => some (m, .deqTailCas q oldtail (m.next oldtail.node))
  | .deqTailCas q oldtail next =>
      if (m.queues q).tail = some oldtail then
        some (m.setQueue q { m.queues q with tail := next }, .deqTail q)
      else some (m, .deqTail q)
  | .deqHead q => some (m, .deqNext q (m.queues q).head)
  | .deqNext _ none => none
  | .deqNext q (some oldhead) =>
      match m.next oldhead.node with
      | none => some (m, .deqHead q)
      | some newhead => some (m, .deqData q oldhead newhead)
  | .deqData q oldhead newhead => some (m, .deqCas q oldhead newhead (m.data newhead.node))
  | .deqCas q oldhead newhead data =>
      if (m.queues q).head = some oldhead then
        some
          ({ m.setQueue q { m.queues q with
                head := some newhead
                history := (m.queues q).history ++ [.pop data] } with
              home := Function.update m.home oldhead.node (.thread t) },
            .deqFree q oldhead.node data)
      else some (m, .deqTail q)
  | .deqFree _ realadr _ => some ({ m with home := Function.update m.home realadr .free }, .idle)

/-- The values of the calls on a queue: those of the `Enqueue` calls, those a full `MAXLFQueue`
has refused, and those the `Dequeue` calls have returned. -/
structure Calls (α : Type) where
  begun : List α
  refused : List α
  returned : List α
  deriving DecidableEq

/-- What is recorded of a step from `pc` to `pc'`: the value of a call that ends there. -/
def record (calls : Fin n → Calls α) (pc pc' : Pc n α) : Fin n → Calls α :=
  match pc, pc' with
  | .enqCheck q data, .idle =>
      Function.update calls q { calls q with refused := (calls q).refused ++ [data] }
  | .deqFree q _ data, .idle =>
      Function.update calls q { calls q with returned := (calls q).returned ++ [data] }
  | _, _ => calls

/-- `calls` are records. -/
structure System (n : Nat) (α : Type) where
  memory : Memory n α
  threads : List (Pc n α)
  calls : Fin n → Calls α

/-- A thread begins a call, gets a node from the pool, or goes on with a call. -/
inductive Label (n : Nat) (α : Type)
  | enqueue (t : Nat) (q : Fin n) (data : α)
  | dequeue (t : Nat) (q : Fin n)
  | alloc (t : Nat) (newnode : Nat)
  | step (t : Nat)
  deriving DecidableEq

def step (s : System n α) : Label n α → Option (System n α)
  | .enqueue t q data =>
      match s.threads[t]? with
      | some .idle =>
          some
            { s with
                threads := s.threads.set t (.enqCheck q data)
                calls := Function.update s.calls q
                  { s.calls q with begun := (s.calls q).begun ++ [data] } }
      | _ => none
  | .dequeue t q =>
      match s.threads[t]? with
      | some .idle => some { s with threads := s.threads.set t (.deqSize q) }
      | _ => none
  | .alloc t newnode =>
      match s.threads[t]? with
      | some (.enqAlloc q data) =>
          if s.memory.home newnode = .free then
            some
              { s with
                  memory :=
                    { s.memory with home := Function.update s.memory.home newnode (.thread t) }
                  threads := s.threads.set t (.enqData q newnode data) }
          else none
      | _ => none
  | .step t =>
      match s.threads[t]? with
      | none => none
      | some pc =>
          (advance s.memory t pc).map fun (memory, pc') =>
            { memory := memory, threads := s.threads.set t pc', calls := record s.calls pc pc' }

/-- An `LFQueue`, or a `MAXLFQueue` with its `maxsize`. -/
def made (maxSize : Option Int) (dummy : Nat) : LFQueue α :=
  match maxSize with
  | none => LFQueue.new dummy
  | some maxsize => MAXLFQueue.new maxsize dummy

/-- The system before the first call: queue `q` has node `q` for its dummy, and the others are
free, whatever is in them. -/
def start (maxSize : Fin n → Option Int) (data : Nat → α) (next : Nat → Word) (threads : Nat) :
    System n α where
  memory :=
    { queues := fun q => made (maxSize q) q
      data := data
      next := fun node => if node < n then none else next node
      home := fun node => if node < n then .container node else .free }
  threads := List.replicate threads .idle
  calls := fun _ => ⟨[], [], []⟩

/-- The tags do not repeat: a node is put behind the tail of a queue with a tag that was not
there before. -/
def Fresh (m : Memory n α) : Pc n α → Prop
  | .enqTail q _ tag oldtail _ =>
      (m.queues q).tail = oldtail → (m.queues q).tags tag = .unused
  | _ => True

instance (m : Memory n α) : (pc : Pc n α) → Decidable (Fresh m pc)
  | .enqTail _ _ _ _ _ => inferInstanceAs (Decidable (_ → _))
  | .idle | .enqCheck _ _ | .enqAlloc _ _ | .enqData _ _ _ | .enqNext _ _ _ | .enqRead _ _ _ _
  | .enqLink _ _ _ _ | .enqSize _ _ | .deqSize _ | .deqRestore _ | .deqTail _
  | .deqTailNext _ _ | .deqTailAgain _ _ | .deqTailCas _ _ _ | .deqHead _ | .deqNext _ _
  | .deqData _ _ _ | .deqCas _ _ _ _ | .deqFree _ _ _ => isTrue trivial

def System.Fresh (s : System n α) : Label n α → Prop
  | .step t => ∀ pc ∈ s.threads[t]?, LFQueue.Fresh s.memory pc
  | _ => True

instance (s : System n α) : (label : Label n α) → Decidable (s.Fresh label)
  | .step t => inferInstanceAs (Decidable (∀ pc ∈ s.threads[t]?, LFQueue.Fresh s.memory pc))
  | .enqueue _ _ _ | .dequeue _ _ | .alloc _ _ => isTrue trivial

/-- The words of queue `q` that a call has read there, or has put there and not yet counted. -/
def held (q : Fin n) : Pc n α → List Tagged
  | .enqLink q' w _ _ | .enqSize q' w | .deqTailNext q' (some w) | .deqTailAgain q' w
  | .deqTailCas q' w _ | .deqNext q' (some w) | .deqData q' w _ | .deqCas q' w _ _ =>
      if q' = q then [w] else []
  | _ => []

/-- A word does not come back to the tail while a call still has it. -/
def Unheld (m : Memory n α) (threads : List (Pc n α)) : Pc n α → Prop
  | .enqTail q newnode tag oldtail _ =>
      (m.queues q).tail = oldtail → ∀ pc ∈ threads, ⟨newnode, tag⟩ ∉ held q pc
  | _ => True

instance (m : Memory n α) (threads : List (Pc n α)) :
    (pc : Pc n α) → Decidable (Unheld m threads pc)
  | .enqTail _ _ _ _ _ => inferInstanceAs (Decidable (_ → ∀ pc ∈ threads, _ ∉ held _ pc))
  | .idle | .enqCheck _ _ | .enqAlloc _ _ | .enqData _ _ _ | .enqNext _ _ _ | .enqRead _ _ _ _
  | .enqLink _ _ _ _ | .enqSize _ _ | .deqSize _ | .deqRestore _ | .deqTail _
  | .deqTailNext _ _ | .deqTailAgain _ _ | .deqTailCas _ _ _ | .deqHead _ | .deqNext _ _
  | .deqData _ _ _ | .deqCas _ _ _ _ | .deqFree _ _ _ => isTrue trivial

def System.Unheld (s : System n α) : Label n α → Prop
  | .step t => ∀ pc ∈ s.threads[t]?, LFQueue.Unheld s.memory s.threads pc
  | _ => True

instance (s : System n α) : (label : Label n α) → Decidable (s.Unheld label)
  | .step t => inferInstanceAs (Decidable (∀ pc ∈ s.threads[t]?, LFQueue.Unheld s.memory s.threads pc))
  | .enqueue _ _ _ | .dequeue _ _ | .alloc _ _ => isTrue trivial

end LFQueue

end SessionServer.Common
