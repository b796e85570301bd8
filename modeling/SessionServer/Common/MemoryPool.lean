/-
  Common/MemoryPool.lean --- the memory pool all threads share.

  `MemoryPool.h`.  A node is named by the chunk `new` returned it in and its place in there;
  what `_data` holds is the callers' affair and is left out.  `alloc` and `free` are the calls
  of one thread that no other disturbs; `step` takes the calls of all threads apart into
  their reads and writes of what they share.
-/
import SessionServer.Foundation.Run
import SessionServer.Foundation.Chain
import SessionServer.Foundation.Stacks

set_option autoImplicit false

namespace SessionServer.Common

open SessionServer.Foundation

/-- `chunk[index]` of one entry of `_chunks`. -/
structure MemoryPool.Node where
  chunk : Nat
  index : Nat
  deriving DecidableEq, Repr

/-- An address and the tag in its upper 16 bits. -/
structure MemoryPool.Tagged where
  node : MemoryPool.Node
  tag : UInt16
  deriving DecidableEq, Repr

/-- What a pointer of the pool holds; a null pointer has no tag. -/
abbrev MemoryPool.Word := Option MemoryPool.Tagged

/-- `next` is the link field of the nodes, `chunks` the size of `_chunks`. -/
structure MemoryPool where
  head : MemoryPool.Word
  capacity : Int32
  usingCount : Int32
  maxCount : Int32
  maxFlag : Bool
  chunks : Nat
  next : MemoryPool.Node → MemoryPool.Word

namespace MemoryPool

/-- The address of a word. -/
def Word.node (w : Word) : Option Node := w.map Tagged.node

/-- `(word & TAGMASK) + MAKETAG`. -/
def Word.nextTag (w : Word) : UInt16 :=
  match w with
  | none => 1
  | some w => w.tag + 1

/-- The loops that link the nodes of a chunk: `chunk[i]` to `chunk[i - 1]` for `i` from 1 to `m`. -/
def linkChunk (next : Node → Word) (chunk : Nat) : Nat → Node → Word
  | 0 => next
  | m + 1 => Function.update (linkChunk next chunk m) ⟨chunk, m + 1⟩ (some ⟨⟨chunk, m⟩, 0⟩)

/-- The constructor; whatever `BlockNum` is, it makes one chunk or none. -/
def new (blockNum : Int32) (maxFlag : Bool) : MemoryPool :=
  let p : MemoryPool :=
    { head := none
      capacity := blockNum
      usingCount := 0
      maxCount := 0
      maxFlag := maxFlag
      chunks := 0
      next := fun _ => none }
  if blockNum = 0 then p
  else { p with head := some ⟨⟨0, 99⟩, 0⟩, chunks := 1, next := linkChunk p.next 0 99 }

/-- `SetMaxCount`. -/
def setMaxCount (p : MemoryPool) (maxCount : Int32) : MemoryPool := { p with maxCount := maxCount }

/-- `_maxFlag == true && _maxcount >= _capacity`. -/
def refuses (p : MemoryPool) : Bool := p.maxFlag && decide (p.capacity ≤ p.maxCount)

/-! ## The calls of one thread -/

/-- `ChunkAlloc`. -/
def chunkAlloc (p : MemoryPool) : MemoryPool :=
  { p with
    chunks := p.chunks + 1
    next := Function.update (linkChunk p.next p.chunks 99) ⟨p.chunks, 0⟩ p.head
    head := some ⟨⟨p.chunks, 99⟩, p.head.nextTag⟩
    capacity := p.capacity + 100 }

/-- The round of `Alloc` that finds `_head` to be `w`. -/
def pop (p : MemoryPool) (w : Tagged) : MemoryPool :=
  { p with head := p.next w.node, usingCount := p.usingCount + 1 }

/-- `Alloc`: null where the pool refuses.  The exchange behind `continue` fails: behind
`ChunkAlloc` the head is not null. -/
def alloc (p : MemoryPool) : Option Node × MemoryPool :=
  match p.head with
  | some w => (some w.node, p.pop w)
  | none =>
      if p.refuses then (none, p)
      else
        match p.chunkAlloc.head with
        | some w => (some w.node, p.chunkAlloc.pop w)
        | none => (none, p.chunkAlloc)

/-- `Free`. -/
def free (p : MemoryPool) (node : Node) : MemoryPool :=
  { p with
    next := Function.update p.next node p.head
    head := some ⟨node, p.head.nextTag⟩
    usingCount := p.usingCount - 1 }

/-! ## The steps of many threads -/

/-- Where a call is, with its variables.  `newhead` and `realadr` of `Alloc` live on through
its rounds; so does the tag in `countnode` of `Free`. -/
inductive Pc
  | idle
  | allocRead (newhead : Word) (realadr : Option Node)
  | allocLimit (newhead : Word) (realadr : Option Node)
  | chunkNew (newhead : Word) (realadr : Option Node)
  | chunkRead (newhead : Word) (realadr : Option Node) (chunk : Nat)
  | chunkLink (newhead : Word) (realadr : Option Node) (chunk : Nat) (oldhead : Word)
  | chunkCas (newhead : Word) (realadr : Option Node) (chunk : Nat) (oldhead : Word)
  | chunkAdd (newhead : Word) (realadr : Option Node)
  | allocNext (oldhead : Tagged)
  | allocCas (oldhead newhead : Word) (realadr : Option Node)
  | allocIncrement (allocated : Option Node)
  | freeRead (node : Node) (tag : UInt16)
  | freeLink (node : Node) (tag : UInt16) (oldhead : Word)
  | freeCas (node : Node) (tag : UInt16) (oldhead : Word)
  | freeDecrement
  deriving DecidableEq

/-- One read or write of what the threads share; `none` where the thread is in no call. -/
def advance (p : MemoryPool) : Pc → Option (MemoryPool × Pc)
  | .idle => none
  | .allocRead newhead realadr =>
      match p.head with
      | none => some (p, .allocLimit newhead realadr)
      | some oldhead => some (p, .allocNext oldhead)
  | .allocLimit newhead realadr =>
      if p.refuses then some (p, .idle) else some (p, .chunkNew newhead realadr)
  | .chunkNew newhead realadr =>
      some ({ p with chunks := p.chunks + 1, next := linkChunk p.next p.chunks 99 },
        .chunkRead newhead realadr p.chunks)
  | .chunkRead newhead realadr chunk => some (p, .chunkLink newhead realadr chunk p.head)
  | .chunkLink newhead realadr chunk oldhead =>
      some ({ p with next := Function.update p.next ⟨chunk, 0⟩ oldhead },
        .chunkCas newhead realadr chunk oldhead)
  | .chunkCas newhead realadr chunk oldhead =>
      if p.head = oldhead then
        some ({ p with head := some ⟨⟨chunk, 99⟩, oldhead.nextTag⟩ }, .chunkAdd newhead realadr)
      else some (p, .chunkRead newhead realadr chunk)
  | .chunkAdd newhead realadr =>
      -- `continue` goes on with the exchange, whose `oldhead` is null.
      some ({ p with capacity := p.capacity + 100 }, .allocCas none newhead realadr)
  | .allocNext oldhead => some (p, .allocCas (some oldhead) (p.next oldhead.node) (some oldhead.node))
  | .allocCas oldhead newhead realadr =>
      if p.head = oldhead then some ({ p with head := newhead }, .allocIncrement realadr)
      else some (p, .allocRead newhead realadr)
  | .allocIncrement _ => some ({ p with usingCount := p.usingCount + 1 }, .idle)
  | .freeRead node tag => some (p, .freeLink node (tag ||| p.head.nextTag) p.head)
  | .freeLink node tag oldhead =>
      some ({ p with next := Function.update p.next node oldhead }, .freeCas node tag oldhead)
  | .freeCas node tag oldhead =>
      if p.head = oldhead then some ({ p with head := some ⟨node, tag⟩ }, .freeDecrement)
      else some (p, .freeRead node tag)
  | .freeDecrement => some ({ p with usingCount := p.usingCount - 1 }, .idle)

/-- The node a call returns to its caller with its last step. -/
def Pc.returns : Pc → Option Node
  | .allocIncrement allocated => allocated
  | _ => none

/-- `held` are the nodes that the callers have got and not given back. -/
structure System where
  pool : MemoryPool
  held : List Node
  threads : List Pc

/-- A thread begins a call or goes on with one. -/
inductive Label
  | alloc (t : Nat)
  | free (t : Nat) (node : Node)
  | step (t : Nat)
  deriving DecidableEq

/-- Only nodes that are held are freed. -/
def step (s : System) : Label → Option System
  | .alloc t =>
      if s.threads[t]? = some .idle then
        some { s with threads := s.threads.set t (.allocRead none none) }
      else none
  | .free t node =>
      if s.threads[t]? = some .idle ∧ node ∈ s.held then
        some { s with held := s.held.erase node, threads := s.threads.set t (.freeRead node 0) }
      else none
  | .step t =>
      match s.threads[t]? with
      | none => none
      | some pc =>
          (advance s.pool pc).map fun (pool, pc') =>
            { pool := pool, held := pc.returns.toList ++ s.held, threads := s.threads.set t pc' }

/-- The system before the first call. -/
def start (pool : MemoryPool) (threads : Nat) : System where
  pool := pool
  held := []
  threads := List.replicate threads .idle

/-! ## A thread alone -/

@[simp] theorem chunkAlloc_head (p : MemoryPool) :
    p.chunkAlloc.head = some ⟨⟨p.chunks, 99⟩, p.head.nextTag⟩ := rfl

theorem step_alone (p : MemoryPool) (held : List Node) (pc : Pc) :
    step ⟨p, held, [pc]⟩ (.step 0) =
      (advance p pc).map fun (pool, pc') => ⟨pool, pc.returns.toList ++ held, [pc']⟩ := rfl

/-- **`alloc` is what the steps of `Alloc` come to** where no other thread moves. -/
theorem alloc_alone (p : MemoryPool) (held : List Node) :
    ∃ n, exec step ⟨p, held, [.idle]⟩ (.alloc 0 :: List.replicate n (.step 0)) =
      some ⟨p.alloc.2, p.alloc.1.toList ++ held, [.idle]⟩ := by
  have hbegin : step ⟨p, held, [.idle]⟩ (.alloc 0) = some ⟨p, held, [.allocRead none none]⟩ := rfl
  cases hhead : p.head with
  | some w =>
      refine ⟨4, ?_⟩
      simp [exec_cons, hbegin, step_alone, advance, alloc, pop, hhead, List.replicate, Pc.returns]
  | none =>
      by_cases hlimit : p.refuses = true
      · refine ⟨2, ?_⟩
        simp [exec_cons, hbegin, step_alone, advance, alloc, hhead, hlimit, List.replicate,
          Pc.returns]
      · refine ⟨12, ?_⟩
        simp [exec_cons, hbegin, step_alone, advance, alloc, pop, chunkAlloc, hhead, hlimit,
          List.replicate, Pc.returns]

/-- **`free` is what the steps of `Free` come to.** -/
theorem free_alone (p : MemoryPool) {held : List Node} {node : Node} (h : node ∈ held) :
    exec step ⟨p, held, [.idle]⟩ (.free 0 node :: List.replicate 4 (.step 0)) =
      some ⟨p.free node, held.erase node, [.idle]⟩ := by
  have hbegin : step ⟨p, held, [.idle]⟩ (.free 0 node) =
      some ⟨p, held.erase node, [.freeRead node 0]⟩ := if_pos ⟨rfl, h⟩
  simp [exec_cons, hbegin, step_alone, advance, free, List.replicate, Pc.returns]

/-! ## Nodes -/

/-- The nodes of a chunk up to `chunk[m]`, in the order they are linked. -/
def rowNodes (chunk : Nat) : Nat → List Node
  | 0 => [⟨chunk, 0⟩]
  | m + 1 => ⟨chunk, m + 1⟩ :: rowNodes chunk m

/-- All nodes of a chunk. -/
def chunkNodes (chunk : Nat) : List Node := rowNodes chunk 99

/-- The nodes the pool owns. -/
def owned (p : MemoryPool) : List Node := (List.range p.chunks).flatMap chunkNodes

/-- The links between the nodes, without the tags. -/
def links (p : MemoryPool) (node : Node) : Option Node := (p.next node).node

theorem mem_rowNodes {chunk m : Nat} {node : Node} :
    node ∈ rowNodes chunk m ↔ node.chunk = chunk ∧ node.index ≤ m := by
  induction m with
  | zero =>
      rw [rowNodes, List.mem_singleton]
      cases node
      simp
  | succ m ih =>
      rw [rowNodes, List.mem_cons, ih]
      cases node
      simp only [Node.mk.injEq]
      omega

theorem rowNodes_length (chunk m : Nat) : (rowNodes chunk m).length = m + 1 := by
  induction m with
  | zero => rfl
  | succ m ih => rw [rowNodes, List.length_cons, ih]

theorem rowNodes_nodup (chunk m : Nat) : (rowNodes chunk m).Nodup := by
  induction m with
  | zero => exact List.nodup_singleton _
  | succ m ih =>
      refine List.nodup_cons.mpr ⟨fun hmem => ?_, ih⟩
      exact Nat.not_succ_le_self m (mem_rowNodes.mp hmem).2

theorem mem_chunkNodes {chunk : Nat} {node : Node} :
    node ∈ chunkNodes chunk ↔ node.chunk = chunk ∧ node.index ≤ 99 := mem_rowNodes

theorem mem_owned {p : MemoryPool} {node : Node} :
    node ∈ p.owned ↔ node.chunk < p.chunks ∧ node.index ≤ 99 := by
  simp only [owned, List.mem_flatMap, List.mem_range, mem_chunkNodes]
  constructor
  · rintro ⟨chunk, hchunk, rfl, hindex⟩
    exact ⟨hchunk, hindex⟩
  · exact fun h => ⟨node.chunk, h.1, rfl, h.2⟩

theorem owned_nodup (p : MemoryPool) : p.owned.Nodup := by
  refine List.nodup_flatMap.mpr ⟨fun chunk _ => rowNodes_nodup chunk 99, ?_⟩
  refine List.nodup_range.imp fun {chunk chunk'} hne => ?_
  rw [Function.onFun, List.disjoint_left]
  intro node hnode hnode'
  exact hne ((mem_chunkNodes.mp hnode).1.symm.trans (mem_chunkNodes.mp hnode').1)

theorem owned_length (p : MemoryPool) : p.owned.length = 100 * p.chunks := by
  simp only [owned, List.length_flatMap, chunkNodes, rowNodes_length]
  simp [Nat.mul_comm]

/-- A chunk more. -/
theorem owned_succ {p q : MemoryPool} (h : q.chunks = p.chunks + 1) :
    q.owned = p.owned ++ chunkNodes p.chunks := by
  rw [owned, h, List.range_succ, List.flatMap_append, List.flatMap_singleton, owned]

theorem linkChunk_of_ne {next : Node → Word} {chunk m : Nat} {node : Node}
    (h : node.chunk ≠ chunk) : linkChunk next chunk m node = next node := by
  induction m with
  | zero => rfl
  | succ m ih =>
      rw [linkChunk, Function.update_of_ne (fun heq => h (congrArg Node.chunk heq))]
      exact ih

theorem linkChunk_zero {next : Node → Word} {chunk m : Nat} :
    linkChunk next chunk m ⟨chunk, 0⟩ = next ⟨chunk, 0⟩ := by
  induction m with
  | zero => rfl
  | succ m ih =>
      rw [linkChunk, Function.update_of_ne (by simp)]
      exact ih

theorem linkChunk_succ {next : Node → Word} {chunk m k : Nat} (h : k < m) :
    linkChunk next chunk m ⟨chunk, k + 1⟩ = some ⟨⟨chunk, k⟩, 0⟩ := by
  induction m with
  | zero => exact absurd h (Nat.not_lt_zero k)
  | succ m ih =>
      rw [linkChunk]
      by_cases hk : k = m
      · rw [hk, Function.update_self]
      · rw [Function.update_of_ne (by simp [hk])]
        exact ih (by omega)

/-- The nodes of a chunk are linked downwards and its first one to whatever `rest` begins
with. -/
theorem chain_row {link : Node → Option Node} {chunk m : Nat} {rest : List Node}
    (hlink : ∀ i < m, link ⟨chunk, i + 1⟩ = some ⟨chunk, i⟩)
    (hrest : Chain link (link ⟨chunk, 0⟩) rest) :
    Chain link (some ⟨chunk, m⟩) (rowNodes chunk m ++ rest) := by
  induction m with
  | zero => exact ⟨rfl, hrest⟩
  | succ m ih =>
      refine ⟨rfl, ?_⟩
      rw [hlink m (Nat.lt_succ_self m)]
      exact ih fun i hi => hlink i (Nat.lt_succ_of_lt hi)

end MemoryPool

end SessionServer.Common
