/-
  Common/TlsMemoryPool.lean --- the memory pool with a store of nodes for every thread.

  `TlsMemoryPool.h`.  A node is named by the chunk `new` returned it in and its place in
  there; what `_data` holds is the callers' affair and is left out.  An address carries a
  tag in its upper 16 bits where the source packs one into it.  The counters are machine
  words.

  `Alloc` and `Free` follow the pointers of the source and fail where the source follows a
  null pointer, so that a counter that has gone wrong shows.
-/
import SessionServer.Foundation.Run
import Mathlib

set_option autoImplicit false

namespace SessionServer.Common

open SessionServer.Foundation

/-! ## The pool -/

/-- `chunk[index]` of one entry of `_chunks`. -/
structure TlsMemoryPool.Node where
  chunk : Nat
  index : Nat
  deriving DecidableEq, Repr

/-- An address and the tag in its upper 16 bits. -/
structure TlsMemoryPool.Tagged where
  node : Option TlsMemoryPool.Node
  tag : UInt16
  deriving DecidableEq, Repr

/-- What one thread stores. -/
structure TlsMemoryPool.TlsPool where
  nodelist : Option TlsMemoryPool.Node
  nodeCount : UInt32
  freelist : Option TlsMemoryPool.Node
  freeCount : UInt32
  storedCount : Int32
  deriving DecidableEq, Repr

/-- `tlsValue` is what `TlsGetValue` gives a thread: an entry of `_tlsPools`.  `next` and
`chunknext` are the two link fields of the nodes, `chunks` is the size of `_chunks`. -/
structure TlsMemoryPool where
  chunkSize : UInt32
  capacity : UInt32
  usingCount : UInt32
  top : TlsMemoryPool.Tagged
  chunkCount : Int32
  key : UInt16
  chunks : Nat
  tlsPools : List TlsMemoryPool.TlsPool
  tlsValue : Nat → Option Nat
  next : TlsMemoryPool.Node → Option TlsMemoryPool.Node
  chunknext : TlsMemoryPool.Node → TlsMemoryPool.Tagged

namespace TlsMemoryPool

/-- The constructor. -/
def new (chunkSize : UInt32) : TlsMemoryPool where
  chunkSize := chunkSize
  capacity := 0
  usingCount := 0
  top := ⟨none, 0⟩
  chunkCount := 0
  key := 0
  chunks := 0
  tlsPools := []
  tlsValue := fun _ => none
  next := fun _ => none
  chunknext := fun _ => ⟨none, 0⟩

/-- The `TlsPool` a thread gets at its first call. -/
def TlsPool.new : TlsPool where
  nodelist := none
  nodeCount := 0
  freelist := none
  freeCount := 0
  storedCount := 0

/-- The thread's entry of `_tlsPools`, which its first call makes. -/
def getTlsPool (p : TlsMemoryPool) (thread : Nat) : Nat × TlsMemoryPool :=
  match p.tlsValue thread with
  | some i => (i, p)
  | none =>
      (p.tlsPools.length,
        { p with
          tlsPools := p.tlsPools ++ [TlsPool.new]
          tlsValue := Function.update p.tlsValue thread (some p.tlsPools.length) })

/-! ## Chunks -/

/-- `ReturnChunk`; no other thread moves `_top` between its read and the exchange. -/
def returnChunk (p : TlsMemoryPool) (nodechunk : Node) : TlsMemoryPool :=
  { p with
    key := p.key + 1
    chunknext := Function.update p.chunknext nodechunk p.top
    top := ⟨some nodechunk, p.key + 1⟩
    chunkCount := p.chunkCount + 1 }

/-- `GetChunk`: null where there is no chunk.  `none` stands for a null `_top` followed. -/
def getChunk (p : TlsMemoryPool) : Option (Option Node × TlsMemoryPool) :=
  let size := p.chunkCount - 1
  if size < 0 then
    some (none, { p with chunkCount := size + 1 })
  else
    p.top.node.map fun realadr =>
      (some realadr, { p with chunkCount := size, top := p.chunknext realadr })

/-- The loop of `ChunkAlloc`: `chunk[i]` links to `chunk[i - 1]` for `i` from 1 to `m`. -/
def linkChunk (next : Node → Option Node) (chunk : Nat) : Nat → Node → Option Node
  | 0 => next
  | m + 1 => Function.update (linkChunk next chunk m) ⟨chunk, m + 1⟩ (some ⟨chunk, m⟩)

/-- `ChunkAlloc`: a new chunk becomes the thread's node list. -/
def chunkAlloc (p : TlsMemoryPool) (tpool : TlsPool) : TlsPool × TlsMemoryPool :=
  let last := p.chunkSize.toNat - 1
  ({ tpool with nodelist := some ⟨p.chunks, last⟩, nodeCount := p.chunkSize },
    { p with
      chunks := p.chunks + 1
      next := Function.update (linkChunk p.next p.chunks last) ⟨p.chunks, 0⟩ none
      capacity := p.capacity + p.chunkSize })

/-! ## Alloc and Free -/

/-- The part of `Alloc` that takes a node: off the node list, off the free list, off a
chunk of the stack or off a new one. -/
def take (p : TlsMemoryPool) (tpool : TlsPool) : Option (Node × TlsPool × TlsMemoryPool) :=
  if tpool.nodeCount > 0 then
    tpool.nodelist.map fun allocated =>
      (allocated,
        { tpool with nodelist := p.next allocated, nodeCount := tpool.nodeCount - 1 }, p)
  else if tpool.freeCount > 0 then
    tpool.freelist.map fun allocated =>
      (allocated,
        { tpool with freelist := p.next allocated, freeCount := tpool.freeCount - 1 }, p)
  else
    match p.getChunk with
    | none => none
    | some (some nodechunk, p) =>
        some (nodechunk,
          { tpool with nodelist := p.next nodechunk, nodeCount := p.chunkSize - 1 }, p)
    | some (none, p) =>
        let (tpool, p) := p.chunkAlloc tpool
        tpool.nodelist.map fun allocated =>
          (allocated,
            { tpool with nodelist := p.next allocated, nodeCount := tpool.nodeCount - 1 }, p)

/-- The part of `Free` that puts a node away: on the node list, or on the free list, which
becomes a chunk of the stack when it is full. -/
def put (p : TlsMemoryPool) (tpool : TlsPool) (retnode : Node) : TlsPool × TlsMemoryPool :=
  if tpool.nodeCount < p.chunkSize then
    ({ tpool with nodelist := some retnode, nodeCount := tpool.nodeCount + 1 },
      { p with next := Function.update p.next retnode tpool.nodelist })
  else
    let p := { p with next := Function.update p.next retnode tpool.freelist }
    if tpool.freeCount + 1 = p.chunkSize then
      ({ tpool with freelist := none, freeCount := 0 }, p.returnChunk retnode)
    else
      ({ tpool with freelist := some retnode, freeCount := tpool.freeCount + 1 }, p)

/-- `_storedCount` is taken anew and the thread's entry written. -/
def store (p : TlsMemoryPool) (i : Nat) (tpool : TlsPool) : TlsMemoryPool :=
  { p with
    tlsPools := p.tlsPools.set i
      { tpool with storedCount := (tpool.nodeCount + tpool.freeCount).toInt32 } }

/-- `Alloc`, called by the thread. -/
def alloc (p : TlsMemoryPool) (thread : Nat) : Option (Node × TlsMemoryPool) :=
  let (i, p) := p.getTlsPool thread
  p.tlsPools[i]?.bind fun tpool =>
    (p.take tpool).map fun (allocated, tpool, p) =>
      (allocated, { p.store i tpool with usingCount := p.usingCount + 1 })

/-- `Free`, called by the thread. -/
def free (p : TlsMemoryPool) (thread : Nat) (data : Node) : Option TlsMemoryPool :=
  let (i, p) := p.getTlsPool thread
  p.tlsPools[i]?.map fun tpool =>
    let (tpool, p) := p.put tpool data
    { p.store i tpool with usingCount := p.usingCount - 1 }

/-! ## The pool and its callers -/

/-- The pool with the nodes that callers have been given and have not freed. -/
structure Usage where
  pool : TlsMemoryPool
  allocated : List Node

inductive Operation where
  | alloc (thread : Nat)
  | free (thread : Nat) (data : Node)
  deriving DecidableEq, Repr

/-- One call, on any thread. -/
def operate (u : Usage) : Operation → Option Usage
  | .alloc thread =>
      (u.pool.alloc thread).map fun (node, pool) => ⟨pool, node :: u.allocated⟩
  | .free thread data =>
      (u.pool.free thread data).map fun pool => ⟨pool, u.allocated.erase data⟩

/-- A call frees only what is allocated. -/
def Owned (u : Usage) : Operation → Prop
  | .alloc _ => True
  | .free _ data => data ∈ u.allocated

instance (u : Usage) : (op : Operation) → Decidable (Owned u op)
  | .alloc _ => inferInstanceAs (Decidable True)
  | .free _ data => inferInstanceAs (Decidable (data ∈ u.allocated))

/-- A pool nobody has called yet. -/
def unused (chunkSize : UInt32) : Usage := ⟨new chunkSize, []⟩

end TlsMemoryPool

end SessionServer.Common
