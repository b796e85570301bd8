/-
  Common/TlsPoolRun.lean --- the pool keeps every node, whichever threads call it.

  `Pictures` reads a stock off the pointers of a pool: the piles of its stores are the
  lists of the threads, the bundles are the chunks on the shared stack.  Every call is one
  step of the stock, which loses and doubles nothing, and its counters follow the lengths
  of the lists; so no call follows a null pointer.
-/
import SessionServer.Common.TlsMemoryPool
import SessionServer.Foundation.Chain
import SessionServer.Foundation.Stock

set_option autoImplicit false

namespace SessionServer.Common.TlsMemoryPool

open SessionServer.Foundation

/-! ## The stock a pool stores -/

/-- The link from a chunk on the stack to the one under it. -/
def below (p : TlsMemoryPool) : Node → Option Node := Tagged.node ∘ p.chunknext

/-- The node is in one of the first `chunks` chunks, each of `size` nodes. -/
def Node.In (node : Node) (chunks size : Nat) : Prop := node.chunk < chunks ∧ node.index < size

instance (node : Node) (chunks size : Nat) : Decidable (node.In chunks size) :=
  inferInstanceAs (Decidable (_ ∧ _))

/-- The stock holds every node of the chunks once, and nothing else. -/
structure Complete (chunks size : Nat) (s : Stock Node) : Prop where
  sized : s.Sized size
  once : ∀ node, s.count node = if node.In chunks size then 1 else 0
  card : s.card = chunks * size

/-- The lists of a thread, with their counts. -/
structure Shows (next : Node → Option Node) (tpool : TlsPool) (store : Store Node) : Prop where
  nodelist : Chain next tpool.nodelist store.nodes
  nodeCount : tpool.nodeCount.toNat = store.nodes.length
  freelist : Chain next tpool.freelist store.free
  freeCount : tpool.freeCount.toNat = store.free.length

/-- The lists of the pool, with their counts. -/
structure Pictures (p : TlsMemoryPool) (s : Stock Node) : Prop where
  length : p.tlsPools.length = s.stores.length
  stores : ∀ (i : Nat) tpool store, p.tlsPools[i]? = some tpool → s.stores[i]? = some store →
    Shows p.next tpool store
  stored : ∀ tpool ∈ p.tlsPools,
    tpool.storedCount = (tpool.nodeCount + tpool.freeCount).toInt32
  chunks : ChainStack p.next p.below p.top.node s.chunks
  chunkCount : p.chunkCount = Int32.ofNat s.chunks.length
  usingCount : p.usingCount = UInt32.ofNat s.allocated.length
  capacity : p.capacity = UInt32.ofNat (p.chunks * p.chunkSize.toNat)
  tls_lt : ∀ thread i, p.tlsValue thread = some i → i < p.tlsPools.length
  tls_inj : ∀ thread other i, p.tlsValue thread = some i → p.tlsValue other = some i →
    thread = other

/-- The invariant: the pool and its callers hold the stock between them. -/
structure Whole (u : Usage) (s : Stock Node) : Prop where
  pictures : Pictures u.pool s
  allocated : u.allocated = s.allocated
  complete : Complete u.pool.chunks u.pool.chunkSize.toNat s

/-! ## Words -/

theorem toNat_succ {a b : UInt32} (h : a < b) : (a + 1).toNat = a.toNat + 1 := by
  rw [UInt32.lt_iff_toNat_lt] at h
  have hb := b.toNat_lt
  rw [UInt32.toNat_add, Nat.mod_eq_of_lt]
  · rfl
  · exact Nat.lt_of_le_of_lt h hb

theorem toNat_pred {a : UInt32} (h : 0 < a) : (a - 1).toNat = a.toNat - 1 := by
  rw [UInt32.lt_iff_toNat_lt] at h
  exact UInt32.toNat_sub_of_le a 1 (UInt32.le_iff_toNat_le.mpr h)

/-- A counter is taken down with its list. -/
theorem ofNat_erase {l : List Node} {node : Node} (h : node ∈ l) :
    UInt32.ofNat l.length - 1 = UInt32.ofNat (l.erase node).length := by
  have hlength := List.length_erase_add_one h
  rw [← hlength, UInt32.ofNat_add]
  exact UInt32.add_sub_cancel _ _

/-- A counter above zero after it is taken down counts a chunk. -/
theorem length_pos_of_chunkCount {n : Nat} (h : ¬ Int32.ofNat n - 1 < 0) : 0 < n := by
  refine Nat.pos_of_ne_zero fun hzero => h ?_
  rw [hzero]
  decide

/-! ## A new chunk -/

/-- The nodes of a chunk, from the `m - 1`-st down. -/
def chunkNodes (chunk : Nat) : Nat → List Node
  | 0 => []
  | m + 1 => ⟨chunk, m⟩ :: chunkNodes chunk m

@[simp] theorem length_chunkNodes (chunk m : Nat) : (chunkNodes chunk m).length = m := by
  induction m with
  | zero => rfl
  | succ m ih => rw [chunkNodes, List.length_cons, ih]

theorem count_chunkNodes (chunk m : Nat) (node : Node) :
    (chunkNodes chunk m).count node = if node.chunk = chunk ∧ node.index < m then 1 else 0 := by
  induction m with
  | zero => simp [chunkNodes]
  | succ m ih =>
      obtain ⟨c, k⟩ := node
      rw [chunkNodes, List.count_cons, ih]
      grind

/-- The loop writes nothing outside its chunk. -/
theorem linkChunk_of_ne {next : Node → Option Node} {chunk m : Nat} {node : Node}
    (h : node.chunk ≠ chunk) : linkChunk next chunk m node = next node := by
  induction m with
  | zero => rfl
  | succ m ih =>
      rw [linkChunk, Function.update_of_ne (fun heq => h (congrArg Node.chunk heq))]
      exact ih

theorem linkChunk_succ {next : Node → Option Node} {chunk m k : Nat} (h : k < m) :
    linkChunk next chunk m ⟨chunk, k + 1⟩ = some ⟨chunk, k⟩ := by
  induction m with
  | zero => exact absurd h (Nat.not_lt_zero k)
  | succ m ih =>
      rw [linkChunk]
      by_cases hk : k = m
      · rw [hk, Function.update_self]
      · have hne : (⟨chunk, k + 1⟩ : Node) ≠ ⟨chunk, m + 1⟩ := by simpa using hk
        rw [Function.update_of_ne hne]
        exact ih (by omega)

/-- The loop links the nodes of the chunk from the last down to the first. -/
theorem chain_linkChunk (next : Node → Option Node) {chunk m k : Nat} (h : k ≤ m) :
    Chain (Function.update (linkChunk next chunk m) ⟨chunk, 0⟩ none) (some ⟨chunk, k⟩)
      (chunkNodes chunk (k + 1)) := by
  induction k with
  | zero =>
      refine ⟨rfl, ?_⟩
      rw [Function.update_self]
      exact Chain.none
  | succ k ih =>
      refine ⟨rfl, ?_⟩
      have hne : (⟨chunk, k + 1⟩ : Node) ≠ ⟨chunk, 0⟩ := by simp
      rw [Function.update_of_ne hne, linkChunk_succ h]
      exact ih (Nat.le_of_succ_le h)

/-! ## Steps of the stock -/

section Complete

variable {s t : Stock Node} {chunks size i : Nat} {node : Node}

theorem Complete.count_le_one (h : Complete chunks size s) (node : Node) : s.count node ≤ 1 := by
  rw [h.once node]
  split <;> simp

/-- What is at any place has been made. -/
theorem Complete.in_of_held (h : Complete chunks size s) {place : Stock.Place}
    (hnode : node ∈ s.held place) : node.In chunks size := by
  by_contra hnot
  have hpos := Stock.count_pos_of_mem hnode
  rw [h.once node, if_neg hnot] at hpos
  exact Nat.lt_irrefl 0 hpos

/-- A step that keeps every weight keeps the stock complete. -/
theorem Complete.of_weigh_eq (h : Complete chunks size s) (hsized : t.Sized size)
    (hweigh : ∀ w, t.weigh w = s.weigh w) : Complete chunks size t where
  sized := hsized
  once node := (hweigh _).trans (h.once node)
  card := (hweigh _).trans h.card

theorem Complete.opened (h : Complete chunks size s) (hsize : 0 < size) :
    Complete chunks size s.opened :=
  h.of_weigh_eq (h.sized.opened hsize) fun _ => Stock.weigh_opened

theorem Complete.take (h : Complete chunks size s) (hsize : 0 < size)
    (htake : Stock.Take i node s t) : Complete chunks size t :=
  h.of_weigh_eq (htake.sized h.sized hsize) fun _ => htake.weigh_eq

theorem Complete.put (h : Complete chunks size s) (hnode : node ∈ s.allocated)
    (hput : Stock.Put size i node s t) : Complete chunks size t :=
  h.of_weigh_eq (hput.sized h.sized) fun _ => hput.weigh_eq hnode

/-- The next chunk joins the stock. -/
theorem Complete.made (h : Complete chunks size s) :
    Complete (chunks + 1) size (s.made (chunkNodes chunks size)) where
  sized := h.sized.made (length_chunkNodes chunks size)
  once node := by
    have hold := h.once node
    rw [Stock.count] at hold ⊢
    rw [Stock.weigh_made, hold, Stock.sum_map_ite_eq_count, count_chunkNodes]
    simp only [Node.In]
    grind
  card := by
    have hold := h.card
    rw [Stock.card] at hold ⊢
    rw [Stock.weigh_made, hold, Nat.succ_mul, Nat.add_comm]
    simp

end Complete

/-! ## Writing one thread's entry -/

variable {p q : TlsMemoryPool} {s : Stock Node} {tpool : TlsPool} {store : Store Node}
  {next next' : Node → Option Node} {node : Node} {i : Nat}

theorem Shows.congr (h : Shows next tpool store)
    (hnodes : ∀ node ∈ store.nodes, next' node = next node)
    (hfree : ∀ node ∈ store.free, next' node = next node) : Shows next' tpool store where
  nodelist := h.nodelist.congr hnodes
  nodeCount := h.nodeCount
  freelist := h.freelist.congr hfree
  freeCount := h.freeCount

theorem Shows.update (h : Shows next tpool store) (hnodes : node ∉ store.nodes)
    (hfree : node ∉ store.free) (value : Option Node) :
    Shows (Function.update next node value) tpool store where
  nodelist := h.nodelist.update hnodes value
  nodeCount := h.nodeCount
  freelist := h.freelist.update hfree value
  freeCount := h.freeCount

theorem Shows.nodes_eq_nil {nodes free : List Node} (h : Shows next tpool ⟨nodes, free⟩)
    (hnone : ¬ tpool.nodeCount > 0) : nodes = [] := by
  rw [← List.length_eq_zero_iff, ← h.nodeCount]
  exact Nat.eq_zero_of_not_pos fun hpos => hnone (UInt32.lt_iff_toNat_lt.mpr hpos)

theorem Shows.free_eq_nil {nodes free : List Node} (h : Shows next tpool ⟨nodes, free⟩)
    (hnone : ¬ tpool.freeCount > 0) : free = [] := by
  rw [← List.length_eq_zero_iff, ← h.freeCount]
  exact Nat.eq_zero_of_not_pos fun hpos => hnone (UInt32.lt_iff_toNat_lt.mpr hpos)

/-- The first node is taken off the node list. -/
theorem Shows.popNode {nodes free : List Node} (h : Shows next tpool ⟨nodes, free⟩)
    (hcount : tpool.nodeCount > 0) :
    ∃ node rest, nodes = node :: rest ∧ tpool.nodelist = some node ∧
      Shows next { tpool with nodelist := next node, nodeCount := tpool.nodeCount - 1 }
        ⟨rest, free⟩ := by
  have hpos := UInt32.lt_iff_toNat_lt.mp hcount
  rw [h.nodeCount] at hpos
  obtain ⟨node, rest, rfl, hhead, hrest⟩ := h.nodelist.pop hpos
  refine ⟨node, rest, rfl, hhead, hrest, ?_, h.freelist, h.freeCount⟩
  rw [toNat_pred hcount, h.nodeCount]
  rfl

/-- The first node is taken off the free list. -/
theorem Shows.popFree {nodes free : List Node} (h : Shows next tpool ⟨nodes, free⟩)
    (hcount : tpool.freeCount > 0) :
    ∃ node rest, free = node :: rest ∧ tpool.freelist = some node ∧
      Shows next { tpool with freelist := next node, freeCount := tpool.freeCount - 1 }
        ⟨nodes, rest⟩ := by
  have hpos := UInt32.lt_iff_toNat_lt.mp hcount
  rw [h.freeCount] at hpos
  obtain ⟨node, rest, rfl, hhead, hrest⟩ := h.freelist.pop hpos
  refine ⟨node, rest, rfl, hhead, h.nodelist, h.nodeCount, hrest, ?_⟩
  rw [toNat_pred hcount, h.freeCount]
  rfl

/-- A step has changed the entry of one thread, the stack and the counters, and the links
of no other thread's lists. -/
theorem Pictures.write (h : Pictures p s) (htls : q.tlsPools = p.tlsPools)
    (hvalue : q.tlsValue = p.tlsValue)
    (hframe : ∀ (j : Nat) other kept, p.tlsPools[j]? = some other →
      s.stores[j]? = some kept → Shows p.next other kept → j ≠ i → Shows q.next other kept)
    (hshows : Shows q.next tpool store) {chunks : List (List Node)}
    (hchunks : ChainStack q.next q.below q.top.node chunks)
    (hcount : q.chunkCount = Int32.ofNat chunks.length)
    (hcapacity : q.capacity = UInt32.ofNat (q.chunks * q.chunkSize.toNat))
    {allocated : List Node} {count : UInt32} (husing : count = UInt32.ofNat allocated.length) :
    Pictures { q.store i tpool with usingCount := count }
      ⟨allocated, s.stores.set i store, chunks⟩ where
  length := by
    simp only [TlsMemoryPool.store, List.length_set, htls]
    exact h.length
  stores j other kept hother hkept := by
    simp only [TlsMemoryPool.store, htls] at hother
    rcases getElem?_set_cases hother with ⟨rfl, rfl⟩ | ⟨hne, hold⟩
    · rcases getElem?_set_cases hkept with ⟨-, rfl⟩ | ⟨hne, -⟩
      · exact ⟨hshows.nodelist, hshows.nodeCount, hshows.freelist, hshows.freeCount⟩
      · exact absurd rfl hne
    · rw [List.getElem?_set_ne hne.symm] at hkept
      exact hframe j other kept hold hkept (h.stores j other kept hold hkept) hne
  stored other hother := by
    simp only [TlsMemoryPool.store, htls] at hother
    rcases List.mem_or_eq_of_mem_set hother with hold | rfl
    · exact h.stored other hold
    · rfl
  chunks := hchunks
  chunkCount := hcount
  usingCount := husing
  capacity := hcapacity
  tls_lt thread j hj := by
    simp only [TlsMemoryPool.store, List.length_set, htls, hvalue] at hj ⊢
    exact h.tls_lt thread j hj
  tls_inj thread other j hj hother := by
    simp only [TlsMemoryPool.store, hvalue] at hj hother
    exact h.tls_inj thread other j hj hother

/-! ## Alloc -/

theorem Pictures.opened (h : Pictures p s) (thread : Nat) :
    Pictures
      { p with
        tlsPools := p.tlsPools ++ [TlsPool.new]
        tlsValue := Function.update p.tlsValue thread (some p.tlsPools.length) }
      s.opened where
  length := by
    rw [Stock.opened, List.length_append, List.length_append, h.length]
    rfl
  stores j other kept hother hkept := by
    simp only [Stock.opened] at hkept
    by_cases hj : j < p.tlsPools.length
    · rw [List.getElem?_append_left hj] at hother
      rw [List.getElem?_append_left (h.length ▸ hj)] at hkept
      exact h.stores j other kept hother hkept
    · have hle := Nat.le_of_not_lt hj
      rw [List.getElem?_append_right hle] at hother
      rw [List.getElem?_append_right (h.length ▸ hle)] at hkept
      obtain rfl := List.mem_singleton.mp (List.mem_of_getElem? hother)
      obtain rfl := List.mem_singleton.mp (List.mem_of_getElem? hkept)
      exact ⟨Chain.none, rfl, Chain.none, rfl⟩
  stored other hother := by
    rcases List.mem_append.mp hother with hold | hnew
    · exact h.stored other hold
    · rw [List.mem_singleton.mp hnew]
      rfl
  chunks := h.chunks
  chunkCount := h.chunkCount
  usingCount := h.usingCount
  capacity := h.capacity
  tls_lt other j hj := by
    rw [List.length_append]
    simp only [Function.update_apply] at hj
    split at hj
    · rw [← Option.some.inj hj]
      exact Nat.lt_succ_self _
    · exact Nat.lt_succ_of_lt (h.tls_lt other j hj)
  tls_inj one other j hone hother := by
    simp only [Function.update_apply] at hone hother
    split at hone
    · split at hother
      · rename_i hthread hother'
        rw [hthread, hother']
      · have hlt := h.tls_lt other j hother
        rw [← Option.some.inj hone] at hlt
        exact absurd hlt (Nat.lt_irrefl _)
    · split at hother
      · have hlt := h.tls_lt one j hone
        rw [← Option.some.inj hother] at hlt
        exact absurd hlt (Nat.lt_irrefl _)
      · exact h.tls_inj one other j hone hother

theorem getTlsPool_first {thread : Nat} (h : p.tlsValue thread = none) :
    p.getTlsPool thread = (p.tlsPools.length,
      { p with
        tlsPools := p.tlsPools ++ [TlsPool.new]
        tlsValue := Function.update p.tlsValue thread (some p.tlsPools.length) }) := by
  simp only [TlsMemoryPool.getTlsPool, h]

/-- A thread has an entry of its own, from its first call on. -/
theorem Whole.getTlsPool {u : Usage} (h : Whole u s) (hsize : 0 < u.pool.chunkSize)
    (thread : Nat) :
    ∃ i q t, u.pool.getTlsPool thread = (i, q) ∧ q.chunkSize = u.pool.chunkSize ∧
      i < q.tlsPools.length ∧ Whole ⟨q, u.allocated⟩ t := by
  cases hvalue : u.pool.tlsValue thread with
  | some i =>
      refine ⟨i, u.pool, s, ?_, rfl, h.pictures.tls_lt thread i hvalue, h⟩
      simp only [TlsMemoryPool.getTlsPool, hvalue]
  | none =>
      refine ⟨_, _, s.opened, getTlsPool_first hvalue, rfl, ?_, h.pictures.opened thread,
        h.allocated, ?_⟩
      · rw [List.length_append]
        exact Nat.lt_succ_self _
      · exact h.complete.opened (UInt32.lt_iff_toNat_lt.mp hsize)

/-- What `take` has to leave: the rest of the call makes a whole pool of it. -/
def Takes (p : TlsMemoryPool) (allocated : List Node) (i : Nat) (tpool : TlsPool) : Prop :=
  ∃ node tpool' q t, p.take tpool = some (node, tpool', q) ∧ q.chunkSize = p.chunkSize ∧
    Whole ⟨{ q.store i tpool' with usingCount := q.usingCount + 1 }, node :: allocated⟩ t

theorem usingCount_succ {count : UInt32} {allocated : List Node} (node : Node)
    (h : count = UInt32.ofNat allocated.length) :
    count + 1 = UInt32.ofNat (node :: allocated).length := by
  rw [h, List.length_cons, UInt32.ofNat_add]
  rfl

theorem take_nodelist (hcount : tpool.nodeCount > 0) (hhead : tpool.nodelist = some node) :
    p.take tpool = some (node,
      { tpool with nodelist := p.next node, nodeCount := tpool.nodeCount - 1 }, p) := by
  simp only [TlsMemoryPool.take, hcount, hhead, if_true, Option.map_some]

theorem take_freelist (hnone : ¬ tpool.nodeCount > 0) (hcount : tpool.freeCount > 0)
    (hhead : tpool.freelist = some node) :
    p.take tpool = some (node,
      { tpool with freelist := p.next node, freeCount := tpool.freeCount - 1 }, p) := by
  simp only [TlsMemoryPool.take, hnone, hcount, hhead, if_true, if_false, Option.map_some]

theorem take_chunk (hnone : ¬ tpool.nodeCount > 0) (hfree : ¬ tpool.freeCount > 0)
    (hcount : ¬ p.chunkCount - 1 < 0) (hhead : p.top.node = some node) :
    p.take tpool = some (node,
      { tpool with nodelist := p.next node, nodeCount := p.chunkSize - 1 },
      { p with chunkCount := p.chunkCount - 1, top := p.chunknext node }) := by
  simp only [TlsMemoryPool.take, getChunk, hnone, hfree, hcount, hhead, if_false,
    Option.map_some]

theorem take_fresh (hnone : ¬ tpool.nodeCount > 0) (hfree : ¬ tpool.freeCount > 0)
    (hcount : p.chunkCount - 1 < 0) (hhead : (p.chunkAlloc tpool).1.nodelist = some node) :
    p.take tpool = some (node,
      { (p.chunkAlloc tpool).1 with
        nodelist := (p.chunkAlloc tpool).2.next node
        nodeCount := (p.chunkAlloc tpool).1.nodeCount - 1 },
      (p.chunkAlloc tpool).2) := by
  simp only [TlsMemoryPool.take, getChunk, hnone, hfree, hcount, hhead, if_false, if_true,
    Int32.sub_add_cancel, Option.map_some]

/-- A new chunk is written outside the chunks there are. -/
theorem chunkAlloc_next (h : node.chunk < p.chunks) :
    (p.chunkAlloc tpool).2.next node = p.next node := by
  have hne : node.chunk ≠ p.chunks := Nat.ne_of_lt h
  simp only [chunkAlloc]
  rw [Function.update_of_ne fun heq => hne (congrArg Node.chunk heq), linkChunk_of_ne hne]

/-- The new chunk is the thread's node list. -/
theorem chunkAlloc_shows (hsize : 0 < p.chunkSize.toNat) (h : Shows p.next tpool ⟨[], []⟩) :
    Shows (p.chunkAlloc tpool).2.next (p.chunkAlloc tpool).1
      ⟨chunkNodes p.chunks p.chunkSize.toNat, []⟩ where
  nodelist := by
    have hchain : Chain (p.chunkAlloc tpool).2.next (p.chunkAlloc tpool).1.nodelist
        (chunkNodes p.chunks (p.chunkSize.toNat - 1 + 1)) :=
      chain_linkChunk p.next (Nat.le_refl _)
    rwa [Nat.sub_add_cancel hsize] at hchain
  nodeCount := (length_chunkNodes _ _).symm
  freelist := h.freelist
  freeCount := h.freeCount

theorem capacity_succ (h : p.capacity = UInt32.ofNat (p.chunks * p.chunkSize.toNat)) :
    p.capacity + p.chunkSize = UInt32.ofNat ((p.chunks + 1) * p.chunkSize.toNat) := by
  rw [h, Nat.succ_mul, UInt32.ofNat_add, UInt32.ofNat_toNat]

section Take

variable {allocated nodes free : List Node} (h : Whole ⟨p, allocated⟩ s)
  (hsize : 0 < p.chunkSize.toNat) (hstore : s.stores[i]? = some ⟨nodes, free⟩)
  (hshows : Shows p.next tpool ⟨nodes, free⟩)

include h hsize hstore hshows

/-- There is a node on the node list. -/
theorem takes_node (hcount : tpool.nodeCount > 0) : Takes p allocated i tpool := by
  obtain ⟨node, rest, rfl, hhead, hnew⟩ := hshows.popNode hcount
  refine ⟨node, _, p, _, take_nodelist hcount hhead, rfl, ?_,
    congrArg (node :: ·) h.allocated, h.complete.take hsize (Stock.Take.nodes hstore)⟩
  exact h.pictures.write rfl rfl (fun _ _ _ _ _ hold _ => hold) hnew h.pictures.chunks
    h.pictures.chunkCount h.pictures.capacity (usingCount_succ node h.pictures.usingCount)

/-- The node list is empty, and there is a node on the free list. -/
theorem takes_free (hnone : ¬ tpool.nodeCount > 0) (hcount : tpool.freeCount > 0) :
    Takes p allocated i tpool := by
  obtain ⟨node, rest, rfl, hhead, hnew⟩ := hshows.popFree hcount
  obtain rfl := hshows.nodes_eq_nil hnone
  refine ⟨node, _, p, _, take_freelist hnone hcount hhead, rfl, ?_,
    congrArg (node :: ·) h.allocated, h.complete.take hsize (Stock.Take.free hstore)⟩
  exact h.pictures.write rfl rfl (fun _ _ _ _ _ hold _ => hold) hnew h.pictures.chunks
    h.pictures.chunkCount h.pictures.capacity (usingCount_succ node h.pictures.usingCount)

/-- Both lists are empty, and there is a chunk on the stack. -/
theorem takes_chunk (hnone : ¬ tpool.nodeCount > 0) (hfree : ¬ tpool.freeCount > 0)
    (hcount : ¬ p.chunkCount - 1 < 0) : Takes p allocated i tpool := by
  obtain rfl := hshows.nodes_eq_nil hnone
  obtain rfl := hshows.free_eq_nil hfree
  have hpos : 0 < s.chunks.length := by
    rw [h.pictures.chunkCount] at hcount
    exact length_pos_of_chunkCount hcount
  obtain ⟨node, chunk, chunks, hchunks, htop, hchain, hbelow⟩ := h.pictures.chunks.pop hpos
  -- the chunk is trusted to have `_chunkSize` nodes, and it has
  have hlength : chunk.length = p.chunkSize.toNat :=
    h.complete.sized.chunks_eq chunk (hchunks ▸ List.mem_cons_self)
  obtain ⟨head, rest, rfl, hhead, hrest⟩ := hchain.pop (hlength ▸ hsize)
  obtain rfl := Option.some.inj hhead
  have hleft : (p.chunkSize - 1).toNat = rest.length := by
    rw [toNat_pred (UInt32.lt_iff_toNat_lt.mpr hsize), ← hlength]
    rfl
  have hnew : Shows p.next { tpool with nodelist := p.next node, nodeCount := p.chunkSize - 1 }
      ⟨rest, []⟩ := ⟨hrest, hleft, hshows.freelist, hshows.freeCount⟩
  have hcounted : p.chunkCount - 1 = Int32.ofNat chunks.length := by
    rw [h.pictures.chunkCount, hchunks, List.length_cons, Int32.ofNat_add]
    exact Int32.add_sub_cancel _ _
  refine ⟨node, _, _, _, take_chunk hnone hfree hcount htop, rfl, ?_,
    congrArg (node :: ·) h.allocated, h.complete.take hsize (Stock.Take.chunk hstore hchunks)⟩
  exact h.pictures.write
    (q := { p with chunkCount := p.chunkCount - 1, top := p.chunknext node }) rfl rfl
    (fun _ _ _ _ _ hold _ => hold) hnew hbelow hcounted h.pictures.capacity
    (usingCount_succ node h.pictures.usingCount)

/-- Nothing is stored that the call could take. -/
theorem takes_fresh (hnone : ¬ tpool.nodeCount > 0) (hfree : ¬ tpool.freeCount > 0)
    (hcount : p.chunkCount - 1 < 0) : Takes p allocated i tpool := by
  obtain rfl := hshows.nodes_eq_nil hnone
  obtain rfl := hshows.free_eq_nil hfree
  have hpos : (p.chunkAlloc tpool).1.nodeCount > 0 := UInt32.lt_iff_toNat_lt.mpr hsize
  obtain ⟨node, rest, hnodes, hhead, hnew⟩ := (chunkAlloc_shows hsize hshows).popNode hpos
  have hkept : ∀ place, ∀ other ∈ s.held place,
      (p.chunkAlloc tpool).2.next other = p.next other := fun place other hother =>
    chunkAlloc_next (h.complete.in_of_held hother).1
  have hframe : ∀ (j : Nat) other store, p.tlsPools[j]? = some other →
      s.stores[j]? = some store → Shows p.next other store → j ≠ i →
      Shows (p.chunkAlloc tpool).2.next other store := by
    intro j other store _ hother hold _
    refine hold.congr (fun _ hmem => hkept (.nodelist j) _ ?_)
      fun _ hmem => hkept (.freelist j) _ ?_
    · rwa [Stock.held_nodelist hother]
    · rwa [Stock.held_freelist hother]
  have hstack : ChainStack (p.chunkAlloc tpool).2.next p.below p.top.node s.chunks := by
    refine h.pictures.chunks.congr (fun chunk hchunk other hother => ?_) fun _ _ _ _ => rfl
    obtain ⟨k, hk⟩ := List.getElem?_of_mem hchunk
    refine hkept (.chunk k) other ?_
    rwa [Stock.held_chunk hk]
  refine ⟨node, _, _, _, take_fresh hnone hfree hcount hhead, rfl, ?_,
    congrArg (node :: ·) h.allocated,
    h.complete.made.take hsize (Stock.Take.chunk hstore (congrArg (· :: s.chunks) hnodes))⟩
  exact h.pictures.write (q := (p.chunkAlloc tpool).2) rfl rfl hframe hnew hstack
    h.pictures.chunkCount (capacity_succ h.pictures.capacity)
    (usingCount_succ node h.pictures.usingCount)

end Take

/-- `Alloc` finds a node, whatever the thread and the pool store. -/
theorem Whole.alloc {u : Usage} (h : Whole u s) (hsize : 0 < u.pool.chunkSize) (thread : Nat) :
    ∃ v t, operate u (.alloc thread) = some v ∧ v.pool.chunkSize = u.pool.chunkSize ∧
      Whole v t := by
  obtain ⟨i, p, t, hget, hsame, hlt, hwhole⟩ := h.getTlsPool hsize thread
  rw [← hsame] at hsize
  have hpos := UInt32.lt_iff_toNat_lt.mp hsize
  have htpool := List.getElem?_eq_getElem hlt
  have hstore := List.getElem?_eq_getElem (hwhole.pictures.length ▸ hlt)
  have hshows := hwhole.pictures.stores i _ _ htpool hstore
  have htakes : Takes p u.allocated i p.tlsPools[i] := by
    by_cases hnode : p.tlsPools[i].nodeCount > 0
    · exact takes_node hwhole hpos hstore hshows hnode
    · by_cases hfree : p.tlsPools[i].freeCount > 0
      · exact takes_free hwhole hpos hstore hshows hnode hfree
      · by_cases hcount : p.chunkCount - 1 < 0
        · exact takes_fresh hwhole hpos hstore hshows hnode hfree hcount
        · exact takes_chunk hwhole hpos hstore hshows hnode hfree hcount
  obtain ⟨node, tpool, q, t', htake, hsame', hnew⟩ := htakes
  refine ⟨_, t', ?_, hsame'.trans hsame, hnew⟩
  simp only [operate, TlsMemoryPool.alloc, hget, htpool, Option.bind_some, htake, Option.map_some]

/-! ## Free -/

/-- What `put` has to leave: the rest of the call makes a whole pool of it. -/
def Puts (p : TlsMemoryPool) (allocated : List Node) (i : Nat) (tpool : TlsPool) (data : Node) :
    Prop :=
  ∃ tpool' q t, p.put tpool data = (tpool', q) ∧ q.chunkSize = p.chunkSize ∧
    Whole ⟨{ q.store i tpool' with usingCount := q.usingCount - 1 }, allocated.erase data⟩ t

theorem put_nodelist {data : Node} (hroom : tpool.nodeCount < p.chunkSize) :
    p.put tpool data =
      ({ tpool with nodelist := some data, nodeCount := tpool.nodeCount + 1 },
        { p with next := Function.update p.next data tpool.nodelist }) := by
  simp only [TlsMemoryPool.put, hroom, if_true]

theorem put_freelist {data : Node} (hroom : ¬ tpool.nodeCount < p.chunkSize)
    (hfull : ¬ tpool.freeCount + 1 = p.chunkSize) :
    p.put tpool data =
      ({ tpool with freelist := some data, freeCount := tpool.freeCount + 1 },
        { p with next := Function.update p.next data tpool.freelist }) := by
  simp only [TlsMemoryPool.put, hroom, hfull, if_false]

theorem put_chunk {data : Node} (hroom : ¬ tpool.nodeCount < p.chunkSize)
    (hfull : tpool.freeCount + 1 = p.chunkSize) :
    p.put tpool data =
      ({ tpool with freelist := none, freeCount := 0 },
        returnChunk { p with next := Function.update p.next data tpool.freelist } data) := by
  simp only [TlsMemoryPool.put, hroom, hfull, if_false, if_true]

section Put

variable {allocated nodes free : List Node} {data : Node} (h : Whole ⟨p, allocated⟩ s)
  (hstore : s.stores[i]? = some ⟨nodes, free⟩) (hshows : Shows p.next tpool ⟨nodes, free⟩)
  (hdata : data ∈ allocated)

include h hdata

/-- What is given out is on no list, and its links may be written. -/
theorem data_apart : s.Apart data :=
  Stock.apart_of_allocated (h.complete.count_le_one data) (h.allocated ▸ hdata)

theorem frame_data (value : Option Node) (j : Nat) (other : TlsPool) (kept : Store Node)
    (hkept : s.stores[j]? = some kept) (hold : Shows p.next other kept) :
    Shows (Function.update p.next data value) other kept := by
  obtain ⟨hnodes, hfree⟩ := (data_apart h hdata).1 kept (List.mem_of_getElem? hkept)
  exact hold.update hnodes hfree value

theorem usingCount_pred :
    p.usingCount - 1 = UInt32.ofNat (s.allocated.erase data).length := by
  rw [h.pictures.usingCount]
  exact ofNat_erase (h.allocated ▸ hdata)

include hstore hshows

/-- There is room on the node list. -/
theorem puts_node (hroom : tpool.nodeCount < p.chunkSize) : Puts p allocated i tpool data := by
  have hapart := data_apart h hdata
  have husing := usingCount_pred h hdata
  obtain ⟨hnodes, hfree⟩ := hapart.1 _ (List.mem_of_getElem? hstore)
  have hlength : nodes.length < p.chunkSize.toNat := by
    rw [← hshows.nodeCount]
    exact UInt32.lt_iff_toNat_lt.mp hroom
  have hcount : (tpool.nodeCount + 1).toNat = (data :: nodes).length := by
    rw [toNat_succ hroom, hshows.nodeCount]
    rfl
  have hnew : Shows (Function.update p.next data tpool.nodelist)
      { tpool with nodelist := some data, nodeCount := tpool.nodeCount + 1 }
      ⟨data :: nodes, free⟩ :=
    ⟨hshows.nodelist.push hnodes, hcount, hshows.freelist.update hfree _, hshows.freeCount⟩
  refine ⟨_, _, _, put_nodelist hroom, rfl, ?_, congrArg (List.erase · data) h.allocated,
    h.complete.put (h.allocated ▸ hdata) (Stock.Put.nodes hstore hlength)⟩
  exact h.pictures.write
    (q := { p with next := Function.update p.next data tpool.nodelist }) rfl rfl
    (fun j other kept _ hkept hold _ => frame_data h hdata _ j other kept hkept hold) hnew
    (h.pictures.chunks.update hapart.2 _) h.pictures.chunkCount h.pictures.capacity husing

/-- The node list is full, and there is room on the free list. -/
theorem puts_free (hroom : ¬ tpool.nodeCount < p.chunkSize)
    (hfull : ¬ tpool.freeCount + 1 = p.chunkSize) : Puts p allocated i tpool data := by
  have hapart := data_apart h hdata
  have husing := usingCount_pred h hdata
  obtain ⟨hnodes, hfree⟩ := hapart.1 _ (List.mem_of_getElem? hstore)
  have hlt : free.length < p.chunkSize.toNat :=
    h.complete.sized.free_lt _ (List.mem_of_getElem? hstore)
  have hcount : (tpool.freeCount + 1).toNat = (data :: free).length := by
    rw [toNat_succ (UInt32.lt_iff_toNat_lt.mpr (hshows.freeCount ▸ hlt)), hshows.freeCount]
    rfl
  have hlength : free.length + 1 < p.chunkSize.toNat := by
    refine Nat.lt_of_le_of_ne hlt fun heq => hfull (UInt32.toNat_inj.mp ?_)
    rw [hcount, ← heq]
    rfl
  have hnew : Shows (Function.update p.next data tpool.freelist)
      { tpool with freelist := some data, freeCount := tpool.freeCount + 1 }
      ⟨nodes, data :: free⟩ :=
    ⟨hshows.nodelist.update hnodes _, hshows.nodeCount, hshows.freelist.push hfree, hcount⟩
  refine ⟨_, _, _, put_freelist hroom hfull, rfl, ?_, congrArg (List.erase · data) h.allocated,
    h.complete.put (h.allocated ▸ hdata) (Stock.Put.free hstore hlength)⟩
  exact h.pictures.write
    (q := { p with next := Function.update p.next data tpool.freelist }) rfl rfl
    (fun j other kept _ hkept hold _ => frame_data h hdata _ j other kept hkept hold) hnew
    (h.pictures.chunks.update hapart.2 _) h.pictures.chunkCount h.pictures.capacity husing

/-- The free list is a chunk with the node, and goes to the stack. -/
theorem puts_chunk (hroom : ¬ tpool.nodeCount < p.chunkSize)
    (hfull : tpool.freeCount + 1 = p.chunkSize) : Puts p allocated i tpool data := by
  have hapart := data_apart h hdata
  have husing := usingCount_pred h hdata
  obtain ⟨hnodes, hfree⟩ := hapart.1 _ (List.mem_of_getElem? hstore)
  have hlt : free.length < p.chunkSize.toNat :=
    h.complete.sized.free_lt _ (List.mem_of_getElem? hstore)
  have hlength : free.length + 1 = p.chunkSize.toNat := by
    rw [← hfull, toNat_succ (UInt32.lt_iff_toNat_lt.mpr (hshows.freeCount ▸ hlt)),
      hshows.freeCount]
  have hnew : Shows (Function.update p.next data tpool.freelist)
      { tpool with freelist := none, freeCount := 0 } ⟨nodes, []⟩ :=
    ⟨hshows.nodelist.update hnodes _, hshows.nodeCount, Chain.none, rfl⟩
  have hstack : ChainStack (Function.update p.next data tpool.freelist)
      (Tagged.node ∘ Function.update p.chunknext data p.top) (some data)
      ((data :: free) :: s.chunks) := by
    rw [Function.comp_update]
    exact (h.pictures.chunks.update hapart.2 _).push (hshows.freelist.push hfree) hapart.2
  have hcounted : p.chunkCount + 1 = Int32.ofNat ((data :: free) :: s.chunks).length := by
    rw [h.pictures.chunkCount, List.length_cons, Int32.ofNat_add]
    rfl
  refine ⟨_, _, _, put_chunk hroom hfull, rfl, ?_, congrArg (List.erase · data) h.allocated,
    h.complete.put (h.allocated ▸ hdata) (Stock.Put.chunk hstore hlength)⟩
  exact h.pictures.write
    (q := returnChunk { p with next := Function.update p.next data tpool.freelist } data)
    rfl rfl
    (fun j other kept _ hkept hold _ => frame_data h hdata _ j other kept hkept hold) hnew
    hstack hcounted h.pictures.capacity husing

end Put

/-- `Free` of a node that is given out, on any thread. -/
theorem Whole.free {u : Usage} (h : Whole u s) (hsize : 0 < u.pool.chunkSize) (thread : Nat)
    {data : Node} (hdata : data ∈ u.allocated) :
    ∃ v t, operate u (.free thread data) = some v ∧ v.pool.chunkSize = u.pool.chunkSize ∧
      Whole v t := by
  obtain ⟨i, p, t, hget, hsame, hlt, hwhole⟩ := h.getTlsPool hsize thread
  have htpool := List.getElem?_eq_getElem hlt
  have hstore := List.getElem?_eq_getElem (hwhole.pictures.length ▸ hlt)
  have hshows := hwhole.pictures.stores i _ _ htpool hstore
  have hputs : Puts p u.allocated i p.tlsPools[i] data := by
    by_cases hroom : p.tlsPools[i].nodeCount < p.chunkSize
    · exact puts_node hwhole hstore hshows hdata hroom
    · by_cases hfull : p.tlsPools[i].freeCount + 1 = p.chunkSize
      · exact puts_chunk hwhole hstore hshows hdata hroom hfull
      · exact puts_free hwhole hstore hshows hdata hroom hfull
  obtain ⟨tpool, q, t', hput, hsame', hnew⟩ := hputs
  refine ⟨_, t', ?_, hsame'.trans hsame, hnew⟩
  simp only [operate, TlsMemoryPool.free, hget, htpool, Option.map_some, hput]

/-! ## Every run -/

theorem whole_unused {chunkSize : UInt32} : Whole (unused chunkSize) ⟨[], [], []⟩ where
  pictures :=
    { length := rfl
      stores := fun _ _ _ htpool => by simp [unused, new] at htpool
      stored := fun _ htpool => by simp [unused, new] at htpool
      chunks := rfl
      chunkCount := rfl
      usingCount := rfl
      capacity := by simp [unused, new]
      tls_lt := fun _ _ hvalue => by simp [unused, new] at hvalue
      tls_inj := fun _ _ _ hvalue => by simp [unused, new] at hvalue }
  allocated := rfl
  complete :=
    { sized := ⟨by simp, by simp, by simp⟩
      once := fun node => by simp [Stock.count, Stock.weigh, total, Node.In, unused, new]
      card := by simp [Stock.card, Stock.weigh, total, unused, new] }

theorem Whole.operate {u : Usage} (h : Whole u s) (hsize : 0 < u.pool.chunkSize)
    (op : Operation) (howned : Owned u op) :
    ∃ v t, TlsMemoryPool.operate u op = some v ∧ v.pool.chunkSize = u.pool.chunkSize ∧
      Whole v t := by
  cases op with
  | alloc thread => exact h.alloc hsize thread
  | free thread data => exact h.free hsize thread howned

/-- What the pool keeps, of the stock its pointers lead through: every node of every chunk
is at exactly one place, and the counters count the nodes, as the words they are. -/
structure Conserved (u : Usage) (s : Stock Node) : Prop where
  pictures : Pictures u.pool s
  allocated : s.allocated = u.allocated
  one_place : ∀ node : Node, node.In u.pool.chunks u.pool.chunkSize.toNat →
    ∃! place, node ∈ s.held place
  nodup : ∀ place, (s.held place).Nodup
  made : ∀ place, ∀ node ∈ s.held place, node.In u.pool.chunks u.pool.chunkSize.toNat
  sized : s.Sized u.pool.chunkSize.toNat
  usingCount : u.pool.usingCount = UInt32.ofNat u.allocated.length
  capacity : u.pool.capacity = u.pool.usingCount + UInt32.ofNat s.stored
  exact_counts : u.pool.chunks * u.pool.chunkSize.toNat < 2 ^ 32 →
    u.pool.usingCount.toNat = u.allocated.length ∧
      u.pool.capacity.toNat = u.allocated.length + s.stored

theorem Whole.conserved {u : Usage} (h : Whole u s) : Conserved u s := by
  have husing : u.pool.usingCount = UInt32.ofNat u.allocated.length := by
    rw [h.pictures.usingCount, h.allocated]
  have hcard : u.pool.chunks * u.pool.chunkSize.toNat = u.allocated.length + s.stored := by
    rw [← h.complete.card, Stock.card_eq, h.allocated]
  have hcapacity : u.pool.capacity = UInt32.ofNat (u.allocated.length + s.stored) := by
    rw [h.pictures.capacity, hcard]
  refine ⟨h.pictures, h.allocated.symm, fun node hnode => ?_,
    Stock.nodup_held h.complete.count_le_one, fun place node => h.complete.in_of_held,
    h.complete.sized, husing, ?_, fun hlt => ?_⟩
  · exact Stock.existsUnique_held (by rw [h.complete.once node, if_pos hnode])
  · rw [hcapacity, husing, UInt32.ofNat_add]
  · rw [hcard] at hlt
    rw [husing, hcapacity]
    have husingLt := Nat.lt_of_le_of_lt (Nat.le_add_right _ s.stored) hlt
    exact ⟨UInt32.toNat_ofNat_of_lt' husingLt, UInt32.toNat_ofNat_of_lt' hlt⟩

/-- The pointers and the callers leave no choice of the stock. -/
theorem Conserved.unique {u : Usage} {t : Stock Node} (hs : Conserved u s)
    (ht : Conserved u t) : s = t := by
  have hlength := hs.pictures.length.symm.trans ht.pictures.length
  have hstores : s.stores = t.stores := by
    refine List.ext_getElem hlength fun i hi hi' => ?_
    have hlt : i < u.pool.tlsPools.length := hs.pictures.length ▸ hi
    have htpool := List.getElem?_eq_getElem hlt
    have hshows := hs.pictures.stores i _ _ htpool (List.getElem?_eq_getElem hi)
    have hshows' := ht.pictures.stores i _ _ htpool (List.getElem?_eq_getElem hi')
    have hnodes := hshows.nodelist.unique hshows'.nodelist
    have hfree := hshows.freelist.unique hshows'.freelist
    cases hstore : s.stores[i]
    cases hstore' : t.stores[i]
    rw [hstore, hstore'] at hnodes hfree
    exact congrArg₂ Store.mk hnodes hfree
  have hchunks := hs.pictures.chunks.unique ht.pictures.chunks
  have hallocated := hs.allocated.trans ht.allocated.symm
  cases s
  cases t
  exact congr (congrArg₂ Stock.mk hallocated hstores) hchunks

/-- **The pool conserves nodes.**  For every chunk size and every sequence of calls, on any
threads, that free only what is allocated, every call goes through and the pool is
conserved. -/
theorem nodes_conserved (chunkSize : UInt32) (hsize : 0 < chunkSize) (ops : List Operation)
    (howned : Along operate Owned (unused chunkSize) ops) :
    ∃ u, exec operate (unused chunkSize) ops = some u ∧ u.pool.chunkSize = chunkSize ∧
      ∃ s, Conserved u s := by
  have hstep : ∀ u op, (u.pool.chunkSize = chunkSize ∧ ∃ s, Whole u s) → Owned u op →
      ∃ v, operate u op = some v ∧ v.pool.chunkSize = chunkSize ∧ ∃ t, Whole v t := by
    rintro u op ⟨hsame, s, hwhole⟩ hop
    obtain ⟨v, t, hv, hkept, hnew⟩ := hwhole.operate (hsame ▸ hsize) op hop
    exact ⟨v, hv, hkept.trans hsame, t, hnew⟩
  obtain ⟨u, hu, hsame, s, hwhole⟩ := exec_enabled_along hstep
    (s := unused chunkSize) ⟨rfl, ⟨[], [], []⟩, whole_unused⟩ howned
  exact ⟨u, hu, hsame, s, hwhole.conserved⟩

/-- Two threads and chunks of two nodes: thread 0 allocates four, thread 1 frees them all,
returns a chunk on the way, and thread 0 takes it off the stack. -/
def acrossThreads : List Operation :=
  [.alloc 0, .alloc 0, .alloc 0, .alloc 0, .free 1 ⟨0, 0⟩, .free 1 ⟨1, 1⟩, .free 1 ⟨0, 1⟩,
    .free 1 ⟨1, 0⟩, .alloc 0]

theorem acrossThreads_conserved :
    ∃ u, exec operate (unused 2) acrossThreads = some u ∧ u.pool.chunkSize = 2 ∧
      ∃ s, Conserved u s :=
  nodes_conserved 2 (by decide) acrossThreads (by decide)

end SessionServer.Common.TlsMemoryPool
