/-
  Common/MemoryPoolCount.lean --- the figures the memory pool reports, and its limit.

  One thread allocates and frees.  The constructor takes the capacity from its argument and
  makes a chunk of 100 nodes whatever that is; the test of the limit lets the pool grow
  above it and refuses below it.
-/
import SessionServer.Common.MemoryPool

set_option autoImplicit false

namespace SessionServer.Common

open SessionServer.Foundation

namespace MemoryPool

/-- The calls. -/
inductive PoolOp
  | alloc
  | free (node : Node)
  deriving DecidableEq

/-- The pool and the nodes that its caller has got and not given back. -/
structure Lent where
  pool : MemoryPool
  held : List Node

/-- One call; only a node that is held is freed. -/
def call (s : Lent) : PoolOp → Option Lent
  | .alloc => some ⟨s.pool.alloc.2, s.pool.alloc.1.toList ++ s.held⟩
  | .free node =>
      if node ∈ s.held then some ⟨s.pool.free node, s.held.erase node⟩ else none

/-- The pool as it is made and given its limit. -/
def opened (blockNum : Int32) (maxFlag : Bool) (maxCount : Int32) : Lent :=
  ⟨(new blockNum maxFlag).setMaxCount maxCount, []⟩

/-- **What an allocation does.** -/
theorem alloc_cases (p : MemoryPool) :
    (∃ w, p.head = some w ∧ p.alloc = (some w.node, p.pop w)) ∨
      (p.head = none ∧ p.refuses = true ∧ p.alloc = (none, p)) ∨
        (p.head = none ∧ p.refuses = false ∧
          p.alloc = (some ⟨p.chunks, 99⟩, p.chunkAlloc.pop ⟨⟨p.chunks, 99⟩, p.head.nextTag⟩)) := by
  cases hhead : p.head with
  | some w => exact Or.inl ⟨w, rfl, by rw [alloc, hhead]⟩
  | none =>
      cases hrefuses : p.refuses with
      | true =>
          refine Or.inr (Or.inl ⟨rfl, rfl, ?_⟩)
          rw [alloc, hhead]
          exact if_pos hrefuses
      | false =>
          refine Or.inr (Or.inr ⟨rfl, rfl, ?_⟩)
          simp only [alloc, hhead, hrefuses, Bool.false_eq_true, if_false, chunkAlloc_head]

/-! ## The free list -/

/-- The free list is `shelf`, and with the nodes that are held it is all the pool owns. -/
structure Shelved (s : Lent) (shelf : List Node) : Prop where
  listed : Chain s.pool.links s.pool.head.node shelf
  all : (shelf ++ s.held).Perm s.pool.owned

section

variable {p : MemoryPool} {held shelf : List Node} {w : Tagged} {node : Node}

theorem Shelved.pop (h : Shelved ⟨p, held⟩ shelf) (hw : p.head = some w) :
    ∃ rest, shelf = w.node :: rest ∧ Shelved ⟨p.pop w, w.node :: held⟩ rest := by
  have hlisted : Chain p.links (some w.node) shelf := by
    have hchain := h.listed
    simp only [hw] at hchain
    exact hchain
  cases shelf with
  | nil => exact absurd hlisted (by simp)
  | cons node rest =>
      obtain ⟨hnode, hrest⟩ := hlisted
      obtain rfl := Option.some.inj hnode
      exact ⟨rest, rfl, hrest, List.perm_middle.trans h.all⟩

theorem Shelved.grow (h : Shelved ⟨p, held⟩ shelf) :
    Shelved ⟨p.chunkAlloc, held⟩ (chunkNodes p.chunks ++ shelf) where
  listed := by
    have hfirst : p.chunkAlloc.links ⟨p.chunks, 0⟩ = p.head.node := by
      simp only [links, chunkAlloc, Function.update_self]
    refine chain_row (fun i hi => ?_) ?_
    · simp only [links, chunkAlloc]
      rw [Function.update_of_ne (by simp), linkChunk_succ hi]
      rfl
    · rw [hfirst]
      refine h.listed.congr fun node hnode => ?_
      have howned := mem_owned.mp (h.all.mem_iff.mp (List.mem_append_left held hnode))
      have hne : node.chunk ≠ p.chunks := Nat.ne_of_lt howned.1
      simp only [links, chunkAlloc]
      rw [Function.update_of_ne (fun heq => hne (congrArg Node.chunk heq)), linkChunk_of_ne hne]
  all := by
    rw [owned_succ (p := p) rfl, List.append_assoc]
    exact (h.all.append_left _).trans List.perm_append_comm

theorem Shelved.free (h : Shelved ⟨p, held⟩ shelf) (hnode : node ∈ held) :
    Shelved ⟨p.free node, held.erase node⟩ (node :: shelf) where
  listed := by
    have hnew : node ∉ shelf := by
      intro hmem
      have hnodup := h.all.nodup_iff.mpr p.owned_nodup
      exact (List.disjoint_of_nodup_append hnodup) hmem hnode
    have hlinks : (p.free node).links = Function.update p.links node p.head.node := by
      funext other
      simp only [links, MemoryPool.free]
      by_cases heq : other = node
      · rw [heq, Function.update_self, Function.update_self]
      · rw [Function.update_of_ne heq, Function.update_of_ne heq, links]
    rw [hlinks]
    exact h.listed.push hnew
  all := by
    have hheld := (List.perm_cons_erase hnode).append_left shelf
    exact (List.perm_middle.symm.trans hheld.symm).trans h.all

theorem Shelved.called {s t : Lent} {op : PoolOp} (h : Shelved s shelf) (hcall : call s op = some t) :
    ∃ shelf', Shelved t shelf' := by
  obtain ⟨p, held⟩ := s
  cases op with
  | alloc =>
      obtain rfl := Option.some.inj hcall
      rcases p.alloc_cases with ⟨w, hw, halloc⟩ | ⟨-, -, halloc⟩ | ⟨-, -, halloc⟩
      · obtain ⟨rest, -, hrest⟩ := h.pop hw
        simp only [halloc]
        exact ⟨rest, hrest⟩
      · simp only [halloc]
        exact ⟨shelf, h⟩
      · obtain ⟨rest, -, hrest⟩ := h.grow.pop rfl
        simp only [halloc]
        exact ⟨rest, hrest⟩
  | free node =>
      simp only [call] at hcall
      split at hcall
      · rename_i hnode
        obtain rfl := Option.some.inj hcall
        exact ⟨node :: shelf, h.free hnode⟩
      · simp at hcall

end

/-! ## The figures -/

/-- The capacity is the number of nodes the pool owns, and that the use count and the length
of the free list together. -/
def Lent.Accounted (s : Lent) : Prop :=
  s.pool.capacity.toInt = s.pool.owned.length ∧
    ∃ shelf, Chain s.pool.links s.pool.head.node shelf ∧
      (s.pool.owned.length : Int) = s.pool.usingCount.toInt + shelf.length

/-- With the flag set `Alloc` gives null exactly where the free list is empty and the
capacity has reached the maximum. -/
def Lent.Limited (s : Lent) : PoolOp → Prop
  | .alloc =>
      s.pool.maxFlag = true →
        (s.pool.alloc.1 = none ↔ s.pool.head = none ∧ s.pool.maxCount ≤ s.pool.capacity)
  | .free _ => True

/-- An `Alloc` that finds the free list empty finds the capacity at the maximum where there
is one, and room for the next capacity in a `long` where there is none. -/
def Lent.Fits (s : Lent) : PoolOp → Prop
  | .alloc =>
      s.pool.head = none →
        (s.pool.maxFlag = true → s.pool.capacity = s.pool.maxCount) ∧
          (s.pool.maxFlag = false → s.pool.owned.length + 100 < 2 ^ 31)
  | .free _ => True

instance (s : Lent) : (op : PoolOp) → Decidable (s.Fits op)
  | .alloc => inferInstanceAs (Decidable (_ → _ ∧ _))
  | .free _ => inferInstanceAs (Decidable True)

/-- What both counters say. -/
structure Counted (s : Lent) : Prop where
  capacity : s.pool.capacity.toInt = s.pool.owned.length
  usingCount : s.pool.usingCount.toInt = s.held.length

theorem toInt_add_of_lt {n k : Int32} (h : n.toInt + k.toInt < 2 ^ 31) (hn : 0 ≤ n.toInt)
    (hk : 0 ≤ k.toInt) : (n + k).toInt = n.toInt + k.toInt := by
  rw [Int32.toInt_add, Int.bmod_eq_of_le (by omega) (by omega)]

theorem toInt_sub_one {n : Int32} (h : 0 < n.toInt) : (n - 1).toInt = n.toInt - 1 := by
  have hlt := n.toInt_lt
  have hone : (1 : Int32).toInt = 1 := by decide
  rw [Int32.toInt_sub, hone, Int.bmod_eq_of_le (by omega) (by omega)]

section

variable {s t : Lent} {shelf : List Node} {op : PoolOp}

theorem Shelved.length (h : Shelved s shelf) :
    shelf.length + s.held.length = s.pool.owned.length := by
  rw [← List.length_append]
  exact h.all.length_eq

theorem Counted.accounted (hc : Counted s) (h : Shelved s shelf) : s.Accounted := by
  have hlength := h.length
  refine ⟨hc.capacity, shelf, h.listed, ?_⟩
  rw [hc.usingCount]
  omega

/-- A use more, where a node is left for it. -/
theorem Counted.pop {p : MemoryPool} {held : List Node} {w : Tagged} (hc : Counted ⟨p, held⟩)
    (h : Shelved ⟨p, held⟩ shelf) (hw : p.head = some w) :
    Counted ⟨p.pop w, w.node :: held⟩ where
  capacity := hc.capacity
  usingCount := by
    have hcapacity := hc.capacity
    have husing := hc.usingCount
    have hlength := h.length
    have hlt := p.capacity.toInt_lt
    have hone : (1 : Int32).toInt = 1 := by decide
    obtain ⟨rest, hshelf, -⟩ := h.pop hw
    rw [hshelf, List.length_cons] at hlength
    simp only at hcapacity husing hlength
    have hnext : (p.usingCount + 1).toInt = p.usingCount.toInt + (1 : Int32).toInt :=
      toInt_add_of_lt (by omega) (by omega) (by omega)
    simp only [MemoryPool.pop, List.length_cons]
    omega

theorem Counted.grow {p : MemoryPool} {held : List Node} (hc : Counted ⟨p, held⟩)
    (hroom : p.owned.length + 100 < 2 ^ 31) : Counted ⟨p.chunkAlloc, held⟩ where
  capacity := by
    have hcapacity := hc.capacity
    have hhundred : (100 : Int32).toInt = 100 := by decide
    have howned : p.chunkAlloc.owned.length = p.owned.length + 100 := by
      rw [owned_length, owned_length]
      exact Nat.mul_succ 100 p.chunks
    simp only at hcapacity
    have hnext : (p.capacity + 100).toInt = p.capacity.toInt + (100 : Int32).toInt :=
      toInt_add_of_lt (by omega) (by omega) (by omega)
    simp only
    rw [howned, chunkAlloc, hnext]
    omega
  usingCount := hc.usingCount

theorem Counted.free {p : MemoryPool} {held : List Node} {node : Node} (hc : Counted ⟨p, held⟩)
    (hnode : node ∈ held) : Counted ⟨p.free node, held.erase node⟩ where
  capacity := hc.capacity
  usingCount := by
    have husing := hc.usingCount
    have hpos := List.length_pos_of_mem hnode
    simp only at husing
    have hnext : (p.usingCount - 1).toInt = p.usingCount.toInt - 1 := toInt_sub_one (by omega)
    simp only [MemoryPool.free, hnext, List.length_erase_of_mem hnode]
    omega

/-- **One call**: where it fits, the counters stay right and the limit is kept. -/
theorem Counted.called (hc : Counted s) (h : Shelved s shelf) (hfits : s.Fits op)
    (hcall : call s op = some t) : Counted t ∧ s.Limited op := by
  obtain ⟨p, held⟩ := s
  cases op with
  | alloc =>
      obtain rfl := Option.some.inj hcall
      rcases p.alloc_cases with
        ⟨w, hw, halloc⟩ | ⟨hempty, hrefuses, halloc⟩ | ⟨hempty, hrefuses, halloc⟩
      · simp only [Lent.Limited, halloc, hw]
        exact ⟨hc.pop h hw, fun _ => by simp⟩
      · simp only [Lent.Limited, halloc, true_iff]
        refine ⟨hc, fun hflag => ⟨hempty, ?_⟩⟩
        rw [(hfits hempty).1 hflag]
        exact Int32.le_refl _
      · have hflag : p.maxFlag = false := by
          cases hflag : p.maxFlag with
          | false => rfl
          | true =>
              have hle : p.capacity ≤ p.maxCount := by
                rw [(hfits hempty).1 hflag]
                exact Int32.le_refl _
              rw [refuses, hflag, decide_eq_true hle] at hrefuses
              exact absurd hrefuses (by decide)
        simp only [Lent.Limited, halloc, hflag]
        exact ⟨(hc.grow ((hfits hempty).2 hflag)).pop h.grow rfl, fun hno => by simp at hno⟩
  | free node =>
      simp only [call] at hcall
      split at hcall
      · rename_i hnode
        obtain rfl := Option.some.inj hcall
        exact ⟨hc.free hnode, trivial⟩
      · simp at hcall

/-- A call that keeps the limit and leaves the figures right is one that fits. -/
theorem Lent.Limited.fits (hlimited : s.Limited op) (hcall : call s op = some t)
    (haccounted : t.Accounted) : s.Fits op := by
  cases op with
  | free node => trivial
  | alloc =>
      intro hempty
      obtain rfl := Option.some.inj hcall
      rcases s.pool.alloc_cases with ⟨w, hw, -⟩ | ⟨-, hrefuses, halloc⟩ | ⟨-, hrefuses, halloc⟩
      · rw [hempty] at hw
        exact absurd hw (by simp)
      · rw [refuses, Bool.and_eq_true, decide_eq_true_iff] at hrefuses
        refine ⟨fun hflag => ?_, fun hno => ?_⟩
        · have hreached := ((hlimited hflag).mp (by rw [halloc])).2
          exact Int32.le_antisymm hrefuses.2 hreached
        · rw [hrefuses.1] at hno
          exact absurd hno (by decide)
      · refine ⟨fun hflag => ?_, fun _ => ?_⟩
        · have hbelow : ¬ s.pool.maxCount ≤ s.pool.capacity := by
            intro hle
            have hnull := (hlimited hflag).mpr ⟨hempty, hle⟩
            rw [halloc] at hnull
            exact absurd hnull (by simp)
          rw [refuses, hflag, Bool.true_and, decide_eq_false_iff_not] at hrefuses
          rcases Int32.le_total s.pool.capacity s.pool.maxCount with hle | hle
          · exact absurd hle hrefuses
          · exact absurd hle hbelow
        · have hcapacity := haccounted.1
          have hlt := (s.pool.capacity + 100).toInt_lt
          simp only [halloc] at hcapacity
          have howned : (s.pool.chunkAlloc.pop ⟨⟨s.pool.chunks, 99⟩, s.pool.head.nextTag⟩).owned.length =
              s.pool.owned.length + 100 := by
            rw [owned_length, owned_length]
            exact Nat.mul_succ 100 s.pool.chunks
          rw [howned] at hcapacity
          simp only [pop, chunkAlloc] at hcapacity
          omega

/-- In every state of the run the figures are right. -/
def AlwaysAccounted (s : Lent) (ops : List PoolOp) : Prop :=
  ∀ run u, run <+: ops → exec call s run = some u → u.Accounted

theorem alwaysAccounted_cons {ops : List PoolOp} (h : call s op = some t) :
    AlwaysAccounted s (op :: ops) ↔ s.Accounted ∧ AlwaysAccounted t ops := by
  constructor
  · refine fun hall => ⟨hall [] s (List.nil_prefix) rfl, fun run u hrun hexec => ?_⟩
    exact hall (op :: run) u (List.cons_prefix_cons.mpr ⟨rfl, hrun⟩)
      (exec_cons_eq_some.mpr ⟨t, h, hexec⟩)
  · rintro ⟨hs, hall⟩ run u hrun hexec
    cases run with
    | nil =>
        obtain rfl := Option.some.inj hexec
        exact hs
    | cons op' run =>
        obtain ⟨rfl, hrest⟩ := List.cons_prefix_cons.mp hrun
        obtain ⟨t', ht', hexec⟩ := exec_cons_eq_some.mp hexec
        obtain rfl := Option.some.inj (h.symm.trans ht')
        exact hall run u hrest hexec

theorem along_cons {ok : Lent → PoolOp → Prop} {ops : List PoolOp} (h : call s op = some t) :
    Along call ok s (op :: ops) ↔ ok s op ∧ Along call ok t ops := by
  refine and_congr_right fun _ => ⟨fun hall => hall t h, fun hall t' ht' => ?_⟩
  obtain rfl := Option.some.inj (h.symm.trans ht')
  exact hall

/-- **A run from right figures**, by the calls. -/
theorem Counted.run_iff {ops : List PoolOp} {last : Lent} (hc : Counted s) (h : Shelved s shelf)
    (hrun : exec call s ops = some last) :
    (AlwaysAccounted s ops ∧ Along call Lent.Limited s ops) ↔ Along call Lent.Fits s ops := by
  induction ops generalizing s shelf with
  | nil =>
      refine iff_of_true ⟨fun run u hprefix hexec => ?_, trivial⟩ trivial
      obtain rfl := List.prefix_nil.mp hprefix
      obtain rfl := Option.some.inj hexec
      exact hc.accounted h
  | cons op ops ih =>
      obtain ⟨t, hcall, hrest⟩ := exec_cons_eq_some.mp hrun
      obtain ⟨shelf', ht⟩ := h.called hcall
      rw [alwaysAccounted_cons hcall, along_cons hcall, along_cons hcall]
      constructor
      · rintro ⟨⟨-, hall⟩, hlimited, hlater⟩
        have hfits : s.Fits op := hlimited.fits hcall (hall [] t List.nil_prefix rfl)
        exact ⟨hfits, (ih (hc.called h hfits hcall).1 ht hrest).mp ⟨hall, hlater⟩⟩
      · rintro ⟨hfits, hlater⟩
        obtain ⟨hct, hlimited⟩ := hc.called h hfits hcall
        obtain ⟨hall, hlimits⟩ := (ih hct ht hrest).mpr hlater
        exact ⟨⟨hc.accounted h, hall⟩, hlimited, hlimits⟩

theorem shelved_opened (blockNum : Int32) (maxFlag : Bool) (maxCount : Int32) :
    ∃ shelf, Shelved (opened blockNum maxFlag maxCount) shelf := by
  by_cases hnone : blockNum = 0
  · refine ⟨[], ?_, ?_⟩ <;> simp [opened, new, setMaxCount, hnone, owned, Word.node]
  · have hpool : (new blockNum maxFlag).setMaxCount maxCount =
        { head := some ⟨⟨0, 99⟩, 0⟩, capacity := blockNum, usingCount := 0, maxCount := maxCount,
          maxFlag := maxFlag, chunks := 1, next := linkChunk (fun _ => none) 0 99 } := by
      simp only [new, setMaxCount, if_neg hnone]
    refine ⟨rowNodes 0 99 ++ [], ?_, ?_⟩
    · simp only [opened, hpool]
      refine chain_row (fun i hi => ?_) ?_
      · simp only [links, linkChunk_succ hi]
        rfl
      · simp only [links, linkChunk_zero]
        rfl
    · simp only [opened, hpool, List.append_nil]
      simp [owned, chunkNodes]

theorem opened_owned (blockNum : Int32) (maxFlag : Bool) (maxCount : Int32) :
    (opened blockNum maxFlag maxCount).pool.owned.length = if blockNum = 0 then 0 else 100 := by
  by_cases hnone : blockNum = 0
  · simp [opened, new, setMaxCount, hnone, owned_length]
  · simp [opened, new, setMaxCount, hnone, owned_length]

theorem opened_figures (blockNum : Int32) (maxFlag : Bool) (maxCount : Int32) :
    (opened blockNum maxFlag maxCount).pool.capacity = blockNum ∧
      (opened blockNum maxFlag maxCount).pool.usingCount = 0 := by
  by_cases hnone : blockNum = 0
  · simp [opened, new, setMaxCount, hnone]
  · simp [opened, new, setMaxCount, hnone]

/-- **When the figures and the limit of the pool are right** in a run of one thread. -/
theorem accounts_iff {blockNum : Int32} (maxFlag : Bool) (maxCount : Int32) {ops : List PoolOp}
    {last : Lent} (hrun : exec call (opened blockNum maxFlag maxCount) ops = some last) :
    (AlwaysAccounted (opened blockNum maxFlag maxCount) ops ∧
      Along call Lent.Limited (opened blockNum maxFlag maxCount) ops) ↔
    (blockNum = 0 ∨ blockNum = 100) ∧
      Along call Lent.Fits (opened blockNum maxFlag maxCount) ops := by
  obtain ⟨shelf, hshelved⟩ := shelved_opened blockNum maxFlag maxCount
  have howned := opened_owned blockNum maxFlag maxCount
  obtain ⟨hcapacity, husing⟩ := opened_figures blockNum maxFlag maxCount
  by_cases hnum : blockNum = 0 ∨ blockNum = 100
  · rw [and_iff_right hnum]
    refine Counted.run_iff ⟨?_, ?_⟩ hshelved hrun
    · rw [hcapacity, howned]
      rcases hnum with rfl | rfl <;> decide
    · rw [husing]
      rfl
  · -- The figures are wrong before the first call.
    refine iff_of_false (fun h => hnum ?_) fun h => hnum h.1
    have hfirst := (h.1 [] _ List.nil_prefix rfl).1
    rw [hcapacity, howned] at hfirst
    by_cases hnone : blockNum = 0
    · exact Or.inl hnone
    · rw [if_neg hnone] at hfirst
      exact Or.inr (Int32.toInt_inj.mp hfirst)

end

/-- Two nodes are taken and one is given back. -/
def takenAndGiven : List PoolOp := [.alloc, .alloc, .free ⟨0, 99⟩, .alloc]

theorem takenAndGiven_accounted :
    AlwaysAccounted (opened 100 true 100) takenAndGiven ∧
      Along call Lent.Limited (opened 100 true 100) takenAndGiven := by
  obtain ⟨last, hlast⟩ := Option.isSome_iff_exists.mp
    (show (exec call (opened 100 true 100) takenAndGiven).isSome by decide +kernel)
  exact (accounts_iff true 100 hlast).mpr ⟨Or.inr rfl, by decide +kernel⟩

/-- The default argument gives a capacity of 500 to a pool of 100 nodes, and a pool of no
nodes refuses at once below a maximum of 50. -/
theorem opened_not_accounted :
    ¬ (opened 500 false 0).Accounted ∧ ¬ (opened 0 true 50).Limited .alloc := by
  constructor
  · intro h
    have hwrong : (opened 500 false 0).pool.capacity.toInt ≠ (opened 500 false 0).pool.owned.length := by
      decide +kernel
    exact hwrong h.1
  · intro h
    have hbelow : ¬ (opened 0 true 50).pool.maxCount ≤ (opened 0 true 50).pool.capacity := by
      decide
    exact hbelow ((h rfl).mp rfl).2

end MemoryPool

end SessionServer.Common
