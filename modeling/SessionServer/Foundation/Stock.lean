/-
  Foundation/Stock.lean --- items kept in piles by many stores that share a stack of bundles.

  Every store has two piles.  An item is taken off the first pile, off the second when that
  is empty, off a bundle of the shared stack when both are; it is put on the first pile
  while there is room, then on the second, which goes to the stack as a bundle when it is
  full.  Nothing is lost or doubled: the sum of any weight over all the items stays.

  Nothing here names the server; the later files instantiate it.
-/
import SessionServer.Foundation.Stacks

set_option autoImplicit false

namespace SessionServer.Foundation

variable {α : Type}

/-- An entry is rewritten; nothing changes where there is none. -/
theorem sum_map_modify {β : Type} (weight : β → Nat) (f : β → β) (l : List β) (i : Nat) :
    ((l.modify i f).map weight).sum + (l[i]?.map weight).getD 0 =
      (l.map weight).sum + (l[i]?.map fun b => weight (f b)).getD 0 := by
  induction l generalizing i with
  | nil => simp
  | cons b l ih =>
      cases i with
      | zero =>
          simp only [List.modify_zero_cons, List.map_cons, List.sum_cons,
            List.getElem?_cons_zero, Option.map_some, Option.getD_some]
          omega
      | succ i =>
          have hrest := ih i
          simp only [List.modify_succ_cons, List.map_cons, List.sum_cons,
            List.getElem?_cons_succ]
          omega

/-- The two piles of one store. -/
structure Store (α : Type) where
  nodes : List α
  free : List α

/-- The items that are given out, those of the stores and those in bundles. -/
structure Stock (α : Type) where
  allocated : List α
  stores : List (Store α)
  chunks : List (List α)

def Store.weigh (w : α → Nat) (store : Store α) : Nat :=
  (store.nodes.map w).sum + (store.free.map w).sum

namespace Stock

/-- The sum of a weight over all the items. -/
def weigh (w : α → Nat) (s : Stock α) : Nat :=
  (s.allocated.map w).sum + (s.stores.map (Store.weigh w)).sum + total w s.chunks

/-- How often an item is in the stock. -/
def count [DecidableEq α] (s : Stock α) (a : α) : Nat := s.weigh fun b => if b = a then 1 else 0

/-- The number of items. -/
def card (s : Stock α) : Nat := s.weigh fun _ => 1

/-- The number of items that are not given out. -/
def stored (s : Stock α) : Nat :=
  (s.stores.map fun store => store.nodes.length + store.free.length).sum +
    (s.chunks.map List.length).sum

/-- The bounds on the piles, and the size of the bundles. -/
structure Sized (size : Nat) (s : Stock α) : Prop where
  nodes_le : ∀ store ∈ s.stores, store.nodes.length ≤ size
  free_lt : ∀ store ∈ s.stores, store.free.length < size
  chunks_eq : ∀ chunk ∈ s.chunks, chunk.length = size

/-! ## Steps -/

/-- A new store, with nothing on it. -/
def opened (s : Stock α) : Stock α := { s with stores := s.stores ++ [⟨[], []⟩] }

/-- A new bundle on the stack. -/
def made (chunk : List α) (s : Stock α) : Stock α := { s with chunks := chunk :: s.chunks }

/-- An item is taken at a store. -/
inductive Take (i : Nat) (node : α) : Stock α → Stock α → Prop
  | nodes {s : Stock α} {rest free : List α} (h : s.stores[i]? = some ⟨node :: rest, free⟩) :
      Take i node s ⟨node :: s.allocated, s.stores.set i ⟨rest, free⟩, s.chunks⟩
  | free {s : Stock α} {rest : List α} (h : s.stores[i]? = some ⟨[], node :: rest⟩) :
      Take i node s ⟨node :: s.allocated, s.stores.set i ⟨[], rest⟩, s.chunks⟩
  | chunk {s : Stock α} {rest : List α} {chunks : List (List α)}
      (h : s.stores[i]? = some ⟨[], []⟩) (hchunks : s.chunks = (node :: rest) :: chunks) :
      Take i node s ⟨node :: s.allocated, s.stores.set i ⟨rest, []⟩, chunks⟩

/-- An item that was given out is put back at a store. -/
inductive Put [DecidableEq α] (size i : Nat) (node : α) : Stock α → Stock α → Prop
  | nodes {s : Stock α} {nodes free : List α} (h : s.stores[i]? = some ⟨nodes, free⟩)
      (hroom : nodes.length < size) :
      Put size i node s ⟨s.allocated.erase node, s.stores.set i ⟨node :: nodes, free⟩, s.chunks⟩
  | free {s : Stock α} {nodes free : List α} (h : s.stores[i]? = some ⟨nodes, free⟩)
      (hroom : free.length + 1 < size) :
      Put size i node s ⟨s.allocated.erase node, s.stores.set i ⟨nodes, node :: free⟩, s.chunks⟩
  | chunk {s : Stock α} {nodes free : List α} (h : s.stores[i]? = some ⟨nodes, free⟩)
      (hfull : free.length + 1 = size) :
      Put size i node s
        ⟨s.allocated.erase node, s.stores.set i ⟨nodes, []⟩, (node :: free) :: s.chunks⟩

variable {w : α → Nat} {s t : Stock α} {i size : Nat} {node : α}

/-- Every item is given out or stored. -/
theorem card_eq (s : Stock α) : s.card = s.allocated.length + s.stored := by
  have hsum : ∀ l : List α, (l.map fun _ => 1).sum = l.length := fun l => by simp
  have hstore : Store.weigh (fun _ : α => 1) =
      fun store => store.nodes.length + store.free.length := by
    funext store
    rw [Store.weigh, hsum, hsum]
  simp only [card, weigh, stored, total, hstore, hsum, Nat.add_assoc]

@[simp] theorem weigh_opened : s.opened.weigh w = s.weigh w := by
  simp [opened, weigh, Store.weigh]

@[simp] theorem weigh_made (chunk : List α) :
    (s.made chunk).weigh w = (chunk.map w).sum + s.weigh w := by
  simp only [made, weigh, total, List.map_cons, List.sum_cons]
  omega

/-- Taking an item loses and doubles nothing. -/
theorem Take.weigh_eq (h : Take i node s t) : t.weigh w = s.weigh w := by
  cases h with
  | @nodes rest free hstore =>
      have hset := sum_map_set (Store.weigh w) ⟨rest, free⟩ hstore
      simp only [weigh, Store.weigh, List.map_cons, List.sum_cons] at hset ⊢
      omega
  | @free rest hstore =>
      have hset := sum_map_set (Store.weigh w) ⟨[], rest⟩ hstore
      simp only [weigh, Store.weigh, List.map_cons, List.sum_cons] at hset ⊢
      omega
  | @chunk rest chunks hstore hchunks =>
      have hset := sum_map_set (Store.weigh w) ⟨rest, []⟩ hstore
      simp only [weigh, Store.weigh, total, hchunks, List.map_cons, List.sum_cons, List.map_nil,
        List.sum_nil] at hset ⊢
      omega

/-- Putting an item back loses and doubles nothing. -/
theorem Put.weigh_eq [DecidableEq α] (h : Put size i node s t) (hnode : node ∈ s.allocated) :
    t.weigh w = s.weigh w := by
  have herase := List.sum_map_erase w hnode
  cases h with
  | @nodes nodes free hstore =>
      have hset := sum_map_set (Store.weigh w) ⟨node :: nodes, free⟩ hstore
      simp only [weigh, Store.weigh, List.map_cons, List.sum_cons] at hset ⊢
      omega
  | @free nodes free hstore =>
      have hset := sum_map_set (Store.weigh w) ⟨nodes, node :: free⟩ hstore
      simp only [weigh, Store.weigh, List.map_cons, List.sum_cons] at hset ⊢
      omega
  | @chunk nodes free hstore =>
      have hset := sum_map_set (Store.weigh w) ⟨nodes, []⟩ hstore
      simp only [weigh, Store.weigh, total, List.map_cons, List.sum_cons, List.map_nil,
        List.sum_nil] at hset ⊢
      omega

theorem Sized.opened (h : Sized size s) (hsize : 0 < size) : Sized size s.opened where
  nodes_le store hstore := by
    rcases List.mem_append.mp hstore with hold | hnew
    · exact h.nodes_le store hold
    · rw [List.mem_singleton.mp hnew]
      exact Nat.zero_le size
  free_lt store hstore := by
    rcases List.mem_append.mp hstore with hold | hnew
    · exact h.free_lt store hold
    · rw [List.mem_singleton.mp hnew]
      exact hsize
  chunks_eq := h.chunks_eq

theorem Sized.made (h : Sized size s) {chunk : List α} (hchunk : chunk.length = size) :
    Sized size (s.made chunk) where
  nodes_le := h.nodes_le
  free_lt := h.free_lt
  chunks_eq other hother := by
    rcases List.mem_cons.mp hother with rfl | hold
    · exact hchunk
    · exact h.chunks_eq other hold

/-- One store is written, and the stack of bundles. -/
theorem Sized.set (h : Sized size s) {nodes free : List α} {chunks : List (List α)}
    (hnodes : nodes.length ≤ size) (hfree : free.length < size)
    (hchunks : ∀ chunk ∈ chunks, chunk.length = size) (allocated : List α) :
    Sized size ⟨allocated, s.stores.set i ⟨nodes, free⟩, chunks⟩ where
  nodes_le other hother := by
    rcases List.mem_or_eq_of_mem_set hother with hold | rfl
    · exact h.nodes_le other hold
    · exact hnodes
  free_lt other hother := by
    rcases List.mem_or_eq_of_mem_set hother with hold | rfl
    · exact h.free_lt other hold
    · exact hfree
  chunks_eq := hchunks

theorem Take.sized (h : Take i node s t) (hs : Sized size s) (hsize : 0 < size) :
    Sized size t := by
  cases h with
  | nodes hstore =>
      have hnodes := hs.nodes_le _ (List.mem_of_getElem? hstore)
      have hfree := hs.free_lt _ (List.mem_of_getElem? hstore)
      exact hs.set (Nat.le_of_succ_le hnodes) hfree hs.chunks_eq _
  | free hstore =>
      have hfree := hs.free_lt _ (List.mem_of_getElem? hstore)
      refine hs.set ?_ (Nat.lt_of_succ_lt hfree) hs.chunks_eq _
      exact Nat.zero_le size
  | chunk hstore hchunks =>
      have hchunk := hs.chunks_eq _ (hchunks ▸ List.mem_cons_self)
      refine hs.set (Nat.le_of_succ_le hchunk.le) ?_ (fun other hother => ?_) _
      · exact hsize
      · exact hs.chunks_eq other (hchunks ▸ List.mem_cons_of_mem _ hother)

theorem Put.sized [DecidableEq α] (h : Put size i node s t) (hs : Sized size s) :
    Sized size t := by
  cases h with
  | nodes hstore hroom =>
      have hfree := hs.free_lt _ (List.mem_of_getElem? hstore)
      refine hs.set ?_ hfree hs.chunks_eq _
      exact hroom
  | free hstore hroom =>
      have hnodes := hs.nodes_le _ (List.mem_of_getElem? hstore)
      refine hs.set hnodes ?_ hs.chunks_eq _
      exact hroom
  | chunk hstore hfull =>
      have hnodes := hs.nodes_le _ (List.mem_of_getElem? hstore)
      refine hs.set hnodes ?_ (fun other hother => ?_) _
      · exact Nat.zero_lt_of_lt (Nat.lt_of_succ_le hfull.le)
      · rcases List.mem_cons.mp hother with rfl | hold
        · exact hfull
        · exact hs.chunks_eq other hold

/-! ## Places -/

/-- Where an item can be. -/
inductive Place where
  | caller
  | nodelist (i : Nat)
  | freelist (i : Nat)
  | chunk (k : Nat)
  deriving DecidableEq, Repr

/-- The items at a place; there are none where there is no such store or bundle. -/
def held (s : Stock α) : Place → List α
  | .caller => s.allocated
  | .nodelist i => (s.stores[i]?.map Store.nodes).getD []
  | .freelist i => (s.stores[i]?.map Store.free).getD []
  | .chunk k => s.chunks[k]?.getD []

theorem held_nodelist {store : Store α} (h : s.stores[i]? = some store) :
    s.held (.nodelist i) = store.nodes := by
  simp only [held, h, Option.map_some, Option.getD_some]

theorem held_freelist {store : Store α} (h : s.stores[i]? = some store) :
    s.held (.freelist i) = store.free := by
  simp only [held, h, Option.map_some, Option.getD_some]

theorem held_chunk {k : Nat} {chunk : List α} (h : s.chunks[k]? = some chunk) :
    s.held (.chunk k) = chunk := by
  simp only [held, h, Option.getD_some]

/-- The stock without the items at a place. -/
def emptied (s : Stock α) : Place → Stock α
  | .caller => { s with allocated := [] }
  | .nodelist i => { s with stores := s.stores.modify i fun store => { store with nodes := [] } }
  | .freelist i => { s with stores := s.stores.modify i fun store => { store with free := [] } }
  | .chunk k => { s with chunks := s.chunks.modify k fun _ => [] }

theorem weigh_emptied (s : Stock α) (p : Place) :
    (s.emptied p).weigh w + ((s.held p).map w).sum = s.weigh w := by
  cases p with
  | caller =>
      simp only [emptied, held, weigh, List.map_nil, List.sum_nil]
      omega
  | nodelist i =>
      have hmodify := sum_map_modify (Store.weigh w)
        (fun store => { store with nodes := [] }) s.stores i
      simp only [emptied, held, weigh] at hmodify ⊢
      cases h : s.stores[i]? <;> simp [h, Store.weigh] at hmodify ⊢ <;> omega
  | freelist i =>
      have hmodify := sum_map_modify (Store.weigh w)
        (fun store => { store with free := [] }) s.stores i
      simp only [emptied, held, weigh] at hmodify ⊢
      cases h : s.stores[i]? <;> simp [h, Store.weigh] at hmodify ⊢ <;> omega
  | chunk k =>
      have hmodify := sum_map_modify (fun chunk => (chunk.map w).sum) (fun _ => []) s.chunks k
      simp only [emptied, held, weigh, total] at hmodify ⊢
      cases h : s.chunks[k]? <;> simp [h] at hmodify ⊢ <;> omega

/-- Emptying a place leaves the others as they are. -/
theorem held_emptied (s : Stock α) {p q : Place} (hne : q ≠ p) :
    (s.emptied p).held q = s.held q := by
  cases p with
  | caller =>
      cases q with
      | caller => exact absurd rfl hne
      | _ => rfl
  | nodelist i =>
      cases q with
      | nodelist j =>
          have hij : i ≠ j := fun h => hne (congrArg _ h.symm)
          simp only [emptied, held, List.getElem?_modify_ne _ _ hij]
      | freelist j =>
          simp only [emptied, held, List.getElem?_modify, Option.map_eq_map, Option.map_map]
          congr 2
          funext store
          by_cases hij : i = j <;> simp [hij]
      | _ => rfl
  | freelist i =>
      cases q with
      | nodelist j =>
          simp only [emptied, held, List.getElem?_modify, Option.map_eq_map, Option.map_map]
          congr 2
          funext store
          by_cases hij : i = j <;> simp [hij]
      | freelist j =>
          have hij : i ≠ j := fun h => hne (congrArg _ h.symm)
          simp only [emptied, held, List.getElem?_modify_ne _ _ hij]
      | _ => rfl
  | chunk k =>
      cases q with
      | chunk l =>
          have hkl : k ≠ l := fun h => hne (congrArg _ h.symm)
          simp only [emptied, held, List.getElem?_modify_ne _ _ hkl]
      | _ => rfl

/-- A place weighs no more than the stock. -/
theorem weigh_held_le (s : Stock α) (p : Place) : ((s.held p).map w).sum ≤ s.weigh w := by
  rw [← s.weigh_emptied p]
  exact Nat.le_add_left _ _

/-- Two places weigh no more than the stock. -/
theorem weigh_held_add_le (s : Stock α) {p q : Place} (hne : q ≠ p) :
    ((s.held p).map w).sum + ((s.held q).map w).sum ≤ s.weigh w := by
  have hp := s.weigh_emptied (w := w) p
  have hq := (s.emptied p).weigh_held_le (w := w) q
  rw [held_emptied s hne] at hq
  omega

/-- A stock that weighs something has a place that does. -/
theorem exists_weigh_held (s : Stock α) (h : 0 < s.weigh w) :
    ∃ p, 0 < ((s.held p).map w).sum := by
  by_contra hnone
  have hzero : ∀ p, ((s.held p).map w).sum = 0 := fun p =>
    Nat.eq_zero_of_not_pos fun hpos => hnone ⟨p, hpos⟩
  have hcaller := hzero .caller
  have hstores : (s.stores.map (Store.weigh w)).sum = 0 := by
    refine List.sum_eq_zero fun n hn => ?_
    obtain ⟨store, hstore, rfl⟩ := List.mem_map.mp hn
    obtain ⟨i, hi⟩ := List.getElem?_of_mem hstore
    have hnodes := hzero (.nodelist i)
    have hfree := hzero (.freelist i)
    simp only [held, hi, Option.map_some, Option.getD_some] at hnodes hfree
    simp only [Store.weigh]
    omega
  have hchunks : total w s.chunks = 0 := by
    refine List.sum_eq_zero fun n hn => ?_
    obtain ⟨chunk, hchunk, rfl⟩ := List.mem_map.mp hn
    obtain ⟨k, hk⟩ := List.getElem?_of_mem hchunk
    have hbundle := hzero (.chunk k)
    simpa only [held, hk, Option.getD_some] using hbundle
  simp only [held] at hcaller
  simp only [weigh] at h
  omega

variable [DecidableEq α] {a : α}

theorem sum_map_ite_eq_count (l : List α) (a : α) :
    (l.map fun b => if b = a then 1 else 0).sum = l.count a := by
  induction l with
  | nil => rfl
  | cons b l ih =>
      rw [List.map_cons, List.sum_cons, ih, List.count_cons, Nat.add_comm]
      simp only [beq_iff_eq]

/-- **One place.**  An item that is in the stock once is at one place, and at no other. -/
theorem existsUnique_held (h : s.count a = 1) : ∃! p, a ∈ s.held p := by
  obtain ⟨p, hp⟩ := s.exists_weigh_held (Nat.lt_of_lt_of_eq Nat.zero_lt_one h.symm)
  rw [sum_map_ite_eq_count] at hp
  refine ⟨p, List.count_pos_iff.mp hp, fun q hq => ?_⟩
  by_contra hne
  have htwo := s.weigh_held_add_le (w := fun b => if b = a then 1 else 0) hne
  rw [sum_map_ite_eq_count, sum_map_ite_eq_count] at htwo
  have := List.count_pos_iff.mpr hq
  have : s.weigh (fun b => if b = a then 1 else 0) = 1 := h
  omega

/-- A place has each item once, where the stock has. -/
theorem nodup_held (h : ∀ a, s.count a ≤ 1) (p : Place) : (s.held p).Nodup := by
  refine List.nodup_iff_count_le_one.mpr fun a => ?_
  rw [← sum_map_ite_eq_count]
  exact Nat.le_trans (s.weigh_held_le p) (h a)

theorem count_pos_of_mem {p : Place} (h : a ∈ s.held p) : 0 < s.count a := by
  have hle := s.weigh_held_le (w := fun b => if b = a then 1 else 0) p
  rw [sum_map_ite_eq_count] at hle
  exact Nat.lt_of_lt_of_le (List.count_pos_iff.mpr h) hle

/-- An item that is in no store and in no bundle. -/
def Apart (s : Stock α) (a : α) : Prop :=
  (∀ store ∈ s.stores, a ∉ store.nodes ∧ a ∉ store.free) ∧ ∀ chunk ∈ s.chunks, a ∉ chunk

omit [DecidableEq α] in
theorem apart_of_not_held (h : ∀ p, p ≠ .caller → a ∉ s.held p) : s.Apart a := by
  constructor
  · intro store hstore
    obtain ⟨i, hi⟩ := List.getElem?_of_mem hstore
    have hnodes := h (.nodelist i) Place.noConfusion
    have hfree := h (.freelist i) Place.noConfusion
    rw [held_nodelist hi] at hnodes
    rw [held_freelist hi] at hfree
    exact ⟨hnodes, hfree⟩
  · intro chunk hchunk
    obtain ⟨k, hk⟩ := List.getElem?_of_mem hchunk
    have hbundle := h (.chunk k) Place.noConfusion
    rwa [held_chunk hk] at hbundle

/-- What is given out is in no store and in no bundle. -/
theorem apart_of_allocated (h : s.count a ≤ 1) (ha : a ∈ s.allocated) : s.Apart a := by
  refine apart_of_not_held fun p hne hp => ?_
  have htwo := s.weigh_held_add_le (w := fun b => if b = a then 1 else 0) hne
  rw [sum_map_ite_eq_count, sum_map_ite_eq_count] at htwo
  have hcaller : 0 < (s.held .caller).count a := List.count_pos_iff.mpr ha
  have hother := List.count_pos_iff.mpr hp
  have : s.weigh (fun b => if b = a then 1 else 0) ≤ 1 := h
  omega

end Stock

end SessionServer.Foundation
