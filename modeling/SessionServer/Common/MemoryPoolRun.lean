/-
  Common/MemoryPoolRun.lean --- the memory pool under the steps of many threads.

  The compare-exchange of `Alloc` takes the head off the free list if the head is the word
  it has read before.  The tag of a word is the height at which it was pushed, so the same
  word comes back when the list is as high again, with another node below it.  Where the
  node below is still the one that was read, no node is lost and none is lent twice.
-/
import SessionServer.Common.MemoryPoolCount
import SessionServer.Foundation.Hands

set_option autoImplicit false

namespace SessionServer.Common

open SessionServer.Foundation

namespace MemoryPool

/-! ## What a thread has in hand -/

/-- The nodes that are on their way into the free list or out of it. -/
def hand : Pc → List Node
  | .chunkRead _ _ chunk | .chunkLink _ _ chunk _ | .chunkCas _ _ chunk _ => chunkNodes chunk
  | .allocIncrement allocated => allocated.toList
  | .freeRead node _ | .freeLink node _ _ | .freeCas node _ _ => [node]
  | _ => []

/-- The nodes of the chunk are linked. -/
def Row (p : MemoryPool) (chunk : Nat) : Prop :=
  ∀ i < 99, p.next ⟨chunk, i + 1⟩ = some ⟨⟨chunk, i⟩, 0⟩

/-- Before its first round `Alloc` has no new head either. -/
def Blank (newhead : Word) (realadr : Option Node) : Prop := realadr = none → newhead = none

/-- What a call knows of the pool. -/
def Ready (p : MemoryPool) : Pc → Prop
  | .allocRead newhead realadr | .allocLimit newhead realadr | .chunkNew newhead realadr
  | .chunkAdd newhead realadr => Blank newhead realadr
  | .chunkRead newhead realadr chunk | .chunkLink newhead realadr chunk _ =>
      Blank newhead realadr ∧ p.Row chunk
  | .chunkCas newhead realadr chunk oldhead =>
      Blank newhead realadr ∧ p.Row chunk ∧ p.next ⟨chunk, 0⟩ = oldhead
  | .allocCas oldhead newhead realadr =>
      (∀ w, oldhead = some w → realadr = some w.node) ∧ Blank newhead realadr
  | .freeCas node _ oldhead => p.next node = oldhead
  | _ => True

/-- Only the links of what it has in hand matter to a call. -/
theorem Ready.congr {p p' : MemoryPool} {pc : Pc} (h : Ready p pc)
    (hnext : ∀ node ∈ hand pc, p'.next node = p.next node) : Ready p' pc := by
  have hrow : ∀ {chunk}, (∀ node ∈ chunkNodes chunk, p'.next node = p.next node) →
      p.Row chunk → p'.Row chunk := by
    intro chunk hsame hrow i hi
    have hmem : (⟨chunk, i + 1⟩ : Node) ∈ chunkNodes chunk := mem_chunkNodes.mpr ⟨rfl, hi⟩
    rw [hsame _ hmem]
    exact hrow i hi
  cases pc with
  | chunkRead newhead realadr chunk => exact ⟨h.1, hrow hnext h.2⟩
  | chunkLink newhead realadr chunk oldhead => exact ⟨h.1, hrow hnext h.2⟩
  | chunkCas newhead realadr chunk oldhead =>
      refine ⟨h.1, hrow hnext h.2.1, ?_⟩
      have hmem : (⟨chunk, 0⟩ : Node) ∈ chunkNodes chunk := mem_chunkNodes.mpr ⟨rfl, Nat.zero_le 99⟩
      rw [hnext _ hmem]
      exact h.2.2
  | freeCas node tag oldhead =>
      exact (hnext node (List.mem_singleton_self node)).trans h
  | _ => exact h

/-! ## What a step does -/

/-- Where the exchange of `Alloc` is about to succeed, the node behind the head is still the
one that was read; an exchange against a null head, behind a `ChunkAlloc`, has no node of an
earlier round. -/
def Unmoved (p : MemoryPool) : Pc → Prop
  | .allocCas (some oldhead) newhead _ =>
      p.head = some oldhead → p.links oldhead.node = newhead.node
  | .allocCas none _ realadr => p.head = none → realadr = none
  | _ => True

instance (p : MemoryPool) : (pc : Pc) → Decidable (Unmoved p pc)
  | .allocCas (some _) _ _ => inferInstanceAs (Decidable (_ → _))
  | .allocCas none _ _ => inferInstanceAs (Decidable (_ → _))
  | .idle | .allocRead _ _ | .allocLimit _ _ | .chunkNew _ _ | .chunkRead _ _ _
  | .chunkLink _ _ _ _ | .chunkCas _ _ _ _ | .chunkAdd _ _ | .allocNext _ | .allocIncrement _
  | .freeRead _ _ | .freeLink _ _ _ | .freeCas _ _ _ | .freeDecrement => isTrue trivial

/-- **All that a step can do** to the free list and to what its thread has in hand. -/
inductive Effect (p : MemoryPool) (pc : Pc) (p' : MemoryPool) (pc' : Pc) : Prop
  /-- Nothing, but a node is handed over with the last step of `Alloc`. -/
  | quiet (hhead : p'.head = p.head) (hnext : p'.next = p.next) (hchunks : p'.chunks = p.chunks)
      (hhand : hand pc = pc.returns.toList ++ hand pc')
  /-- A chunk is made. -/
  | made (hhead : p'.head = p.head) (hnext : p'.next = linkChunk p.next p.chunks 99)
      (hchunks : p'.chunks = p.chunks + 1) (hhand : hand pc = [])
      (hhand' : hand pc' = chunkNodes p.chunks) (hreturns : pc.returns = none)
  /-- A node in hand is linked. -/
  | linked (node : Node) (value : Word) (hnode : node ∈ hand pc) (hhead : p'.head = p.head)
      (hnext : p'.next = Function.update p.next node value) (hchunks : p'.chunks = p.chunks)
      (hhand : hand pc' = hand pc) (hreturns : pc.returns = none)
  /-- What is in hand is put on the free list. -/
  | pushed (hchain : ∀ shelf, Chain p.links p.head.node shelf →
        Chain p.links p'.head.node (hand pc ++ shelf)) (hnext : p'.next = p.next)
      (hchunks : p'.chunks = p.chunks) (hhand : hand pc' = []) (hreturns : pc.returns = none)
  /-- The head of the free list is taken, if it has one. -/
  | popped (hchain : ∀ shelf, Chain p.links p.head.node shelf →
        ∃ rest, shelf = hand pc' ++ rest ∧ Chain p.links p'.head.node rest)
      (hnext : p'.next = p.next) (hchunks : p'.chunks = p.chunks) (hhand : hand pc = [])
      (hreturns : pc.returns = none)

theorem Row.chain {p : MemoryPool} {chunk : Nat} (h : p.Row chunk) {shelf : List Node}
    (hfirst : p.next ⟨chunk, 0⟩ = p.head) (hshelf : Chain p.links p.head.node shelf) :
    Chain p.links (some ⟨chunk, 99⟩) (chunkNodes chunk ++ shelf) := by
  refine chain_row (fun i hi => ?_) ?_
  · rw [links, h i hi]
    rfl
  · rw [links, hfirst]
    exact hshelf

/-- **What one step does.** -/
theorem advance_effect {p p' : MemoryPool} {pc pc' : Pc} (h : advance p pc = some (p', pc'))
    (hready : Ready p pc) (hok : Unmoved p pc) : Effect p pc p' pc' ∧ Ready p' pc' := by
  cases pc with
  | idle => simp [advance] at h
  | allocRead newhead realadr =>
      simp only [advance] at h
      split at h
      · obtain ⟨rfl, rfl⟩ := Prod.mk.inj (Option.some.inj h)
        exact ⟨.quiet rfl rfl rfl rfl, hready⟩
      · obtain ⟨rfl, rfl⟩ := Prod.mk.inj (Option.some.inj h)
        exact ⟨.quiet rfl rfl rfl rfl, trivial⟩
  | allocLimit newhead realadr =>
      simp only [advance] at h
      split at h
      · obtain ⟨rfl, rfl⟩ := Prod.mk.inj (Option.some.inj h)
        exact ⟨.quiet rfl rfl rfl rfl, trivial⟩
      · obtain ⟨rfl, rfl⟩ := Prod.mk.inj (Option.some.inj h)
        exact ⟨.quiet rfl rfl rfl rfl, hready⟩
  | chunkNew newhead realadr =>
      obtain ⟨rfl, rfl⟩ := Prod.mk.inj (Option.some.inj h)
      exact ⟨.made rfl rfl rfl rfl rfl rfl, hready, fun i hi => linkChunk_succ hi⟩
  | chunkRead newhead realadr chunk =>
      obtain ⟨rfl, rfl⟩ := Prod.mk.inj (Option.some.inj h)
      exact ⟨.quiet rfl rfl rfl rfl, hready⟩
  | chunkLink newhead realadr chunk oldhead =>
      obtain ⟨rfl, rfl⟩ := Prod.mk.inj (Option.some.inj h)
      have hmem : (⟨chunk, 0⟩ : Node) ∈ chunkNodes chunk := mem_chunkNodes.mpr ⟨rfl, Nat.zero_le 99⟩
      refine ⟨.linked ⟨chunk, 0⟩ oldhead hmem rfl rfl rfl rfl rfl, hready.1, fun i hi => ?_,
        Function.update_self ..⟩
      exact (Function.update_of_ne (by simp) ..).trans (hready.2 i hi)
  | chunkCas newhead realadr chunk oldhead =>
      obtain ⟨hblank, hrow, hfirst⟩ := hready
      simp only [advance] at h
      split at h
      · rename_i hhead
        obtain ⟨rfl, rfl⟩ := Prod.mk.inj (Option.some.inj h)
        exact ⟨.pushed (fun shelf hshelf => hrow.chain (hfirst.trans hhead.symm) hshelf) rfl rfl rfl
          rfl, hblank⟩
      · obtain ⟨rfl, rfl⟩ := Prod.mk.inj (Option.some.inj h)
        exact ⟨.quiet rfl rfl rfl rfl, hblank, hrow⟩
  | chunkAdd newhead realadr =>
      obtain ⟨rfl, rfl⟩ := Prod.mk.inj (Option.some.inj h)
      exact ⟨.quiet rfl rfl rfl rfl, fun w hw => by simp at hw, hready⟩
  | allocNext oldhead =>
      obtain ⟨rfl, rfl⟩ := Prod.mk.inj (Option.some.inj h)
      refine ⟨.quiet rfl rfl rfl rfl, fun w hw => ?_, fun hno => by simp at hno⟩
      rw [Option.some.inj hw]
  | allocCas oldhead newhead realadr =>
      obtain ⟨haddress, hblank⟩ := hready
      simp only [advance] at h
      split at h
      · rename_i hhead
        obtain ⟨rfl, rfl⟩ := Prod.mk.inj (Option.some.inj h)
        refine ⟨.popped (fun shelf hshelf => ?_) rfl rfl rfl rfl, trivial⟩
        cases oldhead with
        | none =>
            obtain rfl := hok hhead
            rw [hhead] at hshelf
            refine ⟨shelf, rfl, ?_⟩
            rw [hblank rfl]
            exact hshelf
        | some w =>
            obtain rfl := haddress w rfl
            rw [hhead] at hshelf
            obtain ⟨node, rest, rfl, hnode, hrest⟩ := hshelf.pop (by
              cases shelf with
              | nil => exact absurd hshelf (by simp [Word.node])
              | cons node rest => exact Nat.succ_pos _)
            obtain rfl := Option.some.inj hnode
            refine ⟨rest, rfl, ?_⟩
            rw [← hok hhead]
            exact hrest
      · obtain ⟨rfl, rfl⟩ := Prod.mk.inj (Option.some.inj h)
        exact ⟨.quiet rfl rfl rfl rfl, hblank⟩
  | allocIncrement allocated =>
      obtain ⟨rfl, rfl⟩ := Prod.mk.inj (Option.some.inj h)
      exact ⟨.quiet rfl rfl rfl (List.append_nil _).symm, trivial⟩
  | freeRead node tag =>
      obtain ⟨rfl, rfl⟩ := Prod.mk.inj (Option.some.inj h)
      exact ⟨.quiet rfl rfl rfl rfl, trivial⟩
  | freeLink node tag oldhead =>
      obtain ⟨rfl, rfl⟩ := Prod.mk.inj (Option.some.inj h)
      exact ⟨.linked node oldhead (List.mem_singleton_self node) rfl rfl rfl rfl rfl,
        Function.update_self ..⟩
  | freeCas node tag oldhead =>
      simp only [advance] at h
      split at h
      · rename_i hhead
        obtain ⟨rfl, rfl⟩ := Prod.mk.inj (Option.some.inj h)
        refine ⟨.pushed (fun shelf hshelf => ⟨rfl, ?_⟩) rfl rfl rfl rfl, trivial⟩
        have hbelow : p.next node = p.head := hready.trans hhead.symm
        rw [links, hbelow]
        exact hshelf
      · obtain ⟨rfl, rfl⟩ := Prod.mk.inj (Option.some.inj h)
        exact ⟨.quiet rfl rfl rfl rfl, trivial⟩
  | freeDecrement =>
      obtain ⟨rfl, rfl⟩ := Prod.mk.inj (Option.some.inj h)
      exact ⟨.quiet rfl rfl rfl rfl, trivial⟩

/-! ## What every step keeps -/

/-- The nodes on the free list, those the callers hold and those that are on their way are all
the pool owns, each once. -/
structure Kept (s : System) (shelf : List Node) : Prop where
  listed : Chain s.pool.links s.pool.head.node shelf
  all : (shelf ++ s.held ++ hands hand s.threads).Perm s.pool.owned
  ready : ∀ (t : Nat) (pc : Pc), s.threads[t]? = some pc → Ready s.pool pc

section

variable {s : System} {shelf : List Node} {t : Nat} {pc pc' : Pc} {p' : MemoryPool} {node : Node}

theorem Kept.nodup (h : Kept s shelf) : (shelf ++ s.held ++ hands hand s.threads).Nodup :=
  h.all.nodup_iff.mpr s.pool.owned_nodup

theorem Kept.owned_of_hand (h : Kept s shelf) (ht : s.threads[t]? = some pc)
    (hnode : node ∈ hand pc) : node ∈ s.pool.owned :=
  h.all.mem_iff.mp (List.mem_append_right _ (mem_hands.mpr ⟨t, pc, ht, hnode⟩))

theorem Kept.not_listed (h : Kept s shelf) (ht : s.threads[t]? = some pc)
    (hnode : node ∈ hand pc) : node ∉ shelf := fun hmem =>
  List.disjoint_of_nodup_append h.nodup (List.mem_append_left _ hmem)
    (mem_hands.mpr ⟨t, pc, ht, hnode⟩)

/-- The others are where they were and know what they knew. -/
theorem Kept.others (h : Kept s shelf) (hready : Ready p' pc')
    (hnext : ∀ (u : Nat) (other : Pc) (node : Node), u ≠ t → s.threads[u]? = some other → node ∈ hand other →
      p'.next node = s.pool.next node) :
    ∀ (u : Nat) (other : Pc), (s.threads.set t pc')[u]? = some other → Ready p' other := by
  intro u other hu
  rcases getElem?_set_cases hu with ⟨-, rfl⟩ | ⟨hne, hold⟩
  · exact hready
  · exact (h.ready u other hold).congr fun node hnode => hnext u other node hne hold hnode

/-- **One step of a call keeps the nodes.** -/
theorem Kept.advance (h : Kept s shelf) (ht : s.threads[t]? = some pc)
    (heffect : Effect s.pool pc p' pc') (hready : Ready p' pc') :
    ∃ shelf', Kept ⟨p', pc.returns.toList ++ s.held, s.threads.set t pc'⟩ shelf' := by
  have hset := count_hands_set hand ht pc'
  have hall := List.perm_iff_count.mp h.all
  simp only [List.count_append] at hall
  have howned : ∀ {q : MemoryPool}, q.chunks = s.pool.chunks → q.owned = s.pool.owned := by
    intro q hq
    rw [owned, hq, owned]
  have hlinks : ∀ {q : MemoryPool}, q.next = s.pool.next → q.links = s.pool.links := by
    intro q hq
    funext node
    rw [links, hq, links]
  cases heffect with
  | quiet hhead hnext hchunks hhand =>
      refine ⟨shelf, ?_, List.perm_iff_count.mpr fun a => ?_, h.others hready
        fun u other node _ _ _ => congrFun hnext node⟩
      · simp only [hhead, hlinks hnext]
        exact h.listed
      · have hset := hset a
        have hall := hall a
        rw [hhand, List.count_append] at hset
        simp only [List.count_append, howned hchunks]
        omega
  | made hhead hnext hchunks hhand hhand' hreturns =>
      have hold : ∀ node ∈ s.pool.owned, p'.next node = s.pool.next node := by
        intro node hnode
        rw [hnext, linkChunk_of_ne (Nat.ne_of_lt (mem_owned.mp hnode).1)]
      refine ⟨shelf, ?_, List.perm_iff_count.mpr fun a => ?_, h.others hready
        fun u other node _ hu hnode => hold node (h.owned_of_hand hu hnode)⟩
      · simp only [hhead]
        refine h.listed.congr fun node hnode => ?_
        have hmem := h.all.mem_iff.mp (List.mem_append_left _ (List.mem_append_left _ hnode))
        rw [links, hold node hmem, links]
      · have hset := hset a
        have hall := hall a
        rw [hhand, hhand', List.count_nil] at hset
        simp only [hreturns, Option.toList_none, List.nil_append, List.count_append,
          owned_succ hchunks]
        omega
  | linked node value hnode hhead hnext hchunks hhand hreturns =>
      refine ⟨shelf, ?_, List.perm_iff_count.mpr fun a => ?_, h.others hready
        fun u other node' hne hu hnode' => ?_⟩
      · simp only [hhead]
        refine h.listed.congr fun other hother => ?_
        have hne : other ≠ node := fun heq => h.not_listed ht hnode (heq ▸ hother)
        rw [links, hnext, Function.update_of_ne hne, links]
      · have hset := hset a
        have hall := hall a
        rw [hhand] at hset
        simp only [hreturns, Option.toList_none, List.nil_append, List.count_append,
          howned hchunks]
        omega
      · have hdisjoint := disjoint_of_nodup_hands (List.Nodup.of_append_right h.nodup) ht hu hne hnode
        have hother : node' ≠ node := fun heq => hdisjoint (heq ▸ hnode')
        rw [hnext, Function.update_of_ne hother]
  | pushed hchain hnext hchunks hhand hreturns =>
      refine ⟨hand pc ++ shelf, ?_, List.perm_iff_count.mpr fun a => ?_, h.others hready
        fun u other node _ _ _ => congrFun hnext node⟩
      · simp only [hlinks hnext]
        exact hchain shelf h.listed
      · have hset := hset a
        have hall := hall a
        rw [hhand, List.count_nil] at hset
        simp only [hreturns, Option.toList_none, List.nil_append, List.count_append,
          howned hchunks]
        omega
  | popped hchain hnext hchunks hhand hreturns =>
      obtain ⟨rest, rfl, hrest⟩ := hchain shelf h.listed
      refine ⟨rest, ?_, List.perm_iff_count.mpr fun a => ?_, h.others hready
        fun u other node _ _ _ => congrFun hnext node⟩
      · simp only [hlinks hnext]
        exact hrest
      · have hset := hset a
        have hall := hall a
        rw [hhand, List.count_nil] at hset
        simp only [List.count_append] at hall
        simp only [hreturns, Option.toList_none, List.nil_append, List.count_append,
          howned hchunks]
        omega

/-- A call begins. -/
theorem Kept.begin (h : Kept s shelf) (ht : s.threads[t]? = some .idle) {held : List Node}
    (hall : ∀ a, held.count a + (hand pc').count a = s.held.count a) (hready : Ready s.pool pc') :
    Kept ⟨s.pool, held, s.threads.set t pc'⟩ shelf where
  listed := h.listed
  all := by
    refine List.perm_iff_count.mpr fun a => ?_
    have hset := count_hands_set hand ht pc' a
    have hbefore := List.perm_iff_count.mp h.all a
    have hidle : (hand .idle).count a = 0 := rfl
    have hheld := hall a
    simp only [List.count_append] at hbefore ⊢
    omega
  ready := h.others hready fun _ _ _ _ _ _ => rfl

end

/-- The condition on the steps of a run. -/
def System.Unmoved (s : System) : Label → Prop
  | .step t => ∀ pc ∈ s.threads[t]?, MemoryPool.Unmoved s.pool pc
  | _ => True

instance (s : System) : (label : Label) → Decidable (s.Unmoved label)
  | .step t => inferInstanceAs (Decidable (∀ pc ∈ s.threads[t]?, MemoryPool.Unmoved s.pool pc))
  | .alloc _ | .free _ _ => isTrue trivial

/-- **One step keeps the nodes.** -/
theorem Kept.step {s s' : System} {shelf : List Node} {label : Label} (h : Kept s shelf)
    (hok : s.Unmoved label) (hstep : step s label = some s') : ∃ shelf', Kept s' shelf' := by
  cases label with
  | alloc t =>
      simp only [MemoryPool.step] at hstep
      split at hstep
      · rename_i ht
        obtain rfl := Option.some.inj hstep
        exact ⟨shelf, h.begin ht (fun a => rfl) fun _ => rfl⟩
      · simp at hstep
  | free t node =>
      simp only [MemoryPool.step] at hstep
      split at hstep
      · rename_i hcall
        obtain rfl := Option.some.inj hstep
        refine ⟨shelf, h.begin hcall.1 (fun a => ?_) trivial⟩
        have hcount := List.perm_iff_count.mp (List.perm_cons_erase hcall.2) a
        rw [← List.singleton_append, List.count_append] at hcount
        simp only [hand]
        omega
      · simp at hstep
  | step t =>
      simp only [MemoryPool.step] at hstep
      split at hstep
      · simp at hstep
      · rename_i pc ht
        obtain ⟨⟨p', pc'⟩, hadvance, rfl⟩ := Option.map_eq_some_iff.mp hstep
        obtain ⟨heffect, hready⟩ := advance_effect hadvance (h.ready t pc ht) (hok pc ht)
        exact h.advance ht heffect hready

/-- No node is held twice, and the free nodes are all on the list. -/
def System.Whole (s : System) : Prop :=
  s.held.Nodup ∧ ∃ shelf, Chain s.pool.links s.pool.head.node shelf ∧
    (shelf ++ s.held ++ hands hand s.threads).Nodup ∧
      ∀ node, node ∈ shelf ++ s.held ++ hands hand s.threads ↔ node ∈ s.pool.owned

theorem Kept.whole {s : System} {shelf : List Node} (h : Kept s shelf) : s.Whole :=
  ⟨List.Nodup.of_append_right (List.Nodup.of_append_left h.nodup), shelf, h.listed, h.nodup,
    fun _ => h.all.mem_iff⟩

theorem kept_start (blockNum : Int32) (maxFlag : Bool) (maxCount : Int32) (n : Nat) :
    ∃ shelf, Kept (start (opened blockNum maxFlag maxCount).pool n) shelf := by
  obtain ⟨shelf, hlisted, hall⟩ := shelved_opened blockNum maxFlag maxCount
  refine ⟨shelf, hlisted, ?_, fun t pc ht => ?_⟩
  · rw [start, hands_replicate rfl, List.append_nil]
    exact hall
  · rw [List.eq_of_mem_replicate (List.mem_of_getElem? ht)]
    trivial

/-- **No node is lent twice and none is lost** in a run in which the exchange of `Alloc` finds
the node behind the head that it has read. -/
theorem whole_run {blockNum : Int32} {maxFlag : Bool} {maxCount : Int32} {n : Nat}
    {labels : List Label} {s : System}
    (hok : Along step System.Unmoved (start (opened blockNum maxFlag maxCount).pool n) labels)
    (h : exec step (start (opened blockNum maxFlag maxCount).pool n) labels = some s) :
    s.Whole := by
  obtain ⟨shelf, hkept⟩ := exec_invariant_along (I := fun s => ∃ shelf, Kept s shelf)
    (fun s label s' hkept hok hstep => hkept.elim fun _ hshelf => hshelf.step hok hstep)
    (kept_start blockNum maxFlag maxCount n) hok h
  exact hkept.whole

/-- The steps of one call that is not disturbed. -/
def allocSteps (t : Nat) : List Label := .alloc t :: List.replicate 4 (.step t)

def freeSteps (t : Nat) (node : Node) : List Label := .free t node :: List.replicate 4 (.step t)

/-- Two threads, one after the other. -/
def inTurn : List Label := allocSteps 0 ++ allocSteps 1 ++ freeSteps 0 ⟨0, 98⟩ ++ allocSteps 1

theorem inTurn_whole :
    ∃ s, exec step (start (opened 100 false 0).pool 2) inTurn = some s ∧ s.Whole := by
  obtain ⟨s, hs⟩ := Option.isSome_iff_exists.mp
    (show (exec step (start (opened 100 false 0).pool 2) inTurn).isSome by decide +kernel)
  exact ⟨s, hs, whole_run (by decide +kernel) hs⟩

/-- Thread 0 reads the head, node 98 at height 2, and node 99 below it.  Thread 1 takes
three nodes and puts back nodes 97 and 98, so that node 98 is the head at height 2 again. -/
def sameHeight : List Label :=
  allocSteps 1 ++ allocSteps 1 ++ freeSteps 1 ⟨0, 99⟩ ++ freeSteps 1 ⟨0, 98⟩ ++
    [.alloc 0, .step 0, .step 0] ++
    allocSteps 1 ++ allocSteps 1 ++ allocSteps 1 ++ freeSteps 1 ⟨0, 97⟩ ++ freeSteps 1 ⟨0, 98⟩ ++
    [.step 0, .step 0] ++ allocSteps 1

/-- Node 99 is lent twice. -/
theorem sameHeight_not_whole :
    ∃ s, exec step (start (opened 100 false 0).pool 2) sameHeight = some s ∧ ¬ s.Whole := by
  have hheld : (exec step (start (opened 100 false 0).pool 2) sameHeight).map System.held =
      some [⟨0, 99⟩, ⟨0, 98⟩, ⟨0, 99⟩] := by
    decide +kernel
  obtain ⟨s, hs, hlent⟩ := Option.map_eq_some_iff.mp hheld
  refine ⟨s, hs, fun h => ?_⟩
  have hnodup := h.1
  rw [hlent] at hnodup
  exact absurd hnodup (by decide)

end MemoryPool

end SessionServer.Common
