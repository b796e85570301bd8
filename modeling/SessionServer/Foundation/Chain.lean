/-
  Foundation/Chain.lean --- lists threaded through a link field, and stacks of them.

  `Chain link head nodes` says that the links lead from `head` through exactly `nodes` and
  end in null.  A write to the link of a node that is not on a chain leaves the chain as
  it is, so what a chain needs of the rest of the memory is only that its nodes are its
  own.

  Nothing here names the server; the later files instantiate it.
-/
import Mathlib

set_option autoImplicit false

namespace SessionServer.Foundation

variable {α : Type}

/-- The links lead from `head` through the nodes, in order, and end in null. -/
def Chain (link : α → Option α) : Option α → List α → Prop
  | head, [] => head = none
  | head, node :: nodes => head = some node ∧ Chain link (link node) nodes

variable {link link' below below' : α → Option α} {head top : Option α} {node : α}
  {nodes : List α}

@[simp] theorem chain_nil : Chain link head [] ↔ head = none := Iff.rfl

@[simp] theorem chain_cons :
    Chain link head (node :: nodes) ↔ head = some node ∧ Chain link (link node) nodes := Iff.rfl

instance Chain.decidable [DecidableEq α] (link : α → Option α) :
    (head : Option α) → (nodes : List α) → Decidable (Chain link head nodes)
  | head, [] => inferInstanceAs (Decidable (head = none))
  | head, node :: nodes =>
      have := Chain.decidable link (link node) nodes
      inferInstanceAs (Decidable (head = some node ∧ Chain link (link node) nodes))

theorem Chain.none : Chain link none ([] : List α) := rfl

/-- The pointer to its first node is all a chain needs to be found. -/
theorem Chain.head?_eq (h : Chain link head nodes) : nodes.head? = head := by
  cases nodes with
  | nil => exact h.symm
  | cons node nodes => exact h.1.symm

/-- The links and the head determine the chain. -/
theorem Chain.unique (h : Chain link head nodes) {nodes' : List α}
    (h' : Chain link head nodes') : nodes = nodes' := by
  induction nodes generalizing head nodes' with
  | nil =>
      have hhead := h'.head?_eq
      rw [chain_nil.mp h, List.head?_eq_none_iff] at hhead
      exact hhead.symm
  | cons node nodes ih =>
      cases nodes' with
      | nil => cases h.1.symm.trans h'
      | cons node' nodes' =>
          obtain rfl := Option.some.inj (h.1.symm.trans h'.1)
          rw [ih h.2 h'.2]

/-- A chain with a node has a head, and the rest of it starts at the head's link. -/
theorem Chain.pop (h : Chain link head nodes) (hpos : 0 < nodes.length) :
    ∃ node rest, nodes = node :: rest ∧ head = some node ∧ Chain link (link node) rest := by
  cases nodes with
  | nil => exact absurd hpos (Nat.lt_irrefl 0)
  | cons node rest => exact ⟨node, rest, rfl, h.1, h.2⟩

/-- Only the links of its own nodes matter to a chain. -/
theorem Chain.congr (h : Chain link head nodes) (hlink : ∀ node ∈ nodes, link' node = link node) :
    Chain link' head nodes := by
  induction nodes generalizing head with
  | nil => exact h
  | cons node nodes ih =>
      refine ⟨h.1, ?_⟩
      rw [hlink node List.mem_cons_self]
      exact ih h.2 fun other hother => hlink other (List.mem_cons_of_mem node hother)

/-! ## Stacks of chains -/

/-- Each chain of a stack is known by its first node, and `below` links these downwards. -/
def ChainStack (link below : α → Option α) : Option α → List (List α) → Prop
  | top, [] => top = none
  | top, chain :: chains =>
      Chain link top chain ∧ ∃ node, top = some node ∧ ChainStack link below (below node) chains

variable {chains : List (List α)}

/-- Only the links of the nodes on the stack matter to it. -/
theorem ChainStack.congr (h : ChainStack link below top chains)
    (hlink : ∀ chain ∈ chains, ∀ node ∈ chain, link' node = link node)
    (hbelow : ∀ chain ∈ chains, ∀ node ∈ chain, below' node = below node) :
    ChainStack link' below' top chains := by
  induction chains generalizing top with
  | nil => exact h
  | cons chain chains ih =>
      obtain ⟨hchain, node, rfl, hrest⟩ := h
      have hnode : node ∈ chain := List.mem_of_head? hchain.head?_eq
      refine ⟨hchain.congr (hlink chain List.mem_cons_self), node, rfl, ?_⟩
      rw [hbelow chain List.mem_cons_self node hnode]
      exact ih hrest (fun other hother => hlink other (List.mem_cons_of_mem chain hother))
        fun other hother => hbelow other (List.mem_cons_of_mem chain hother)

/-- The links and the top determine the stack. -/
theorem ChainStack.unique (h : ChainStack link below top chains) {chains' : List (List α)}
    (h' : ChainStack link below top chains') : chains = chains' := by
  induction chains generalizing top chains' with
  | nil =>
      cases chains' with
      | nil => rfl
      | cons chain' chains' =>
          obtain ⟨-, node, htop, -⟩ := h'
          cases htop.symm.trans h
  | cons chain chains ih =>
      obtain ⟨hchain, node, rfl, hrest⟩ := h
      cases chains' with
      | nil => cases h'
      | cons chain' chains' =>
          obtain ⟨hchain', node', htop, hrest'⟩ := h'
          obtain rfl := Option.some.inj htop
          rw [hchain.unique hchain', ih hrest hrest']

/-- A stack with a chain has a top, and the rest of it lies under the top. -/
theorem ChainStack.pop (h : ChainStack link below top chains) (hpos : 0 < chains.length) :
    ∃ node chain rest, chains = chain :: rest ∧ top = some node ∧
      Chain link (some node) chain ∧ ChainStack link below (below node) rest := by
  cases chains with
  | nil => exact absurd hpos (Nat.lt_irrefl 0)
  | cons chain rest =>
      obtain ⟨hchain, node, rfl, hrest⟩ := h
      exact ⟨node, chain, rest, rfl, rfl, hchain, hrest⟩

/-! ## Writes to the links -/

variable [DecidableEq α]

/-- A write to the link of another node. -/
theorem Chain.update (h : Chain link head nodes) (hnode : node ∉ nodes) (value : Option α) :
    Chain (Function.update link node value) head nodes :=
  h.congr fun _ hother => Function.update_of_ne (ne_of_mem_of_not_mem hother hnode) _ _

/-- A node is put before the first one. -/
theorem Chain.push (h : Chain link head nodes) (hnode : node ∉ nodes) :
    Chain (Function.update link node head) (some node) (node :: nodes) := by
  refine ⟨rfl, ?_⟩
  rw [Function.update_self]
  exact h.update hnode head

/-- A write to the link of a node that is on no chain of the stack. -/
theorem ChainStack.update (h : ChainStack link below top chains)
    (hnode : ∀ chain ∈ chains, node ∉ chain) (value : Option α) :
    ChainStack (Function.update link node value) below top chains :=
  h.congr
    (fun chain hchain _ hother =>
      Function.update_of_ne (ne_of_mem_of_not_mem hother (hnode chain hchain)) _ _)
    fun _ _ _ _ => rfl

/-- A chain whose first node is on no chain of the stack is put on top. -/
theorem ChainStack.push (h : ChainStack link below top chains)
    (hchain : Chain link (some node) nodes) (hnode : ∀ chain ∈ chains, node ∉ chain) :
    ChainStack link (Function.update below node top) (some node) (nodes :: chains) := by
  refine ⟨hchain, node, rfl, ?_⟩
  rw [Function.update_self]
  exact h.congr (fun _ _ _ _ => rfl) fun chain hmem _ hother =>
    Function.update_of_ne (ne_of_mem_of_not_mem hother (hnode chain hmem)) _ _

end SessionServer.Foundation
