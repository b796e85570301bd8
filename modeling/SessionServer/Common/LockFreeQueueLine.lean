/-
  Common/LockFreeQueueLine.lean --- the nodes of a lock-free queue.

  From the dummy on the nodes of a queue are in a line that ends at the tail.  `Enqueue`
  moves the tail before it links, so that a link of the line may be missing; then the thread
  that has moved the tail is about to set it.
-/
import SessionServer.Common.LockFreeQueue

set_option autoImplicit false

namespace SessionServer.Common

open SessionServer.Foundation

open LockFree

namespace LFQueue

variable {n : Nat} {α : Type}

/-- The dummy and the words behind it. -/
structure Line where
  dummy : Tagged
  rest : List Tagged

namespace Line

def words (l : Line) : List Tagged := l.dummy :: l.rest

def last (l : Line) : Tagged := l.rest.getLastD l.dummy

/-- One more at the tail. -/
def snoc (l : Line) (w : Tagged) : Line := ⟨l.dummy, l.rest ++ [w]⟩

/-- `w` is right behind `v`. -/
def Adjacent (l : Line) (v w : Tagged) : Prop := ∃ pre post, l.words = pre ++ v :: w :: post

end Line

theorem Line.last_mem (l : Line) : l.last ∈ l.words := List.getLastD_mem_cons

/-- A word of a list without repetitions splits it in one way. -/
theorem append_cons_inj_of_nodup {pre post pre' post' : List Tagged} {w : Tagged}
    (hnodup : (pre ++ w :: post).Nodup) (h : pre ++ w :: post = pre' ++ w :: post') :
    pre = pre' ∧ post = post' := by
  have hpre : w ∉ pre := fun hmem =>
    (List.nodup_append.mp hnodup).2.2 w hmem w List.mem_cons_self rfl
  have hpost : w ∉ post := (List.nodup_cons.mp (List.nodup_append.mp hnodup).2.1).1
  obtain ⟨hbefore, -, hafter⟩ := (List.append_cons_inj_of_notMem hpre hpost).mp h
  exact ⟨hbefore, hafter⟩

section

variable {l : Line} {v w x : Tagged}

theorem Line.Adjacent.mem (h : l.Adjacent v w) : v ∈ l.words ∧ w ∈ l.words := by
  obtain ⟨pre, post, hwords⟩ := h
  simp [hwords]

/-- The words stand behind each other as before when one more is put at the tail. -/
theorem Line.Adjacent.snoc (h : l.Adjacent v w) : (l.snoc x).Adjacent v w := by
  obtain ⟨pre, post, hwords⟩ := h
  refine ⟨pre, post ++ [x], ?_⟩
  have hsnoc : (l.snoc x).words = l.words ++ [x] := rfl
  rw [hsnoc, hwords]
  simp

/-- The new word is right behind the old tail. -/
theorem Line.adjacent_snoc (l : Line) (w : Tagged) : (l.snoc w).Adjacent l.last w := by
  refine ⟨l.words.dropLast, [], ?_⟩
  have hsnoc : (l.snoc w).words = l.words ++ [w] := rfl
  have hlast : l.words.getLast (List.cons_ne_nil _ _) = l.last := List.getLast_eq_getLastD _
  have hsplit : l.words.dropLast ++ [l.words.getLast (List.cons_ne_nil _ _)] = l.words :=
    List.dropLast_append_getLast _
  calc (l.snoc w).words = (l.words.dropLast ++ [l.words.getLast (List.cons_ne_nil _ _)]) ++ [w] := by
        rw [hsnoc, hsplit]
    _ = l.words.dropLast ++ [l.last, w] := by
        rw [hlast, List.append_assoc]
        rfl

/-- When the dummy goes, the words behind the new one stand as before. -/
theorem Line.Adjacent.tail {dummy : Tagged} {rest : List Tagged}
    (h : Line.Adjacent ⟨dummy, x :: rest⟩ v w) (hne : w ≠ x) : Line.Adjacent ⟨x, rest⟩ v w := by
  obtain ⟨pre, post, hwords⟩ := h
  cases pre with
  | nil =>
      obtain ⟨-, htail⟩ := List.cons.inj hwords
      exact absurd (List.cons.inj htail).1.symm hne
  | cons y pre => exact ⟨pre, post, (List.cons.inj hwords).2⟩

/-- One word stands right before another. -/
theorem Line.Adjacent.left_unique (h : l.Adjacent v w) (h' : l.Adjacent x w)
    (hnodup : l.words.Nodup) : x = v := by
  obtain ⟨pre, post, hwords⟩ := h
  obtain ⟨pre', post', hwords'⟩ := h'
  rw [hwords] at hnodup hwords'
  have hsplit : (pre ++ [v]) ++ w :: post = (pre' ++ [x]) ++ w :: post' := by
    simpa using hwords'
  have hnodup' : ((pre ++ [v]) ++ w :: post).Nodup := by simpa using hnodup
  obtain ⟨hbefore, -⟩ := append_cons_inj_of_nodup hnodup' hsplit
  exact (List.cons.inj (List.append_inj_right' hbefore rfl)).1.symm

/-- One word stands right behind another. -/
theorem Line.Adjacent.right_eq {pre rest : List Tagged} (h : l.Adjacent v w)
    (hwords : l.words = pre ++ v :: rest) (hnodup : l.words.Nodup) : ∃ post, rest = w :: post := by
  obtain ⟨pre', post, hwords'⟩ := h
  rw [hwords] at hnodup hwords'
  exact ⟨post, (append_cons_inj_of_nodup hnodup hwords').2⟩

/-- A function that leads from each word to the next one leads through the line. -/
theorem Line.chain {f : Tagged → Option Tagged} (l : Line)
    (hf : ∀ v ∈ l.words, ∀ w, f v = some w ↔ l.Adjacent v w) (hnodup : l.words.Nodup) :
    Chain f (some l.dummy) l.words := by
  have hsuffix : ∀ (rest pre : List Tagged) (v : Tagged), l.words = pre ++ v :: rest →
      Chain f (some v) (v :: rest) := by
    intro rest
    induction rest with
    | nil =>
        intro pre v hwords
        refine ⟨rfl, Option.eq_none_iff_forall_ne_some.mpr fun w hw => ?_⟩
        have hadjacent := (hf v (by simp [hwords]) w).mp hw
        obtain ⟨post, hpost⟩ := hadjacent.right_eq hwords hnodup
        exact absurd hpost (by simp)
    | cons w rest ih =>
        intro pre v hwords
        have hadjacent : l.Adjacent v w := ⟨pre, rest, hwords⟩
        have hnext := (hf v hadjacent.mem.1 w).mpr hadjacent
        refine ⟨rfl, ?_⟩
        rw [hnext]
        exact ih (pre ++ [v]) w (by simp [hwords])
  exact hsuffix l.rest [] l.dummy rfl

end

/-- `w` is linked behind `v`, or its thread has still to do so. -/
def Linked (m : Memory n α) (q : Fin n) (v w : Tagged) : Prop :=
  (m.home w.node = .container q ∧ m.next v.node = some w) ∨
    ((∃ t, m.home w.node = .entering t q) ∧ m.next v.node = none)

/-- The words are in a line behind `v`, and nothing is behind the last. -/
def LinkedFrom (m : Memory n α) (q : Fin n) : Tagged → List Tagged → Prop
  | v, [] => m.next v.node = none
  | v, w :: rest => Linked m q v w ∧ LinkedFrom m q w rest

section

variable {m m' : Memory n α} {q : Fin n} {v w x : Tagged} {rest : List Tagged}

theorem LinkedFrom.congr (h : LinkedFrom m q v rest)
    (hnext : ∀ w ∈ v :: rest, m'.next w.node = m.next w.node)
    (hhome : ∀ w ∈ rest, m'.home w.node = m.home w.node) : LinkedFrom m' q v rest := by
  induction rest generalizing v with
  | nil => exact (hnext v List.mem_cons_self).trans h
  | cons w rest ih =>
      refine ⟨?_, ih h.2 (fun x hx => hnext x (List.mem_cons_of_mem v hx))
        fun x hx => hhome x (List.mem_cons_of_mem w hx)⟩
      rw [Linked, hnext v List.mem_cons_self, hhome w List.mem_cons_self]
      exact h.1

/-- Nothing is behind the tail. -/
theorem LinkedFrom.last (h : LinkedFrom m q v rest) : m.next (rest.getLastD v).node = none := by
  induction rest generalizing v with
  | nil => exact h
  | cons w rest ih =>
      rw [List.getLastD_cons]
      exact ih h.2

/-- Each of the words is of the queue. -/
theorem LinkedFrom.home (h : LinkedFrom m q v rest) (hw : w ∈ rest) :
    m.home w.node = .container q ∨ ∃ t, m.home w.node = .entering t q := by
  induction rest generalizing v with
  | nil => exact absurd hw List.not_mem_nil
  | cons x rest ih =>
      rcases List.mem_cons.mp hw with rfl | hrest
      · exact h.1.imp And.left And.left
      · exact ih h.2 hrest

/-- A link leads to the next word. -/
theorem LinkedFrom.next (h : LinkedFrom m q v rest) (hw : w ∈ v :: rest)
    (hnext : m.next w.node = some x) : ∃ pre post, v :: rest = pre ++ w :: x :: post := by
  induction rest generalizing v with
  | nil =>
      obtain rfl := List.mem_singleton.mp hw
      rw [h] at hnext
      exact absurd hnext (by simp)
  | cons y rest ih =>
      rcases List.mem_cons.mp hw with rfl | hrest
      · rcases h.1 with ⟨-, hlink⟩ | ⟨-, hnone⟩
        · obtain rfl := Option.some.inj (hlink.symm.trans hnext)
          exact ⟨[], rest, rfl⟩
        · rw [hnone] at hnext
          exact absurd hnext (by simp)
      · obtain ⟨pre, post, hwords⟩ := ih h.2 hrest
        exact ⟨v :: pre, post, by rw [hwords, List.cons_append]⟩

theorem LinkedFrom.adjacent {pre post : List Tagged} {u : Tagged} (h : LinkedFrom m q u rest)
    (hwords : u :: rest = pre ++ v :: w :: post) : Linked m q v w := by
  induction pre generalizing u rest with
  | nil =>
      obtain ⟨rfl, rfl⟩ := List.cons.inj hwords
      exact h.1
  | cons x pre ih =>
      obtain ⟨rfl, rfl⟩ := List.cons.inj hwords
      cases pre with
      | nil => exact ih h.2 rfl
      | cons y pre => exact ih h.2 rfl

/-- **The tail moves to a node that is not linked yet.** -/
theorem LinkedFrom.snoc {t : Nat} (h : LinkedFrom m q v rest)
    (hnext : ∀ x ∈ v :: rest, m'.next x.node = m.next x.node)
    (hhome : ∀ x ∈ rest, m'.home x.node = m.home x.node)
    (hentering : m'.home w.node = .entering t q) (hnone : m'.next w.node = none) :
    LinkedFrom m' q v (rest ++ [w]) := by
  induction rest generalizing v with
  | nil =>
      have hlast : m'.next v.node = none := (hnext v List.mem_cons_self).trans h
      exact ⟨Or.inr ⟨⟨t, hentering⟩, hlast⟩, hnone⟩
  | cons x rest ih =>
      refine ⟨?_, ih h.2 (fun y hy => hnext y (List.mem_cons_of_mem v hy))
        fun y hy => hhome y (List.mem_cons_of_mem x hy)⟩
      rw [Linked, hnext v List.mem_cons_self, hhome x List.mem_cons_self]
      exact h.1

/-- **The missing link is set.** -/
theorem LinkedFrom.link {pre post : List Tagged} {u : Tagged} (h : LinkedFrom m q u rest)
    (hwords : u :: rest = pre ++ v :: w :: post) (hnodup : ((u :: rest).map Tagged.node).Nodup) :
    LinkedFrom { m with
      next := Function.update m.next v.node (some w)
      home := Function.update m.home w.node (.container q) } q u rest := by
  induction rest generalizing u pre with
  | nil =>
      have hlength := congrArg List.length hwords
      simp only [List.length_nil, List.length_append, List.length_cons] at hlength
      omega
  | cons x rest ih =>
      obtain ⟨hnew, hrest⟩ := List.nodup_cons.mp hnodup
      cases pre with
      | nil =>
          obtain ⟨rfl, htail⟩ := List.cons.inj hwords
          obtain ⟨rfl, -⟩ := List.cons.inj htail
          refine ⟨Or.inl ⟨Function.update_self .., Function.update_self ..⟩, ?_⟩
          refine h.2.congr (fun y hy => ?_) fun y hy => ?_
          · refine Function.update_of_ne ?_ _ _
            intro heq
            exact hnew (heq ▸ List.mem_map_of_mem hy)
          · refine Function.update_of_ne ?_ _ _
            intro heq
            exact (List.nodup_cons.mp hrest).1 (heq ▸ List.mem_map_of_mem hy)
      | cons y pre =>
          obtain ⟨rfl, htail⟩ := List.cons.inj hwords
          have hvmem : v ∈ x :: rest := by
            rw [htail]
            simp
          have hv : u.node ≠ v.node := fun heq => hnew (heq ▸ List.mem_map_of_mem hvmem)
          refine ⟨?_, ih h.2 htail hrest⟩
          have hx : x.node ≠ w.node := by
            intro heq
            cases pre with
            | nil =>
                obtain ⟨rfl, hrest'⟩ := List.cons.inj htail
                rw [hrest'] at hrest
                simp [heq] at hrest
            | cons z pre =>
                obtain ⟨rfl, hrest'⟩ := List.cons.inj htail
                rw [hrest'] at hrest
                simp [heq] at hrest
          simp only [Linked, Function.update_of_ne hv, Function.update_of_ne hx]
          exact h.1

end

/-! ## The queue as a line -/

/-- The values in the queue, the first one first. -/
def values (m : Memory n α) (l : Line) : List α := l.rest.map fun w => m.data w.node

/-- The words of the queue are the line. -/
structure Lined (m : Memory n α) (q : Fin n) (l : Line) : Prop where
  head : (m.queues q).head = some l.dummy
  tail : (m.queues q).tail = some l.last
  linked : LinkedFrom m q l.dummy l.rest
  dummy : m.home l.dummy.node = .container q
  nodup : (l.words.map Tagged.node).Nodup
  history : Fifo (m.queues q).history (values m l)

section

variable {m m' : Memory n α} {q : Fin n} {l : Line} {v w x : Tagged} {t : Nat} {a : α}

theorem Lined.home (h : Lined m q l) (hw : w ∈ l.words) :
    m.home w.node = .container q ∨ ∃ u, m.home w.node = .entering u q := by
  rcases List.mem_cons.mp hw with rfl | hrest
  · exact Or.inl h.dummy
  · exact h.linked.home hrest

/-- The node of a word of the queue is not a thread's, nor the pool's. -/
theorem Lined.home_ne (h : Lined m q l) (hw : w ∈ l.words) :
    m.home w.node ≠ .thread t ∧ m.home w.node ≠ .free := by
  rcases h.home hw with hin | ⟨u, hin⟩ <;> simp [hin]

theorem Lined.ne_of_thread (h : Lined m q l) {node : Nat} (hmine : m.home node = .thread t)
    (hw : w ∈ l.words) : w.node ≠ node := by
  rintro rfl
  exact (h.home_ne hw).1 hmine

theorem Lined.next (h : Lined m q l) (hw : w ∈ l.words) (hnext : m.next w.node = some x) :
    l.Adjacent w x := h.linked.next hw hnext

theorem Lined.last_next (h : Lined m q l) : m.next l.last.node = none := h.linked.last

/-- Nodes are told apart by their addresses. -/
theorem Lined.eq_of_node (h : Lined m q l) (hv : v ∈ l.words) (hw : w ∈ l.words)
    (heq : v.node = w.node) : v = w := List.inj_on_of_nodup_map h.nodup hv hw heq

/-- A step that leaves the queue and its nodes alone. -/
theorem Lined.congr (h : Lined m q l) (hhead : (m'.queues q).head = (m.queues q).head)
    (htail : (m'.queues q).tail = (m.queues q).tail)
    (hhistory : (m'.queues q).history = (m.queues q).history)
    (hnodes : ∀ w ∈ l.words, m'.next w.node = m.next w.node ∧ m'.data w.node = m.data w.node ∧
      m'.home w.node = m.home w.node) : Lined m' q l where
  head := hhead.trans h.head
  tail := htail.trans h.tail
  linked := h.linked.congr (fun w hw => (hnodes w hw).1)
    fun w hw => (hnodes w (List.mem_cons_of_mem _ hw)).2.2
  dummy := ((hnodes _ List.mem_cons_self).2.2).trans h.dummy
  nodup := h.nodup
  history := by
    have hvalues : values m' l = values m l :=
      List.map_congr_left fun w hw => (hnodes w (List.mem_cons_of_mem _ hw)).2.1
    rw [hhistory, hvalues]
    exact h.history

/-- A step that is about another queue. -/
theorem Lined.other {other : Fin n} {queue : LFQueue α} (h : Lined m other l) (hne : other ≠ q)
    (hqueues : m'.queues = Function.update m.queues q queue)
    (hnodes : ∀ w ∈ l.words, m'.next w.node = m.next w.node ∧ m'.data w.node = m.data w.node ∧
      m'.home w.node = m.home w.node) : Lined m' other l := by
  have hqueue : m'.queues other = m.queues other := by
    rw [hqueues]
    exact Function.update_of_ne hne _ _
  exact h.congr (by rw [hqueue]) (by rw [hqueue]) (by rw [hqueue]) hnodes

/-- The link that is missing is that of the thread that has moved the tail. -/
theorem Lined.adjacent (h : Lined m q l) (hadjacent : l.Adjacent v w) : Linked m q v w := by
  obtain ⟨pre, post, hwords⟩ := hadjacent
  exact h.linked.adjacent hwords

/-- Nothing is behind the node yet that the thread is about to link. -/
theorem Lined.next_none (h : Lined m q l) (hadjacent : l.Adjacent v w)
    (hentering : m.home w.node = .entering t q) : m.next v.node = none := by
  rcases h.adjacent hadjacent with ⟨hhome, -⟩ | ⟨-, hnone⟩
  · rw [hentering] at hhome
    exact absurd hhome (by simp)
  · exact hnone

/-- **A node is put behind the tail.** -/
theorem Lined.snoc (h : Lined m q l) (hhome : m.home w.node = .thread t)
    (hdata : m.data w.node = a) (hnext : m.next w.node = none) {tags : UInt16 → TagUse} :
    Lined { m.setQueue q { m.queues q with
          tail := some w
          tags := tags
          history := (m.queues q).history ++ [.push a] } with
        home := Function.update m.home w.node (.entering t q) } q (l.snoc w) where
  head := by
    simp only [Memory.setQueue, Function.update_self]
    exact h.head
  tail := by
    simp only [Memory.setQueue, Function.update_self, Line.snoc, Line.last]
    rw [List.getLastD_concat]
  linked := by
    refine h.linked.snoc (t := t) (fun _ _ => rfl) (fun x hx => ?_) (Function.update_self ..) hnext
    exact Function.update_of_ne (h.ne_of_thread hhome (List.mem_cons_of_mem _ hx)) _ _
  dummy := (Function.update_of_ne (h.ne_of_thread hhome List.mem_cons_self) _ _).trans h.dummy
  nodup := by
    have hwords : (l.snoc w).words = l.words ++ [w] := rfl
    rw [hwords, List.map_append, List.nodup_append]
    refine ⟨h.nodup, List.nodup_singleton _, fun node hnode other hother => ?_⟩
    obtain ⟨x, hx, rfl⟩ := List.mem_map.mp hnode
    rw [List.mem_singleton.mp hother]
    exact h.ne_of_thread hhome hx
  history := by
    simp only [Memory.setQueue, Function.update_self, values, Line.snoc, List.map_append,
      List.map_singleton, hdata]
    exact h.history.push a

/-- **The missing link is set.** -/
theorem Lined.link (h : Lined m q l) (hadjacent : l.Adjacent v w) :
    Lined { m with
      next := Function.update m.next v.node (some w)
      home := Function.update m.home w.node (.container q) } q l where
  head := h.head
  tail := h.tail
  linked := by
    obtain ⟨pre, post, hwords⟩ := hadjacent
    exact h.linked.link hwords h.nodup
  dummy := by
    by_cases heq : l.dummy.node = w.node
    · simp only [heq, Function.update_self]
    · exact (Function.update_of_ne heq _ _).trans h.dummy
  nodup := h.nodup
  history := h.history

/-- **The head moves on.** -/
theorem Lined.pop (h : Lined m q l) (hnext : m.next l.dummy.node = some x) :
    ∃ rest, l.rest = x :: rest ∧
      Lined { m.setQueue q { m.queues q with
            head := some x
            history := (m.queues q).history ++ [.pop (m.data x.node)] } with
          home := Function.update m.home l.dummy.node (.thread t) } q ⟨x, rest⟩ := by
  obtain ⟨dummy, rest⟩ := l
  obtain ⟨hhead, htail, hlinked, hdummy, hnodup, hhistory⟩ := h
  cases rest with
  | nil =>
      simp only at hnext
      rw [LinkedFrom] at hlinked
      rw [hlinked] at hnext
      exact absurd hnext (by simp)
  | cons w rest =>
      obtain ⟨hlink, hrest⟩ := hlinked
      obtain ⟨hnew, hnodup'⟩ := List.nodup_cons.mp hnodup
      rcases hlink with ⟨hhome, hsome⟩ | ⟨-, hnone⟩
      · obtain rfl := Option.some.inj (hsome.symm.trans hnext)
        have hne : ∀ y ∈ w :: rest, y.node ≠ dummy.node :=
          fun y hy heq => hnew (heq ▸ List.mem_map_of_mem hy)
        refine ⟨rest, rfl, ?_, ?_, ?_, ?_, hnodup', ?_⟩
        · simp only [Memory.setQueue, Function.update_self]
        · simp only [Memory.setQueue, Function.update_self]
          rw [htail, Line.last, Line.last, List.getLastD_cons]
        · exact hrest.congr (fun _ _ => rfl)
            fun y hy => Function.update_of_ne (hne y (List.mem_cons_of_mem w hy)) _ _
        · exact (Function.update_of_ne (hne w List.mem_cons_self) _ _).trans hhome
        · simp only [Memory.setQueue, Function.update_self]
          exact Fifo.pop hhistory
      · rw [hnone] at hnext
        exact absurd hnext (by simp)

end

end LFQueue

end SessionServer.Common
