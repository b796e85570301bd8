/-
  Common/LockFreeQueueStep.lean --- a step of a thread on the lock-free queues.

  A word that a call has read is still in the queue or does not come back as long as the
  call has it; so what `Dequeue` has read of its node is still so when its compare-exchange
  succeeds.  The node that was the tail stays in the queue with nothing behind it until the
  thread that has moved the tail links the next one there.
-/
import SessionServer.Common.LockFreeQueueLine

set_option autoImplicit false

namespace SessionServer.Common

open SessionServer.Foundation

open LockFree

namespace LFQueue

variable {n : Nat} {α : Type}

/-! ## What the calls know -/

/-- The node of an `Enqueue` that is not in the queue yet. -/
structure Holds (m : Memory n α) (t : Nat) (newnode : Nat) (a : α) : Prop where
  home : m.home newnode = .thread t
  data : m.data newnode = a
  next : m.next newnode = none

/-- What a call of the thread knows.  What `Dequeue` has read is right as long as the word is
in the queue. -/
def Knows (m : Memory n α) (lines : Fin n → Line) (t : Nat) : Pc n α → Prop
  | .enqData _ newnode _ => m.home newnode = .thread t
  | .enqNext _ newnode a => m.home newnode = .thread t ∧ m.data newnode = a
  | .enqRead _ newnode _ a | .enqTail _ newnode _ _ a => Holds m t newnode a
  | .enqLink q w realadr _ =>
      m.home w.node = .entering t q ∧ ∃ v, realadr = some v.node ∧ (lines q).Adjacent v w
  | .deqTailNext _ oldtail => ∃ w, oldtail = some w
  | .deqTailAgain q w | .deqTailCas q w _ => (m.queues q).tail ≠ some w
  | .deqNext _ oldhead => ∃ w, oldhead = some w
  | .deqData q w x => w ∈ (lines q).words → m.next w.node = some x
  | .deqCas q w x a => w ∈ (lines q).words → m.next w.node = some x ∧ m.data x.node = a
  | .deqFree _ realadr _ => m.home realadr = .thread t
  | _ => True

/-- **What a step of thread `t` leaves to the others.** -/
structure Frame (t : Nat) (threads : List (Pc n α)) (m m' : Memory n α)
    (lines lines' : Fin n → Line) : Prop where
  theirs : ∀ (u node : Nat), u ≠ t → m.home node = .thread u →
    m'.home node = .thread u ∧ m'.data node = m.data node ∧ m'.next node = m.next node
  entering : ∀ (u : Nat) (q : Fin n) (node : Nat), u ≠ t →
    (m'.home node = .entering u q ↔ m.home node = .entering u q)
  adjacent : ∀ (u : Nat) (q : Fin n) (v w : Tagged), m.home w.node = .entering u q →
    (lines q).Adjacent v w → (lines' q).Adjacent v w
  tails : ∀ q, ∀ pc ∈ threads, ∀ w ∈ held q pc, (m.queues q).tail ≠ some w →
    (m'.queues q).tail ≠ some w
  stays : ∀ q, ∀ pc ∈ threads, ∀ w ∈ held q pc, w ∈ (lines' q).words → w ∈ (lines q).words
  data : ∀ q, ∀ w ∈ (lines q).words, m'.data w.node = m.data w.node
  next : ∀ q, ∀ w ∈ (lines q).words, ∀ x, m.next w.node = some x → m'.next w.node = some x

section

variable {m m' : Memory n α} {lines lines' : Fin n → Line} {t u : Nat} {pc pc' : Pc n α}
  {threads : List (Pc n α)}

/-- **What the others know stays so.** -/
theorem Knows.frame (h : Knows m lines u pc) (hlined : ∀ q, Lined m q (lines q))
    (hframe : Frame t threads m m' lines lines') (hpc : pc ∈ threads) (hne : u ≠ t) :
    Knows m' lines' u pc := by
  have hholds : ∀ {newnode a}, Holds m u newnode a → Holds m' u newnode a := by
    intro newnode a hholds
    obtain ⟨hhome, hdata, hnext⟩ := hframe.theirs u newnode hne hholds.home
    exact ⟨hhome, hdata.trans hholds.data, hnext.trans hholds.next⟩
  cases pc with
  | enqData q newnode a => exact (hframe.theirs u newnode hne h).1
  | enqNext q newnode a =>
      obtain ⟨hhome, hdata, -⟩ := hframe.theirs u newnode hne h.1
      exact ⟨hhome, hdata.trans h.2⟩
  | enqRead q newnode tag a => exact hholds h
  | enqTail q newnode tag oldtail a => exact hholds h
  | enqLink q w realadr a =>
      obtain ⟨hhome, v, hrealadr, hadjacent⟩ := h
      exact ⟨(hframe.entering u q w.node hne).mpr hhome, v, hrealadr,
        hframe.adjacent u q v w hhome hadjacent⟩
  | deqTailNext q oldtail => exact h
  | deqTailAgain q w => exact hframe.tails q _ hpc w (by simp [held]) h
  | deqTailCas q w next => exact hframe.tails q _ hpc w (by simp [held]) h
  | deqNext q oldhead => exact h
  | deqData q w x =>
      intro hw
      have hold := hframe.stays q _ hpc w (by simp [held]) hw
      exact hframe.next q w hold x (h hold)
  | deqCas q w x a =>
      intro hw
      have hold := hframe.stays q _ hpc w (by simp [held]) hw
      obtain ⟨hnext, hdata⟩ := h hold
      -- What is behind a word of the queue is a word of the queue.
      have hx : x ∈ (lines q).words := ((hlined q).next hold hnext).mem.2
      exact ⟨hframe.next q w hold x hnext, (hframe.data q x hx).trans hdata⟩
  | deqFree q realadr a => exact (hframe.theirs u realadr hne h).1
  | idle => trivial
  | enqCheck q a => trivial
  | enqAlloc q a => trivial
  | enqSize q w => trivial
  | deqSize q => trivial
  | deqRestore q => trivial
  | deqTail q => trivial
  | deqHead q => trivial

/-- Two queues have no node in common. -/
theorem Lined.ne_of_ne {q q' : Fin n} {l l' : Line} (h : Lined m q l) (h' : Lined m q' l')
    (hne : q ≠ q') {v w : Tagged} (hv : v ∈ l.words) (hw : w ∈ l'.words) : v.node ≠ w.node := by
  intro heq
  have hval : (q : Nat) ≠ q' := fun hval => hne (Fin.ext hval)
  rcases h.home hv with hhome | ⟨u, hhome⟩ <;> rcases h'.home hw with hhome' | ⟨u', hhome'⟩ <;>
    · rw [heq, hhome'] at hhome
      simp [Ne.symm hval] at hhome

/-! ## What a step does -/

/-- The word of an `Enqueue` that is not counted yet; it is in the queue or has been dequeued. -/
def uncounted (q : Fin n) : Pc n α → List Tagged
  | .enqLink q' w _ _ | .enqSize q' w => if q' = q then [w] else []
  | _ => []

/-- The call is about to give back what it has taken of the counter in vain. -/
def failing (q : Fin n) : Pc n α → Nat
  | .deqRestore q' => if q' = q then 1 else 0
  | _ => 0

/-- The call has a value of the queue reserved. -/
def claim (q : Fin n) : Pc n α → Nat
  | .deqTail q' | .deqTailNext q' _ | .deqTailAgain q' _ | .deqTailCas q' _ _ | .deqHead q'
  | .deqNext q' _ | .deqData q' _ _ | .deqCas q' _ _ _ => if q' = q then 1 else 0
  | _ => 0

/-- What the counter of the queue is short of the number of its values because of the call. -/
def debt (q : Fin n) (pc : Pc n α) : Nat :=
  (uncounted q pc).length + failing q pc + claim q pc

/-- The link that the call has still to set. -/
def entered : Pc n α → Option (Fin n × Nat)
  | .enqLink q w _ _ => some (q, w.node)
  | _ => none

theorem held_of_uncounted {q : Fin n} {w : Tagged} (h : w ∈ uncounted q pc) : w ∈ held q pc := by
  cases pc with
  | enqLink q' w _ _ => exact h
  | enqSize q' w => exact h
  | _ => exact absurd h List.not_mem_nil

theorem nodup_uncounted (q : Fin n) (pc : Pc n α) : (uncounted q pc).Nodup := by
  cases pc with
  | enqLink q' w _ _ =>
      simp only [uncounted]
      split
      · exact List.nodup_singleton w
      · exact List.nodup_nil
  | enqSize q' w =>
      simp only [uncounted]
      split
      · exact List.nodup_singleton w
      · exact List.nodup_nil
  | _ => exact List.nodup_nil

/-- **All that a step of thread `t` does.** -/
structure Does (t : Nat) (threads : List (Pc n α)) (m : Memory n α) (pc : Pc n α)
    (m' : Memory n α) (pc' : Pc n α) (lines lines' : Fin n → Line) : Prop where
  lined : ∀ q, Lined m' q (lines' q)
  frame : Frame t threads m m' lines lines'
  knows : Knows m' lines' t pc'
  enters : ∀ (q : Fin n) (node : Nat), m'.home node = .entering t q → entered pc' = some (q, node)
  words : ∀ q, ∀ w ∈ (lines' q).words, w ∈ (lines q).words ∨ w ∈ uncounted q pc'
  held : ∀ q, ∀ w ∈ held q pc', w ∈ (lines q).words ∨ w ∈ LFQueue.held q pc ∨ w ∈ uncounted q pc'
  uncounted : ∀ q, ∀ w ∈ uncounted q pc', w ∈ LFQueue.uncounted q pc ∨
    (m'.queues q).tags w.tag = .used ∧ ∀ other ∈ threads, w ∉ LFQueue.held q other
  used : ∀ q tag, (m.queues q).tags tag = .used → (m'.queues q).tags tag = .used
  size : ∀ q, (m'.queues q).size + debt q pc' + (lines q).rest.length =
    (m.queues q).size + debt q pc + (lines' q).rest.length

/-- A step that only reads, moves a counter, or takes, writes or gives back a node. -/
theorem does_own (hlined : ∀ q, Lined m q (lines q))
    (hqueues : ∀ q, m'.queues q = { m.queues q with size := (m'.queues q).size })
    (hhome : ∀ node, HomeKept t (m.home node) (m'.home node))
    (hnodes : ∀ node, m.home node ≠ .thread t →
      m'.data node = m.data node ∧ m'.next node = m.next node)
    (henters : ∀ (q : Fin n) (node : Nat), m.home node = .entering t q →
      entered pc = some (q, node))
    (hentered : entered pc' = entered pc) (hknows : Knows m' lines t pc')
    (hheld : ∀ q, ∀ w ∈ held q pc', w ∈ (lines q).words ∨ w ∈ held q pc)
    (huncounted : ∀ q, uncounted q pc' = [])
    (hsize : ∀ q, (m'.queues q).size + debt q pc' = (m.queues q).size + debt q pc) :
    Does t threads m pc m' pc' lines lines where
  lined := by
    intro q
    refine (hlined q).congr ?_ ?_ ?_ fun w hw => ?_
    · rw [hqueues q]
    · rw [hqueues q]
    · rw [hqueues q]
    · obtain ⟨hdata, hnext⟩ := hnodes w.node ((hlined q).home_ne hw).1
      exact ⟨hnext, hdata, (hhome w.node).eq ((hlined q).home_ne hw).1
        ((hlined q).home_ne (t := t) hw).2⟩
  frame :=
    { theirs := by
        intro u node hne hnode
        have hother : m.home node ≠ .thread t := by
          rw [hnode]
          exact fun heq => hne (Home.thread.inj heq)
        have hfree : m.home node ≠ .free := by simp [hnode]
        obtain ⟨hdata, hnext⟩ := hnodes node hother
        exact ⟨((hhome node).eq hother hfree).trans hnode, hdata, hnext⟩
      entering := fun _ _ node _ => (hhome node).entering
      adjacent := fun _ _ _ _ _ hadjacent => hadjacent
      tails := by
        intro q _ _ w _ htail
        rw [hqueues q]
        exact htail
      stays := fun _ _ _ _ _ hw => hw
      data := fun q w hw => (hnodes w.node ((hlined q).home_ne hw).1).1
      next := by
        intro q w hw x hx
        exact (hnodes w.node ((hlined q).home_ne hw).1).2.trans hx }
  knows := hknows
  enters := by
    intro q node hnode
    rw [hentered]
    exact henters q node ((hhome node).entering.mp hnode)
  words := fun _ _ hw => Or.inl hw
  held := fun q w hw => (hheld q w hw).imp_right Or.inl
  uncounted := by
    intro q w hw
    rw [huncounted q] at hw
    exact absurd hw List.not_mem_nil
  used := by
    intro q tag hused
    rw [hqueues q]
    exact hused
  size := by
    intro q
    have hstep := hsize q
    omega

/-- A step that only reads. -/
theorem does_read (hlined : ∀ q, Lined m q (lines q))
    (henters : ∀ (q : Fin n) (node : Nat), m.home node = .entering t q →
      entered pc = some (q, node))
    (hentered : entered pc' = entered pc) (hknows : Knows m lines t pc')
    (hheld : ∀ q, ∀ w ∈ held q pc', w ∈ (lines q).words ∨ w ∈ held q pc)
    (huncounted : ∀ q, uncounted q pc' = []) (hdebt : ∀ q, debt q pc' = debt q pc) :
    Does t threads m pc m pc' lines lines :=
  does_own hlined (fun _ => rfl) (fun _ => Or.inl rfl) (fun _ _ => ⟨rfl, rfl⟩) henters hentered
    hknows hheld huncounted fun q => by rw [hdebt q]

/-- A step that moves the counter of queue `q`. -/
theorem does_count {q : Fin n} {size : Int} (hlined : ∀ q, Lined m q (lines q))
    (henters : ∀ (q : Fin n) (node : Nat), m.home node = .entering t q →
      entered pc = some (q, node))
    (hentered : entered pc' = entered pc)
    (hknows : Knows (m.setQueue q { m.queues q with size := size }) lines t pc')
    (hheld : ∀ q, held q pc' = []) (huncounted : ∀ q, uncounted q pc' = [])
    (hsize : size + debt q pc' = (m.queues q).size + debt q pc)
    (hdebt : ∀ other, other ≠ q → debt other pc' = debt other pc) :
    Does t threads m pc (m.setQueue q { m.queues q with size := size }) pc' lines lines := by
  refine does_own hlined (fun other => ?_) (fun _ => Or.inl rfl) (fun _ _ => ⟨rfl, rfl⟩) henters
    hentered hknows (fun other w hw => ?_) huncounted fun other => ?_
  · by_cases hother : other = q
    · simp only [hother, Memory.setQueue, Function.update_self]
    · simp only [Memory.setQueue, Function.update_of_ne hother]
  · rw [hheld other] at hw
    exact absurd hw List.not_mem_nil
  · by_cases hother : other = q
    · simp only [hother, Memory.setQueue, Function.update_self]
      exact hsize
    · simp only [Memory.setQueue, Function.update_of_ne hother, hdebt other hother]

/-- **The tail moves** to a word that no call has. -/
theorem does_tail {q : Fin n} {newnode : Nat} {tag : UInt16} {a : α}
    (hlined : ∀ q, Lined m q (lines q)) (hholds : Holds m t newnode a)
    (hunheld : ∀ pc ∈ threads, ⟨newnode, tag⟩ ∉ held q pc)
    (henters : ∀ (q : Fin n) (node : Nat), m.home node ≠ .entering t q) :
    Does t threads m (.enqTail q newnode tag (m.queues q).tail a)
      { m.setQueue q { m.queues q with
            tail := some ⟨newnode, tag⟩
            tags := Function.update (m.queues q).tags tag .used
            history := (m.queues q).history ++ [.push a] } with
          home := Function.update m.home newnode (.entering t q) }
      (.enqLink q ⟨newnode, tag⟩ (m.queues q).tail.node a) lines
      (Function.update lines q ((lines q).snoc ⟨newnode, tag⟩)) where
  lined := by
    intro other
    by_cases hother : other = q
    · subst hother
      rw [Function.update_self]
      exact (hlined other).snoc hholds.home hholds.data hholds.next
    · rw [Function.update_of_ne hother]
      refine (hlined other).other hother rfl fun w hw => ⟨rfl, rfl, ?_⟩
      exact Function.update_of_ne ((hlined other).ne_of_thread hholds.home hw) _ _
  frame :=
    { theirs := by
        intro u node hne hnode
        have hother : node ≠ newnode := by
          rintro rfl
          rw [hholds.home] at hnode
          exact hne (Home.thread.inj hnode).symm
        exact ⟨(Function.update_of_ne hother ..).trans hnode, rfl, rfl⟩
      entering := by
        intro u other node hne
        by_cases hnode : node = newnode
        · simp [hnode, hholds.home, Ne.symm hne]
        · simp only [Function.update_of_ne hnode]
      adjacent := by
        intro u other v w _ hadjacent
        by_cases hother : other = q
        · subst hother
          rw [Function.update_self]
          exact hadjacent.snoc
        · rw [Function.update_of_ne hother]
          exact hadjacent
      tails := by
        intro other pc hpc w hheld htail
        by_cases hother : other = q
        · subst hother
          simp only [Memory.setQueue, Function.update_self]
          intro heq
          rw [← Option.some.inj heq] at hheld
          exact hunheld pc hpc hheld
        · simp only [Memory.setQueue, Function.update_of_ne hother]
          exact htail
      stays := by
        intro other pc hpc w hheld hw
        by_cases hother : other = q
        · subst hother
          rw [Function.update_self] at hw
          have hsnoc : w ∈ (lines other).words ++ [⟨newnode, tag⟩] := hw
          rcases List.mem_append.mp hsnoc with hold | hnew
          · exact hold
          · rw [List.mem_singleton.mp hnew] at hheld
            exact absurd hheld (hunheld pc hpc)
        · rw [Function.update_of_ne hother] at hw
          exact hw
      data := fun _ _ _ => rfl
      next := fun _ _ _ _ hx => hx }
  knows := by
    refine ⟨Function.update_self .., (lines q).last, ?_, ?_⟩
    · rw [(hlined q).tail]
      rfl
    · rw [Function.update_self]
      exact (lines q).adjacent_snoc _
  enters := by
    intro other node hnode
    by_cases hnew : node = newnode
    · subst hnew
      simp only [Function.update_self] at hnode
      have hother : q = other := Fin.ext (Home.entering.inj hnode).2
      rw [hother]
      rfl
    · simp only [Function.update_of_ne hnew] at hnode
      exact absurd hnode (henters other node)
  words := by
    intro other w hw
    by_cases hother : other = q
    · subst hother
      rw [Function.update_self] at hw
      have hsnoc : w ∈ (lines other).words ++ [⟨newnode, tag⟩] := hw
      refine (List.mem_append.mp hsnoc).imp_right fun hnew => ?_
      simp only [uncounted, if_true]
      exact hnew
    · rw [Function.update_of_ne hother] at hw
      exact Or.inl hw
  held := fun _ _ hw => Or.inr (Or.inr hw)
  uncounted := by
    intro other w hw
    simp only [uncounted] at hw
    split at hw
    · rename_i hother
      rw [List.mem_singleton.mp hw, ← hother]
      refine Or.inr ⟨?_, hunheld⟩
      simp only [Memory.setQueue, Function.update_self]
    · exact absurd hw List.not_mem_nil
  used := by
    intro other x hused
    by_cases hother : other = q
    · subst hother
      simp only [Memory.setQueue, Function.update_self]
      by_cases hx : x = tag
      · rw [hx, Function.update_self]
      · rw [Function.update_of_ne hx]
        exact hused
    · simp only [Memory.setQueue, Function.update_of_ne hother]
      exact hused
  size := by
    intro other
    by_cases hother : other = q
    · subst hother
      simp only [Memory.setQueue, Function.update_self, debt, uncounted, failing, claim, if_true,
        Line.snoc, List.length_append, List.length_singleton, List.length_nil]
      omega
    · simp only [Memory.setQueue, Function.update_of_ne hother, debt, uncounted, failing, claim,
        Ne.symm hother, if_false]

/-- **The link is set.** -/
theorem does_link {q : Fin n} {v w : Tagged} {a : α} (hlined : ∀ q, Lined m q (lines q))
    (hentering : m.home w.node = .entering t q) (hadjacent : (lines q).Adjacent v w)
    (henters : ∀ (q' : Fin n) (node : Nat), m.home node = .entering t q' →
      (q, w.node) = (q', node)) :
    Does t threads m (.enqLink q w (some v.node) a)
      { m with
        next := Function.update m.next v.node (some w)
        home := Function.update m.home w.node (.container q) }
      (.enqSize q w) lines lines := by
  have hnone : m.next v.node = none := (hlined q).next_none hadjacent hentering
  obtain ⟨hv, hw⟩ := hadjacent.mem
  exact
    { lined := by
        intro other
        by_cases hother : other = q
        · rw [hother]
          exact (hlined q).link hadjacent
        · refine (hlined other).congr rfl rfl rfl fun x hx => ⟨?_, rfl, ?_⟩
          · exact Function.update_of_ne ((hlined other).ne_of_ne (hlined q) hother hx hv) _ _
          · exact Function.update_of_ne ((hlined other).ne_of_ne (hlined q) hother hx hw) _ _
      frame :=
        { theirs := by
            intro u node _ hnode
            have hnev : node ≠ v.node := fun heq => (hlined q).ne_of_thread hnode hv heq.symm
            have hnew : node ≠ w.node := fun heq => (hlined q).ne_of_thread hnode hw heq.symm
            exact ⟨(Function.update_of_ne hnew ..).trans hnode, rfl, Function.update_of_ne hnev ..⟩
          entering := by
            intro u other node hne
            by_cases hnode : node = w.node
            · simp [hnode, hentering, Ne.symm hne]
            · simp only [Function.update_of_ne hnode]
          adjacent := fun _ _ _ _ _ hadjacent => hadjacent
          tails := fun _ _ _ _ _ htail => htail
          stays := fun _ _ _ _ _ hx => hx
          data := fun _ _ _ => rfl
          next := by
            intro other x _ y hy
            have hne : x.node ≠ v.node := by
              intro heq
              rw [heq, hnone] at hy
              exact absurd hy (by simp)
            exact (Function.update_of_ne hne ..).trans hy }
      knows := trivial
      enters := by
        intro other node hnode
        have hne : node ≠ w.node := by
          rintro rfl
          simp at hnode
        simp only [Function.update_of_ne hne] at hnode
        exact absurd (congrArg Prod.snd (henters other node hnode)).symm hne
      words := fun _ _ hx => Or.inl hx
      held := fun _ _ hx => Or.inr (Or.inl hx)
      uncounted := fun _ _ hx => Or.inl hx
      used := fun _ _ hused => hused
      size := fun _ => rfl }

/-- **The head moves on.** -/
theorem does_pop {q : Fin n} {w x : Tagged} (hlined : ∀ q, Lined m q (lines q))
    (hhead : (m.queues q).head = some w) (hnext : m.next w.node = some x)
    (henters : ∀ (q : Fin n) (node : Nat), m.home node ≠ .entering t q) :
    ∃ l, Does t threads m (.deqCas q w x (m.data x.node))
      { m.setQueue q { m.queues q with
            head := some x
            history := (m.queues q).history ++ [.pop (m.data x.node)] } with
          home := Function.update m.home w.node (.thread t) }
      (.deqFree q w.node (m.data x.node)) lines (Function.update lines q l) := by
  have hdummy : (lines q).dummy = w := Option.some.inj ((hlined q).head.symm.trans hhead)
  subst hdummy
  obtain ⟨rest, hrest, hpop⟩ := (hlined q).pop (t := t) hnext
  have hmem : (lines q).dummy ∈ (lines q).words := List.mem_cons_self
  have hsub : ∀ other, ∀ y ∈ (Function.update lines q ⟨x, rest⟩ other).words,
      y ∈ (lines other).words := by
    intro other y hy
    by_cases hother : other = q
    · subst hother
      rw [Function.update_self] at hy
      rw [Line.words, hrest]
      exact List.mem_cons_of_mem _ hy
    · rw [Function.update_of_ne hother] at hy
      exact hy
  refine ⟨⟨x, rest⟩, ?_⟩
  exact
    { lined := by
        intro other
        by_cases hother : other = q
        · rw [hother, Function.update_self]
          exact hpop
        · rw [Function.update_of_ne hother]
          refine (hlined other).other hother rfl fun y hy => ⟨rfl, rfl, ?_⟩
          exact Function.update_of_ne ((hlined other).ne_of_ne (hlined q) hother hy hmem) _ _
      frame :=
        { theirs := by
            intro u node _ hnode
            have hne : node ≠ (lines q).dummy.node := fun heq =>
              (hlined q).ne_of_thread hnode hmem heq.symm
            exact ⟨(Function.update_of_ne hne ..).trans hnode, rfl, rfl⟩
          entering := by
            intro u other node _
            by_cases hnode : node = (lines q).dummy.node
            · simp [hnode, (hlined q).dummy]
            · simp only [Function.update_of_ne hnode]
          adjacent := by
            intro u other y z hentering hadjacent
            by_cases hother : other = q
            · subst hother
              rw [Function.update_self]
              -- The new dummy is linked already.
              have hfirst : (lines other).Adjacent (lines other).dummy x :=
                ⟨[], rest, congrArg _ hrest⟩
              have hne : z ≠ x := by
                rintro rfl
                rw [(hlined other).next_none hfirst hentering] at hnext
                exact absurd hnext (by simp)
              have hline : lines other = ⟨(lines other).dummy, x :: rest⟩ :=
                congrArg (Line.mk _) hrest
              rw [hline] at hadjacent
              exact hadjacent.tail hne
            · rw [Function.update_of_ne hother]
              exact hadjacent
          tails := by
            intro other _ _ y _ htail
            by_cases hother : other = q
            · subst hother
              simp only [Memory.setQueue, Function.update_self]
              exact htail
            · simp only [Memory.setQueue, Function.update_of_ne hother]
              exact htail
          stays := fun other _ _ y _ hy => hsub other y hy
          data := fun _ _ _ => rfl
          next := fun _ _ _ _ hy => hy }
      knows := Function.update_self ..
      enters := by
        intro other node hnode
        have hne : node ≠ (lines q).dummy.node := by
          rintro rfl
          simp at hnode
        simp only [Function.update_of_ne hne] at hnode
        exact absurd hnode (henters other node)
      words := fun other y hy => Or.inl (hsub other y hy)
      held := fun _ _ hy => absurd hy List.not_mem_nil
      uncounted := fun _ _ hy => absurd hy List.not_mem_nil
      used := by
        intro other tag hused
        by_cases hother : other = q
        · subst hother
          simp only [Memory.setQueue, Function.update_self]
          exact hused
        · simp only [Memory.setQueue, Function.update_of_ne hother]
          exact hused
      size := by
        intro other
        by_cases hother : other = q
        · subst hother
          simp only [Memory.setQueue, Function.update_self, debt, uncounted, failing, claim,
            if_true, hrest, List.length_cons, List.length_nil]
          omega
        · simp only [Memory.setQueue, Function.update_of_ne hother, debt, uncounted, failing, claim,
            Ne.symm hother, if_false] }

/-- **What one step does.** -/
theorem advance_does (hlined : ∀ q, Lined m q (lines q)) (hknows : Knows m lines t pc)
    (henters : ∀ (q : Fin n) (node : Nat), m.home node = .entering t q →
      entered pc = some (q, node))
    (hunheld : Unheld m threads pc) (hstep : advance m t pc = some (m', pc')) :
    ∃ lines', Does t threads m pc m' pc' lines lines' := by
  have hnothing : ∀ (q : Fin n), ∀ w ∈ ([] : List Tagged), w ∈ (lines q).words ∨ w ∈ held q pc :=
    fun _ _ hw => absurd hw List.not_mem_nil
  cases pc with
  | idle => simp [advance] at hstep
  | enqCheck q a =>
      simp only [advance] at hstep
      split at hstep
      · obtain ⟨rfl, rfl⟩ := Prod.mk.inj (Option.some.inj hstep)
        exact ⟨lines, does_read hlined henters rfl trivial hnothing (fun _ => rfl) fun _ => rfl⟩
      · split at hstep
        · obtain ⟨rfl, rfl⟩ := Prod.mk.inj (Option.some.inj hstep)
          exact ⟨lines, does_read hlined henters rfl trivial hnothing (fun _ => rfl) fun _ => rfl⟩
        · obtain ⟨rfl, rfl⟩ := Prod.mk.inj (Option.some.inj hstep)
          exact ⟨lines, does_read hlined henters rfl trivial hnothing (fun _ => rfl) fun _ => rfl⟩
  | enqAlloc q a => simp [advance] at hstep
  | enqData q newnode a =>
      obtain ⟨rfl, rfl⟩ := Prod.mk.inj (Option.some.inj hstep)
      refine ⟨lines, does_own hlined (fun _ => rfl) (fun _ => Or.inl rfl) (fun node hnode => ?_)
        henters rfl ⟨hknows, Function.update_self ..⟩ hnothing (fun _ => rfl) fun _ => rfl⟩
      have hne : node ≠ newnode := by
        rintro rfl
        exact hnode hknows
      exact ⟨Function.update_of_ne hne _ _, rfl⟩
  | enqNext q newnode a =>
      obtain ⟨rfl, rfl⟩ := Prod.mk.inj (Option.some.inj hstep)
      refine ⟨lines, does_own hlined (fun _ => rfl) (fun _ => Or.inl rfl) (fun node hnode => ?_)
        henters rfl ⟨hknows.1, hknows.2, Function.update_self ..⟩ hnothing (fun _ => rfl)
        fun _ => rfl⟩
      have hne : node ≠ newnode := by
        rintro rfl
        exact hnode hknows.1
      exact ⟨rfl, Function.update_of_ne hne _ _⟩
  | enqRead q newnode tag a =>
      obtain ⟨rfl, rfl⟩ := Prod.mk.inj (Option.some.inj hstep)
      exact ⟨lines, does_read hlined henters rfl hknows hnothing (fun _ => rfl) fun _ => rfl⟩
  | enqTail q newnode tag oldtail a =>
      simp only [advance] at hstep
      split at hstep
      · rename_i htail
        obtain ⟨rfl, rfl⟩ := Prod.mk.inj (Option.some.inj hstep)
        subst htail
        refine ⟨_, does_tail hlined hknows (hunheld rfl) fun other node hnode => ?_⟩
        exact absurd (henters other node hnode) (by simp [entered])
      · obtain ⟨rfl, rfl⟩ := Prod.mk.inj (Option.some.inj hstep)
        exact ⟨lines, does_read hlined henters rfl hknows hnothing (fun _ => rfl) fun _ => rfl⟩
  | enqLink q w realadr a =>
      obtain ⟨hentering, v, rfl, hadjacent⟩ := hknows
      simp only [advance, (hlined q).next_none hadjacent hentering, if_true] at hstep
      obtain ⟨rfl, rfl⟩ := Prod.mk.inj (Option.some.inj hstep)
      refine ⟨lines, does_link hlined hentering hadjacent fun other node hnode => ?_⟩
      exact Option.some.inj (henters other node hnode)
  | enqSize q w =>
      obtain ⟨rfl, rfl⟩ := Prod.mk.inj (Option.some.inj hstep)
      exact ⟨lines, does_count hlined henters rfl trivial (fun _ => rfl) (fun _ => rfl)
        (by simp [debt, uncounted, failing, claim])
        fun other hother => by simp [debt, uncounted, failing, claim, Ne.symm hother]⟩
  | deqSize q =>
      obtain ⟨rfl, rfl⟩ := Prod.mk.inj (Option.some.inj hstep)
      split
      · exact ⟨lines, does_count hlined henters rfl trivial (fun _ => rfl) (fun _ => rfl)
          (by simp [debt, uncounted, failing, claim])
          fun other hother => by simp [debt, uncounted, failing, claim, Ne.symm hother]⟩
      · exact ⟨lines, does_count hlined henters rfl trivial (fun _ => rfl) (fun _ => rfl)
          (by simp [debt, uncounted, failing, claim])
          fun other hother => by simp [debt, uncounted, failing, claim, Ne.symm hother]⟩
  | deqRestore q =>
      obtain ⟨rfl, rfl⟩ := Prod.mk.inj (Option.some.inj hstep)
      exact ⟨lines, does_count hlined henters rfl trivial (fun _ => rfl) (fun _ => rfl)
        (by simp [debt, uncounted, failing, claim])
        fun other hother => by simp [debt, uncounted, failing, claim, Ne.symm hother]⟩
  | deqTail q =>
      obtain ⟨rfl, rfl⟩ := Prod.mk.inj (Option.some.inj hstep)
      refine ⟨lines, does_read hlined henters rfl ⟨(lines q).last, (hlined q).tail⟩
        (fun other w hw => Or.inl ?_) (fun _ => rfl) fun _ => rfl⟩
      rw [(hlined q).tail] at hw
      simp only [held] at hw
      split at hw
      · rename_i hother
        rw [List.mem_singleton.mp hw, ← hother]
        exact (lines q).last_mem
      · exact absurd hw List.not_mem_nil
  | deqTailNext q oldtail =>
      obtain ⟨w, rfl⟩ := hknows
      simp only [advance] at hstep
      split at hstep
      · obtain ⟨rfl, rfl⟩ := Prod.mk.inj (Option.some.inj hstep)
        exact ⟨lines, does_read hlined henters rfl trivial hnothing (fun _ => rfl) fun _ => rfl⟩
      · rename_i hnext
        obtain ⟨rfl, rfl⟩ := Prod.mk.inj (Option.some.inj hstep)
        refine ⟨lines, does_read hlined henters rfl (fun htail => hnext ?_)
          (fun _ _ hw => Or.inr hw) (fun _ => rfl) fun _ => rfl⟩
        -- Nothing is behind the tail, so this is not the tail any more.
        rw [← Option.some.inj ((hlined q).tail.symm.trans htail)]
        exact (hlined q).last_next
  | deqTailAgain q w =>
      obtain ⟨rfl, rfl⟩ := Prod.mk.inj (Option.some.inj hstep)
      exact ⟨lines, does_read hlined henters rfl hknows (fun _ _ hw => Or.inr hw) (fun _ => rfl)
        fun _ => rfl⟩
  | deqTailCas q w next =>
      have htail : (m.queues q).tail ≠ some w := hknows
      simp only [advance, htail, if_false] at hstep
      obtain ⟨rfl, rfl⟩ := Prod.mk.inj (Option.some.inj hstep)
      exact ⟨lines, does_read hlined henters rfl trivial hnothing (fun _ => rfl) fun _ => rfl⟩
  | deqHead q =>
      obtain ⟨rfl, rfl⟩ := Prod.mk.inj (Option.some.inj hstep)
      refine ⟨lines, does_read hlined henters rfl ⟨_, (hlined q).head⟩
        (fun other w hw => Or.inl ?_) (fun _ => rfl) fun _ => rfl⟩
      rw [(hlined q).head] at hw
      simp only [held] at hw
      split at hw
      · rename_i hother
        rw [List.mem_singleton.mp hw, ← hother]
        exact List.mem_cons_self
      · exact absurd hw List.not_mem_nil
  | deqNext q oldhead =>
      obtain ⟨w, rfl⟩ := hknows
      simp only [advance] at hstep
      split at hstep
      · obtain ⟨rfl, rfl⟩ := Prod.mk.inj (Option.some.inj hstep)
        exact ⟨lines, does_read hlined henters rfl trivial hnothing (fun _ => rfl) fun _ => rfl⟩
      · rename_i hnext
        obtain ⟨rfl, rfl⟩ := Prod.mk.inj (Option.some.inj hstep)
        exact ⟨lines, does_read hlined henters rfl (fun _ => hnext) (fun _ _ hw => Or.inr hw)
          (fun _ => rfl) fun _ => rfl⟩
  | deqData q w x =>
      obtain ⟨rfl, rfl⟩ := Prod.mk.inj (Option.some.inj hstep)
      exact ⟨lines, does_read hlined henters rfl (fun hw => ⟨hknows hw, rfl⟩)
        (fun _ _ hw => Or.inr hw) (fun _ => rfl) fun _ => rfl⟩
  | deqCas q w x a =>
      simp only [advance] at hstep
      split at hstep
      · rename_i hhead
        obtain ⟨rfl, rfl⟩ := Prod.mk.inj (Option.some.inj hstep)
        have hdummy : (lines q).dummy = w := Option.some.inj ((hlined q).head.symm.trans hhead)
        obtain ⟨hnext, rfl⟩ := hknows (hdummy ▸ List.mem_cons_self)
        obtain ⟨l, hl⟩ := does_pop hlined hhead hnext fun other node hnode =>
          absurd (henters other node hnode) (by simp [entered])
        exact ⟨_, hl⟩
      · obtain ⟨rfl, rfl⟩ := Prod.mk.inj (Option.some.inj hstep)
        exact ⟨lines, does_read hlined henters rfl trivial hnothing (fun _ => rfl) fun _ => rfl⟩
  | deqFree q realadr a =>
      obtain ⟨rfl, rfl⟩ := Prod.mk.inj (Option.some.inj hstep)
      refine ⟨lines, does_own hlined (fun _ => rfl) (fun node => ?_) (fun _ _ => ⟨rfl, rfl⟩)
        henters rfl trivial hnothing (fun _ => rfl) fun _ => rfl⟩
      by_cases hnode : node = realadr
      · subst hnode
        exact Or.inr ⟨Or.inl hknows, Or.inr (Function.update_self ..)⟩
      · exact Or.inl (Function.update_of_ne hnode _ _)

end

end LFQueue

end SessionServer.Common
