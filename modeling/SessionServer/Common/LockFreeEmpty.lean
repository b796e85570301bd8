/-
  Common/LockFreeEmpty.lean --- the calls that find nothing.

  `Pop` and `Dequeue` decrement the counter first and give back what they have taken if it
  was not positive.  The counter is short of the elements by those in vain for a moment, and
  by an element that another call has taken before its insertion has counted it; a call that
  looks then finds nothing, whatever is there.
-/
import SessionServer.Common.LockFreeStackRun
import SessionServer.Common.LockFreeQueueRun

set_option autoImplicit false

namespace SessionServer.Common

open SessionServer.Foundation

open LockFree

namespace LFStack

variable {α : Type} {s u : System α} {words : List Tagged} {t : Nat}

/-- Every element whose `Push` has completed is claimed: those that are on the stack are not
more than the calls that have passed the size test. -/
def System.Claimed (s : System α) : Prop :=
  ∃ words, Chain (fun w : Tagged => s.stack.next w.node) s.stack.top words ∧
    (words.filter (· ∉ hands uncounted s.threads)).length ≤ load claim s.threads

/-- A `Pop` that finds the counter at 0 or below would find it there too if the calls that fail
had restored it and the elements that have been popped before they were counted had been. -/
def System.Accurate (s : System α) : Label α → Prop
  | .step t => s.threads[t]? = some .popSize → s.stack.size ≤ 0 →
      ∀ words, Chain (fun w : Tagged => s.stack.next w.node) s.stack.top words →
        s.stack.size + load failing s.threads +
          ((hands uncounted s.threads).filter (· ∉ words)).length ≤ 0
  | _ => True

/-- A `Pop` that finds the counter at 0 or below would find it there too if the calls that fail
had restored it and all elements that have been linked had been counted. -/
def System.Settled (s : System α) : Label α → Prop
  | .step t => s.threads[t]? = some .popSize → s.stack.size ≤ 0 →
      s.stack.size + load failing s.threads + (hands uncounted s.threads).length ≤ 0
  | _ => True

instance [DecidableEq α] (s : System α) : (label : Label α) → Decidable (s.Settled label)
  | .step _ => inferInstanceAs (Decidable (_ → _ → _))
  | .push _ _ _ | .pop _ => isTrue trivial

theorem System.Settled.accurate {label : Label α} (h : s.Settled label) : s.Accurate label := by
  cases label with
  | step t =>
      intro ht hsize words _
      have hsettled := h ht hsize
      have hle := List.length_filter_le (fun w => decide (w ∉ words)) (hands uncounted s.threads)
      omega
  | _ => trivial

/-- An element that is on the stack is not claimed. -/
theorem not_claimed (hchain : Chain (fun w : Tagged => s.stack.next w.node) s.stack.top words)
    (hmore : load claim s.threads < (words.filter (· ∉ hands uncounted s.threads)).length) :
    ¬ s.Claimed := by
  rintro ⟨words', hchain', hle⟩
  obtain rfl := hchain.unique hchain'
  omega

/-- The counter, the calls and the stack. -/
theorem Sound.size_eq (h : Sound s words) :
    s.stack.size + (hands LFStack.uncounted s.threads).length + load failing s.threads +
      load claim s.threads = words.length := by
  have hsize := h.size
  have hdebt : load debt s.threads = (hands LFStack.uncounted s.threads).length +
      load failing s.threads + load claim s.threads := by
    rw [length_hands, ← load_add, ← load_add]
    rfl
  omega

/-- **The counter tells whether all are claimed**, with what the calls owe it. -/
theorem Sound.claimed_iff (h : Sound s words) :
    s.Claimed ↔ s.stack.size + load failing s.threads +
      ((hands LFStack.uncounted s.threads).filter (· ∉ words)).length ≤ 0 := by
  rw [← claims_cover_iff h.stacked.nodup.of_map h.uncounted h.size_eq]
  constructor
  · rintro ⟨words', hchain, hle⟩
    obtain rfl := h.stacked.chain.unique hchain
    exact hle
  · exact fun hle => ⟨words, h.stacked.chain, hle⟩

/-- A call fails with its size test. -/
theorem advance_popRestore {stack stack' : LFStack α} {pc : Pc α}
    (h : advance stack t pc = some (stack', .popRestore)) : pc = .popSize ∧ stack.size ≤ 0 := by
  cases pc with
  | popSize =>
      simp only [advance, Option.some.injEq, Prod.mk.injEq] at h
      have hpc := h.2
      split at hpc
      · exact ⟨rfl, by omega⟩
      · simp at hpc
  | pushCas w a oldtop =>
      simp only [advance] at h
      split at h <;> simp at h
  | popNext oldtop => cases oldtop <;> simp [advance] at h
  | popCas w newtop a =>
      simp only [advance] at h
      split at h <;> simp at h
  | _ => simp [advance] at h

theorem step_popRestore {label : Label α} (hstep : step s label = some u)
    (hbefore : s.threads[t]? ≠ some .popRestore) (hafter : u.threads[t]? = some .popRestore) :
    label = .step t ∧ s.threads[t]? = some .popSize ∧ s.stack.size ≤ 0 := by
  cases label with
  | push t' a newnode =>
      simp only [step] at hstep
      split at hstep
      · split at hstep
        · obtain rfl := Option.some.inj hstep
          exact absurd (getElem?_set_came hafter hbefore).2 (by simp)
        · simp at hstep
      · simp at hstep
  | pop t' =>
      simp only [step] at hstep
      split at hstep
      · obtain rfl := Option.some.inj hstep
        exact absurd (getElem?_set_came hafter hbefore).2 (by simp)
      · simp at hstep
  | step t' =>
      simp only [step] at hstep
      split at hstep
      · simp at hstep
      · rename_i pc ht
        obtain ⟨⟨stack, pc'⟩, hadvance, rfl⟩ := Option.map_eq_some_iff.mp hstep
        obtain ⟨rfl, rfl⟩ := getElem?_set_came hafter hbefore
        obtain ⟨rfl, hsize⟩ := advance_popRestore hadvance
        exact ⟨rfl, ht, hsize⟩

theorem threads_pop (h : step s (.pop t) = some u) : u.threads[t]? = some .popSize := by
  simp only [step] at h
  split at h
  · rename_i ht
    obtain rfl := Option.some.inj h
    exact List.getElem?_set_self (List.getElem?_eq_some_iff.mp ht).1
  · simp at h

/-- **`Pop` finds nothing only where all is claimed**, at the size test. -/
theorem pop_fails {data : Nat → α} {next : Nat → Word} {n : Nat} {before during : List (Label α)}
    (hrun : Along step (fun s label => s.Unheld label ∧ s.Accurate label) (start data next n)
      (before ++ .pop t :: during))
    (hbegin : exec step (start data next n) (before ++ [.pop t]) = some s)
    (hend : exec step s during = some u) (hfails : u.threads[t]? = some .popRestore) :
    Sometime step System.Claimed s during := by
  refine sometime_since (I := fun s => ∃ words, Sound s words)
    (Q := fun s => s.threads[t]? = some .popRestore) ⟨[], sound_start data next n⟩
    (fun _ _ _ hsound hok => exists_sound_step hsound hok.1) ?_ hrun hbegin hend ?_ hfails
  · rintro v label w ⟨words, hsound⟩ hok hstep hbefore hafter
    obtain ⟨rfl, ht, hsize⟩ := step_popRestore hstep hbefore hafter
    exact hsound.claimed_iff.mpr (hok.2 ht hsize words hsound.stacked.chain)
  · obtain ⟨m, -, hpop⟩ := exec_concat_eq_some.mp hbegin
    rw [threads_pop hpop]
    simp

end LFStack

namespace LFQueue

variable {n : Nat} {α : Type} {s u : System n α} {lines : Fin n → Line} {t : Nat} {q : Fin n}

/-- Every value whose `Enqueue` has completed is claimed: those that are in the queue are not
more than the calls that have passed the size test. -/
def System.Claimed (s : System n α) (q : Fin n) : Prop :=
  ∃ l : Line, Chain (behind s q) (s.memory.queues q).head l.words ∧
    (l.rest.filter (· ∉ hands (uncounted q) s.threads)).length ≤ load (claim q) s.threads

/-- A `Dequeue` that finds the counter at 0 or below would find it there too if the calls that
fail had restored it and the values that have been dequeued before they were counted had been. -/
def System.Accurate (s : System n α) : Label n α → Prop
  | .step t => ∀ q, s.threads[t]? = some (.deqSize q) → (s.memory.queues q).size ≤ 0 →
      ∀ l : Line, Chain (behind s q) (s.memory.queues q).head l.words →
        (s.memory.queues q).size + load (failing q) s.threads +
          ((hands (uncounted q) s.threads).filter (· ∉ l.rest)).length ≤ 0
  | _ => True

/-- A `Dequeue` that finds the counter at 0 or below would find it there too if the calls that
fail had restored it and all values that have been put behind the tail had been counted. -/
def System.Settled (s : System n α) : Label n α → Prop
  | .step t => ∀ q, s.threads[t]? = some (.deqSize q) → (s.memory.queues q).size ≤ 0 →
      (s.memory.queues q).size + load (failing q) s.threads +
        (hands (uncounted q) s.threads).length ≤ 0
  | _ => True

instance [DecidableEq α] (s : System n α) : (label : Label n α) → Decidable (s.Settled label)
  | .step _ => inferInstanceAs (Decidable (∀ _, _ → _ → _))
  | .enqueue _ _ _ | .dequeue _ _ | .alloc _ _ => isTrue trivial

theorem System.Settled.accurate {label : Label n α} (h : s.Settled label) : s.Accurate label := by
  cases label with
  | step t =>
      intro q ht hsize l _
      have hsettled := h q ht hsize
      have hle := List.length_filter_le (fun w => decide (w ∉ l.rest))
        (hands (uncounted q) s.threads)
      omega
  | _ => trivial

/-- A value that is in the queue is not claimed. -/
theorem not_claimed {l : Line} (hchain : Chain (behind s q) (s.memory.queues q).head l.words)
    (hmore : load (claim q) s.threads <
      (l.rest.filter (· ∉ hands (uncounted q) s.threads)).length) : ¬ s.Claimed q := by
  rintro ⟨l', hchain', hle⟩
  have hrest : l.rest = l'.rest := (List.cons.inj (hchain.unique hchain')).2
  rw [hrest] at hmore
  omega

/-- The counter, the calls and the queue. -/
theorem Sound.size_eq (h : Sound s lines) (q : Fin n) :
    (s.memory.queues q).size + (hands (LFQueue.uncounted q) s.threads).length +
      load (failing q) s.threads + load (claim q) s.threads = (lines q).rest.length := by
  have hsize := h.size q
  have hdebt : load (debt q) s.threads = (hands (LFQueue.uncounted q) s.threads).length +
      load (failing q) s.threads + load (claim q) s.threads := by
    rw [length_hands, ← load_add, ← load_add]
    rfl
  omega

/-- **The counter tells whether all are claimed**, with what the calls owe it. -/
theorem Sound.claimed_iff (h : Sound s lines) (q : Fin n) :
    s.Claimed q ↔ (s.memory.queues q).size + load (failing q) s.threads +
      ((hands (LFQueue.uncounted q) s.threads).filter (· ∉ (lines q).rest)).length ≤ 0 := by
  have hnodup : (lines q).rest.Nodup := (List.nodup_cons.mp (h.lined q).nodup.of_map).2
  rw [← claims_cover_iff hnodup (h.uncounted q) (h.size_eq q)]
  constructor
  · rintro ⟨l, hchain, hle⟩
    have hrest : l.rest = (lines q).rest :=
      (List.cons.inj (hchain.unique (h.chain q))).2
    rwa [hrest] at hle
  · exact fun hle => ⟨lines q, h.chain q, hle⟩

/-- A call fails with its size test. -/
theorem advance_deqRestore {memory memory' : Memory n α} {pc : Pc n α}
    (h : advance memory t pc = some (memory', .deqRestore q)) :
    pc = .deqSize q ∧ (memory.queues q).size ≤ 0 := by
  cases pc with
  | deqSize q' =>
      simp only [advance, Option.some.injEq, Prod.mk.injEq] at h
      have hpc := h.2
      split at hpc
      · obtain rfl := Pc.deqRestore.inj hpc
        exact ⟨rfl, by omega⟩
      · simp at hpc
  | enqCheck q' a =>
      simp only [advance] at h
      split at h
      · simp at h
      · split at h <;> simp at h
  | enqLink q' w realadr a =>
      cases realadr with
      | none => simp [advance] at h
      | some v =>
          simp only [advance] at h
          split at h <;> simp at h
  | deqTailNext q' w =>
      cases w with
      | none => simp [advance] at h
      | some w =>
          simp only [advance] at h
          split at h <;> simp at h
  | deqNext q' w =>
      cases w with
      | none => simp [advance] at h
      | some w =>
          simp only [advance] at h
          split at h <;> simp at h
  | enqTail q' v tag w a =>
      simp only [advance] at h
      split at h <;> simp at h
  | deqTailCas q' w x =>
      simp only [advance] at h
      split at h <;> simp at h
  | deqCas q' w x a =>
      simp only [advance] at h
      split at h <;> simp at h
  | _ => simp [advance] at h

theorem step_deqRestore {label : Label n α} (hstep : step s label = some u)
    (hbefore : s.threads[t]? ≠ some (.deqRestore q))
    (hafter : u.threads[t]? = some (.deqRestore q)) :
    label = .step t ∧ s.threads[t]? = some (.deqSize q) ∧ (s.memory.queues q).size ≤ 0 := by
  cases label with
  | enqueue t' q' a =>
      simp only [step] at hstep
      split at hstep
      · obtain rfl := Option.some.inj hstep
        exact absurd (getElem?_set_came hafter hbefore).2 (by simp)
      · simp at hstep
  | dequeue t' q' =>
      simp only [step] at hstep
      split at hstep
      · obtain rfl := Option.some.inj hstep
        exact absurd (getElem?_set_came hafter hbefore).2 (by simp)
      · simp at hstep
  | alloc t' newnode =>
      simp only [step] at hstep
      split at hstep
      · split at hstep
        · obtain rfl := Option.some.inj hstep
          exact absurd (getElem?_set_came hafter hbefore).2 (by simp)
        · simp at hstep
      · simp at hstep
  | step t' =>
      simp only [step] at hstep
      split at hstep
      · simp at hstep
      · rename_i pc ht
        obtain ⟨⟨memory, pc'⟩, hadvance, rfl⟩ := Option.map_eq_some_iff.mp hstep
        obtain ⟨rfl, rfl⟩ := getElem?_set_came hafter hbefore
        obtain ⟨rfl, hsize⟩ := advance_deqRestore hadvance
        exact ⟨rfl, ht, hsize⟩

theorem threads_dequeue (h : step s (.dequeue t q) = some u) :
    u.threads[t]? = some (.deqSize q) := by
  simp only [step] at h
  split at h
  · rename_i ht
    obtain rfl := Option.some.inj h
    exact List.getElem?_set_self (List.getElem?_eq_some_iff.mp ht).1
  · simp at h

/-- **`Dequeue` finds nothing only where all is claimed**, at the size test. -/
theorem dequeue_fails {maxSize : Fin n → Option Int} {data : Nat → α} {next : Nat → Word}
    {threads : Nat} {before during : List (Label n α)}
    (hrun : Along step (fun s label => s.Unheld label ∧ s.Accurate label)
      (start maxSize data next threads) (before ++ .dequeue t q :: during))
    (hbegin : exec step (start maxSize data next threads) (before ++ [.dequeue t q]) = some s)
    (hend : exec step s during = some u) (hfails : u.threads[t]? = some (.deqRestore q)) :
    Sometime step (System.Claimed · q) s during := by
  refine sometime_since (I := fun s => ∃ lines, Sound s lines)
    (Q := fun s => s.threads[t]? = some (.deqRestore q)) ⟨_, sound_start maxSize data next threads⟩
    (fun _ _ _ hsound hok => exists_sound_step hsound hok.1) ?_ hrun hbegin hend ?_ hfails
  · rintro v label w ⟨lines, hsound⟩ hok hstep hbefore hafter
    obtain ⟨rfl, ht, hsize⟩ := step_deqRestore hstep hbefore hafter
    exact (hsound.claimed_iff q).mpr (hok.2 q ht hsize (lines q) (hsound.chain q))
  · obtain ⟨m, -, hdequeue⟩ := exec_concat_eq_some.mp hbegin
    rw [threads_dequeue hdequeue]
    simp

end LFQueue

/-! ## The three containers -/

/-- **Empty means empty** in a run in which no word comes back that a call still has, and in
which the counter is right, with what the calls owe it, whenever a call finds it at 0 or below:
a call of `Pop` or `Dequeue` that fails does so at a moment at which all is claimed. -/
theorem fails_where_claimed {α : Type} :
    (∀ (data : Nat → α) (next : Nat → Word) (threads : Nat) (before during : List (LFStack.Label α))
        (t : Nat) (s u : LFStack.System α),
      Along LFStack.step (fun s label => s.Unheld label ∧ s.Accurate label)
        (LFStack.start data next threads) (before ++ .pop t :: during) →
      exec LFStack.step (LFStack.start data next threads) (before ++ [.pop t]) = some s →
      exec LFStack.step s during = some u → u.threads[t]? = some .popRestore →
      Sometime LFStack.step LFStack.System.Claimed s during) ∧
    ∀ (n : Nat) (maxSize : Fin n → Option Int) (data : Nat → α) (next : Nat → Word)
        (threads : Nat) (before during : List (LFQueue.Label n α)) (t : Nat) (q : Fin n)
        (s u : LFQueue.System n α),
      Along LFQueue.step (fun s label => s.Unheld label ∧ s.Accurate label)
        (LFQueue.start maxSize data next threads) (before ++ .dequeue t q :: during) →
      exec LFQueue.step (LFQueue.start maxSize data next threads) (before ++ [.dequeue t q]) =
        some s →
      exec LFQueue.step s during = some u → u.threads[t]? = some (.deqRestore q) →
      Sometime LFQueue.step (LFQueue.System.Claimed · q) s during :=
  ⟨fun _ _ _ _ _ _ _ _ hrun hbegin hend hfails => LFStack.pop_fails hrun hbegin hend hfails,
    fun _ _ _ _ _ _ _ _ _ _ _ hrun hbegin hend hfails =>
      LFQueue.dequeue_fails hrun hbegin hend hfails⟩

/-- An element has been pushed, and a `Pop` has passed the size test. -/
def claimedPush : List (LFStack.Label Nat) :=
  [.push 1 7 0] ++ List.replicate 6 (.step 1) ++ [.pop 0, .step 0]

/-- A value has been enqueued, and a `Dequeue` has passed the size test. -/
def claimedEnqueue (q : Fin 2) : List (LFQueue.Label 2 Nat) :=
  [.enqueue 1 q 7, .step 1, .alloc 1 2] ++ List.replicate 6 (.step 1) ++ [.dequeue 0 q, .step 0]

/-- Another call finds nothing, on the stack and on each of an `LFQueue` and a `MAXLFQueue`,
while the element is still there. -/
theorem empty_fails_where_claimed :
    (∃ s u, exec LFStack.step (LFStack.start (fun _ => 0) (fun _ => none) 3)
        (claimedPush ++ [.pop 2]) = some s ∧
      exec LFStack.step s [.step 2] = some u ∧ u.threads[2]? = some .popRestore ∧
      s.stack.history = [.push 7] ∧ Sometime LFStack.step LFStack.System.Claimed s [.step 2]) ∧
    ∀ q : Fin 2, ∃ s u,
      exec LFQueue.step (LFQueue.start ![none, some 5] (fun _ => 0) (fun _ => none) 3)
        (claimedEnqueue q ++ [.dequeue 2 q]) = some s ∧
      exec LFQueue.step s [.step 2] = some u ∧ u.threads[2]? = some (.deqRestore q) ∧
      (s.memory.queues q).history = [.push 7] ∧
      Sometime LFQueue.step (LFQueue.System.Claimed · q) s [.step 2] := by
  constructor
  · have hsettled : Along LFStack.step (fun s label => s.Unheld label ∧ s.Settled label)
        (LFStack.start (fun _ => 0) (fun _ => none) 3)
        (claimedPush ++ .pop 2 :: [.step 2]) := by
      decide +kernel
    obtain ⟨s, hs, u, hu, hfails, hhistory⟩ :
        ∃ s ∈ exec LFStack.step (LFStack.start (fun _ => 0) (fun _ => none) 3)
          (claimedPush ++ [.pop 2]), ∃ u ∈ exec LFStack.step s [.step 2],
          u.threads[2]? = some .popRestore ∧ s.stack.history = [.push 7] := by
      decide +kernel
    exact ⟨s, u, hs, hu, hfails, hhistory, fails_where_claimed.1 _ _ 3 _ _ 2 s u
      (hsettled.imp fun _ _ h => ⟨h.1, h.2.accurate⟩) hs hu hfails⟩
  · intro q
    have hsettled : Along LFQueue.step (fun s label => s.Unheld label ∧ s.Settled label)
        (LFQueue.start ![none, some 5] (fun _ => 0) (fun _ => none) 3)
        (claimedEnqueue q ++ .dequeue 2 q :: [.step 2]) := by
      revert q
      decide +kernel
    obtain ⟨s, hs, u, hu, hfails, hhistory⟩ :
        ∃ s ∈ exec LFQueue.step (LFQueue.start ![none, some 5] (fun _ => 0) (fun _ => none) 3)
          (claimedEnqueue q ++ [.dequeue 2 q]), ∃ u ∈ exec LFQueue.step s [.step 2],
          u.threads[2]? = some (.deqRestore q) ∧ (s.memory.queues q).history = [.push 7] := by
      revert q
      decide +kernel
    exact ⟨s, u, hs, hu, hfails, hhistory, fails_where_claimed.2 2 _ _ _ 3 _ _ 2 q s u
      (hsettled.imp fun _ _ h => ⟨h.1, h.2.accurate⟩) hs hu hfails⟩

/-- A `Pop` has found the stack empty and not restored the counter when a `Push` completes. -/
def hiddenPush : List (LFStack.Label Nat) :=
  [.pop 0, .step 0, .push 1 7 0] ++ List.replicate 6 (.step 1)

/-- A `Dequeue` has found the queue empty and not restored the counter when an `Enqueue`
completes. -/
def hiddenEnqueue (q : Fin 2) : List (LFQueue.Label 2 Nat) :=
  [.dequeue 0 q, .step 0, .enqueue 1 q 7, .step 1, .alloc 1 2] ++ List.replicate 6 (.step 1)

/-- Another call finds nothing, and at no moment of it the element is claimed. -/
theorem hidden_not_claimed :
    (∃ s u, exec LFStack.step (LFStack.start (fun _ => 0) (fun _ => none) 3)
        (hiddenPush ++ [.pop 2]) = some s ∧
      exec LFStack.step s [.step 2] = some u ∧ u.threads[2]? = some .popRestore ∧
      ¬ Sometime LFStack.step LFStack.System.Claimed s [.step 2]) ∧
    ∀ q : Fin 2, ∃ s u,
      exec LFQueue.step (LFQueue.start ![none, some 5] (fun _ => 0) (fun _ => none) 3)
        (hiddenEnqueue q ++ [.dequeue 2 q]) = some s ∧
      exec LFQueue.step s [.step 2] = some u ∧ u.threads[2]? = some (.deqRestore q) ∧
      ¬ Sometime LFQueue.step (LFQueue.System.Claimed · q) s [.step 2] := by
  constructor
  · obtain ⟨s, hs, u, hu, hfails, hbegin, hend⟩ :
        ∃ s ∈ exec LFStack.step (LFStack.start (fun _ => 0) (fun _ => none) 3)
          (hiddenPush ++ [.pop 2]), ∃ u ∈ exec LFStack.step s [.step 2],
          u.threads[2]? = some .popRestore ∧
          (Chain (fun w : Tagged => s.stack.next w.node) s.stack.top [⟨0, 1⟩] ∧
            load LFStack.claim s.threads = 0 ∧ hands LFStack.uncounted s.threads = []) ∧
          Chain (fun w : Tagged => u.stack.next w.node) u.stack.top [⟨0, 1⟩] ∧
            load LFStack.claim u.threads = 0 ∧ hands LFStack.uncounted u.threads = [] := by
      decide +kernel
    exact ⟨s, u, hs, hu, hfails, not_sometime_step hu
      (LFStack.not_claimed hbegin.1 (by simp [hbegin.2]))
      (LFStack.not_claimed hend.1 (by simp [hend.2]))⟩
  · intro q
    obtain ⟨s, hs, u, hu, hfails, hbegin, hend⟩ :
        ∃ s ∈ exec LFQueue.step (LFQueue.start ![none, some 5] (fun _ => 0) (fun _ => none) 3)
          (hiddenEnqueue q ++ [.dequeue 2 q]), ∃ u ∈ exec LFQueue.step s [.step 2],
          u.threads[2]? = some (.deqRestore q) ∧
          (Chain (LFQueue.behind s q) (s.memory.queues q).head
              (LFQueue.Line.words ⟨⟨q, 0⟩, [⟨2, 1⟩]⟩) ∧
            load (LFQueue.claim q) s.threads = 0 ∧ hands (LFQueue.uncounted q) s.threads = []) ∧
          Chain (LFQueue.behind u q) (u.memory.queues q).head
              (LFQueue.Line.words ⟨⟨q, 0⟩, [⟨2, 1⟩]⟩) ∧
            load (LFQueue.claim q) u.threads = 0 ∧ hands (LFQueue.uncounted q) u.threads = [] := by
      revert q
      decide +kernel
    exact ⟨s, u, hs, hu, hfails, not_sometime_step hu
      (LFQueue.not_claimed hbegin.1 (by simp [hbegin.2]))
      (LFQueue.not_claimed hend.1 (by simp [hend.2]))⟩

end SessionServer.Common
