/-
  Common/LockFreeQueueRun.lean --- the lock-free queues under the steps of many threads.

  The counter of a queue is its length but for what the calls owe it.  A link that is missing
  is one that the next step of a thread sets, so the values of the queue can be read off the
  memory and the threads at any time.  The values of the calls are accounted for: an `Enqueue`
  puts its value behind the tail once, and what the head leaves behind is returned.
-/
import SessionServer.Common.LockFreeQueueStep

set_option autoImplicit false

namespace SessionServer.Common

open SessionServer.Foundation

open LockFree

namespace LFQueue

variable {n : Nat} {α : Type}

/-! ## All threads -/

/-- What holds whenever the threads have taken some steps: the queues are lines, every call
knows what it needs to, a node that is not linked yet is that of a thread about to link it,
no word is counted twice, and the counters are the lengths but for what the calls owe. -/
structure Sound (s : System n α) (lines : Fin n → Line) : Prop where
  lined : ∀ q, Lined s.memory q (lines q)
  knows : ∀ (t : Nat) (pc : Pc n α), s.threads[t]? = some pc → Knows s.memory lines t pc
  enters : ∀ (t : Nat) (q : Fin n) (node : Nat), s.memory.home node = .entering t q →
    ∃ pc, s.threads[t]? = some pc ∧ entered pc = some (q, node)
  uncounted : ∀ q, (hands (uncounted q) s.threads).Nodup
  size : ∀ q, (s.memory.queues q).size + load (debt q) s.threads = (lines q).rest.length

section

variable {s u : System n α} {lines lines' : Fin n → Line} {t : Nat} {pc pc' : Pc n α}

/-- **A thread moves.** -/
theorem Sound.move (h : Sound s lines) (ht : s.threads[t]? = some pc) {memory : Memory n α}
    (hdoes : Does t s.threads s.memory pc memory pc' lines lines') (calls : Fin n → Calls α) :
    Sound ⟨memory, s.threads.set t pc', calls⟩ lines' where
  lined := hdoes.lined
  knows := by
    intro u other hu
    rcases getElem?_set_cases hu with ⟨rfl, rfl⟩ | ⟨hne, hold⟩
    · exact hdoes.knows
    · exact (h.knows u other hold).frame h.lined hdoes.frame (List.mem_of_getElem? hold) hne
  enters := by
    intro u q node hnode
    by_cases hu : u = t
    · subst hu
      have hlt := (List.getElem?_eq_some_iff.mp ht).1
      exact ⟨pc', List.getElem?_set_self hlt, hdoes.enters q node hnode⟩
    · obtain ⟨other, hother, hentered⟩ := h.enters u q node
        ((hdoes.frame.entering u q node hu).mp hnode)
      exact ⟨other, (List.getElem?_set_ne (Ne.symm hu)).trans hother, hentered⟩
  uncounted := by
    intro q
    refine nodup_hands_set (h.uncounted q) ht (nodup_uncounted q pc') fun other hother w hw => ?_
    refine (hdoes.uncounted q w hw).imp_right fun hnobody hmem => ?_
    exact hnobody.2 other hother (held_of_uncounted hmem)
  size := by
    intro q
    have hset := load_set (debt q) ht pc'
    have hsize := h.size q
    have hstep := hdoes.size q
    simp only
    omega

/-- The links that the thread has still to set. -/
theorem Sound.enters_of (h : Sound s lines) (ht : s.threads[t]? = some pc) (q : Fin n)
    (node : Nat) (hnode : s.memory.home node = .entering t q) : entered pc = some (q, node) := by
  obtain ⟨other, hother, hentered⟩ := h.enters t q node hnode
  rw [ht] at hother
  obtain rfl := Option.some.inj hother
  exact hentered

/-- Where the words come from that are in the queues and that the calls have after a step. -/
structure Sources (s u : System n α) (lines lines' : Fin n → Line) : Prop where
  words : ∀ q, ∀ w ∈ (lines' q).words,
    w ∈ (lines q).words ∨ w ∈ hands (uncounted q) u.threads
  held : ∀ q, ∀ w ∈ hands (held q) u.threads,
    w ∈ (lines q).words ∨ w ∈ hands (held q) s.threads ∨ w ∈ hands (uncounted q) u.threads
  uncounted : ∀ q, ∀ w ∈ hands (uncounted q) u.threads,
    w ∈ hands (LFQueue.uncounted q) s.threads ∨ (u.memory.queues q).tags w.tag = .used
  used : ∀ q tag, (s.memory.queues q).tags tag = .used → (u.memory.queues q).tags tag = .used

theorem Does.sources (ht : s.threads[t]? = some pc) {memory : Memory n α}
    (hdoes : Does t s.threads s.memory pc memory pc' lines lines') (calls : Fin n → Calls α) :
    Sources s ⟨memory, s.threads.set t pc', calls⟩ lines lines' := by
  have hself : (s.threads.set t pc')[t]? = some pc' :=
    List.getElem?_set_self (List.getElem?_eq_some_iff.mp ht).1
  refine ⟨fun q w hw => ?_, fun q w hw => ?_, fun q w hw => ?_, hdoes.used⟩
  · exact (hdoes.words q w hw).imp_right fun hnew => mem_hands.mpr ⟨t, pc', hself, hnew⟩
  · obtain ⟨u, other, hu, hmem⟩ := mem_hands.mp hw
    rcases getElem?_set_cases hu with ⟨rfl, rfl⟩ | ⟨-, hold⟩
    · rcases hdoes.held q w hmem with hline | hmine | hnew
      · exact Or.inl hline
      · exact Or.inr (Or.inl (mem_hands.mpr ⟨u, pc, ht, hmine⟩))
      · exact Or.inr (Or.inr (mem_hands.mpr ⟨u, other, hself, hnew⟩))
    · exact Or.inr (Or.inl (mem_hands.mpr ⟨u, other, hold, hmem⟩))
  · obtain ⟨u, other, hu, hmem⟩ := mem_hands.mp hw
    rcases getElem?_set_cases hu with ⟨rfl, rfl⟩ | ⟨-, hold⟩
    · exact (hdoes.uncounted q w hmem).imp (fun hmine => mem_hands.mpr ⟨u, pc, ht, hmine⟩) And.left
    · exact Or.inl (mem_hands.mpr ⟨u, other, hold, hmem⟩)

/-- **One step keeps the system sound.** -/
theorem Sound.step {label : Label n α} (h : Sound s lines) (hunheld : s.Unheld label)
    (hstep : step s label = some u) : ∃ lines', Sound u lines' ∧ Sources s u lines lines' := by
  have hnothing : ∀ (pc : Pc n α) (q : Fin n), ∀ w ∈ ([] : List Tagged),
      w ∈ (lines q).words ∨ w ∈ held q pc := fun _ _ _ hw => absurd hw List.not_mem_nil
  cases label with
  | enqueue t q a =>
      simp only [LFQueue.step] at hstep
      split at hstep
      · rename_i ht
        obtain rfl := Option.some.inj hstep
        have hdoes : Does t s.threads s.memory .idle s.memory (.enqCheck q a) lines lines :=
          does_read h.lined (h.enters_of ht) rfl trivial (hnothing _) (fun _ => rfl) fun _ => rfl
        exact ⟨lines, h.move ht hdoes _, hdoes.sources ht _⟩
      · simp at hstep
  | dequeue t q =>
      simp only [LFQueue.step] at hstep
      split at hstep
      · rename_i ht
        obtain rfl := Option.some.inj hstep
        have hdoes : Does t s.threads s.memory .idle s.memory (.deqSize q) lines lines :=
          does_read h.lined (h.enters_of ht) rfl trivial (hnothing _) (fun _ => rfl) fun _ => rfl
        exact ⟨lines, h.move ht hdoes _, hdoes.sources ht _⟩
      · simp at hstep
  | alloc t newnode =>
      simp only [LFQueue.step] at hstep
      split at hstep
      · rename_i q a ht
        split at hstep
        · rename_i hfree
          obtain rfl := Option.some.inj hstep
          have hdoes : Does t s.threads s.memory (.enqAlloc q a)
              { s.memory with home := Function.update s.memory.home newnode (.thread t) }
              (.enqData q newnode a) lines lines := by
            refine does_own h.lined (fun _ => rfl) (fun node => ?_) (fun _ _ => ⟨rfl, rfl⟩)
              (h.enters_of ht) rfl (Function.update_self ..) (hnothing _) (fun _ => rfl)
              fun _ => rfl
            by_cases hnode : node = newnode
            · subst hnode
              exact Or.inr ⟨Or.inr hfree, Or.inl (Function.update_self ..)⟩
            · exact Or.inl (Function.update_of_ne hnode _ _)
          exact ⟨lines, h.move ht hdoes _, hdoes.sources ht _⟩
        · simp at hstep
      · simp at hstep
  | step t =>
      simp only [LFQueue.step] at hstep
      split at hstep
      · simp at hstep
      · rename_i pc ht
        obtain ⟨⟨memory, pc'⟩, hadvance, rfl⟩ := Option.map_eq_some_iff.mp hstep
        obtain ⟨lines', hdoes⟩ := advance_does h.lined (h.knows t pc ht) (h.enters_of ht)
          (hunheld pc ht) hadvance
        exact ⟨lines', h.move ht hdoes _, hdoes.sources ht _⟩

theorem exists_sound_step {label : Label n α} (h : ∃ lines, Sound s lines)
    (hunheld : s.Unheld label) (hstep : LFQueue.step s label = some u) :
    ∃ lines, Sound u lines := by
  obtain ⟨lines, hsound⟩ := h
  obtain ⟨lines', hsound', -⟩ := hsound.step hunheld hstep
  exact ⟨lines', hsound'⟩

end

/-! ## The values of a queue -/

/-- The word that the call is about to link behind the node. -/
def linking (q : Fin n) (node : Nat) : Pc n α → Option Tagged
  | .enqLink q' w realadr _ => if q' = q ∧ realadr = some node then some w else none
  | _ => none

/-- The word behind another one in the queue: its link leads there, or the next step of a
thread sets it. -/
def behind (s : System n α) (q : Fin n) (v : Tagged) : Word :=
  (s.memory.next v.node).or (s.threads.findSome? (linking q v.node))

section

variable {s : System n α} {lines : Fin n → Line} {q : Fin n} {v w : Tagged} {pc : Pc n α}

/-- The link that a thread is about to set is one of the queue. -/
theorem Sound.adjacent_of_linking (h : Sound s lines) (hpc : pc ∈ s.threads)
    (hlinking : linking q v.node pc = some w) (hv : v ∈ (lines q).words) :
    (lines q).Adjacent v w := by
  obtain ⟨t, ht⟩ := List.mem_iff_getElem?.mp hpc
  cases pc with
  | enqLink q' x realadr a =>
      simp only [linking] at hlinking
      split at hlinking
      · rename_i hcond
        obtain ⟨rfl, rfl⟩ := hcond
        obtain rfl := Option.some.inj hlinking
        obtain ⟨-, u, hnode, hadjacent⟩ := h.knows t _ ht
        have hu : u.node = v.node := (Option.some.inj hnode).symm
        obtain rfl := (h.lined q').eq_of_node hadjacent.mem.1 hv hu
        exact hadjacent
      · exact absurd hlinking (by simp)
  | _ => exact absurd hlinking (by simp [linking])

/-- A link of the queue that is missing is one that a thread is about to set. -/
theorem Sound.linking_of_adjacent (h : Sound s lines) (hadjacent : (lines q).Adjacent v w)
    {t : Nat} (hentering : s.memory.home w.node = .entering t q) :
    ∃ pc ∈ s.threads, linking q v.node pc = some w := by
  obtain ⟨pc, ht, hentered⟩ := h.enters t q w.node hentering
  cases pc with
  | enqLink q' x realadr a =>
      obtain ⟨rfl, hnode⟩ := Prod.mk.inj (Option.some.inj hentered)
      obtain ⟨-, u, rfl, hadjacent'⟩ := h.knows t _ ht
      obtain rfl := (h.lined q').eq_of_node hadjacent'.mem.2 hadjacent.mem.2 hnode
      obtain rfl := hadjacent.left_unique hadjacent' (h.lined q').nodup.of_map
      exact ⟨_, List.mem_of_getElem? ht, by simp [linking]⟩
  | _ => exact absurd hentered (by simp [entered])

/-- **The words of the queue stand behind each other.** -/
theorem Sound.behind_iff (h : Sound s lines) (hv : v ∈ (lines q).words) (w : Tagged) :
    behind s q v = some w ↔ (lines q).Adjacent v w := by
  constructor
  · intro hbehind
    rcases Option.or_eq_some_iff.mp hbehind with hnext | ⟨-, hsome⟩
    · exact (h.lined q).next hv hnext
    · obtain ⟨pc, hpc, hlinking⟩ := List.exists_of_findSome?_eq_some hsome
      exact h.adjacent_of_linking hpc hlinking hv
  · intro hadjacent
    rcases (h.lined q).adjacent hadjacent with ⟨-, hnext⟩ | ⟨⟨t, hentering⟩, hnone⟩
    · simp [behind, hnext]
    · obtain ⟨pc, hpc, hlinking⟩ := h.linking_of_adjacent hadjacent hentering
      have hsome : (s.threads.findSome? (linking q v.node)).isSome :=
        List.findSome?_isSome_iff.mpr ⟨pc, hpc, Option.isSome_iff_exists.mpr ⟨w, hlinking⟩⟩
      obtain ⟨x, hx⟩ := Option.isSome_iff_exists.mp hsome
      obtain ⟨other, hother, hlinking'⟩ := List.exists_of_findSome?_eq_some hx
      have hadjacent' := h.adjacent_of_linking hother hlinking' hv
      obtain ⟨pre, post, hwords⟩ := hadjacent
      obtain ⟨post', hpost⟩ := hadjacent'.right_eq hwords (h.lined q).nodup.of_map
      rw [behind, hnone, Option.none_or, hx, (List.cons.inj hpost).1]

theorem Sound.chain (h : Sound s lines) (q : Fin n) :
    Chain (behind s q) (s.memory.queues q).head (lines q).words := by
  rw [(h.lined q).head]
  exact (lines q).chain (fun v hv w => h.behind_iff hv w) (h.lined q).nodup.of_map

end

/-! ## Runs -/

theorem made_eq (maxSize : Option Int) (dummy : Nat) :
    (made maxSize dummy : LFQueue α) = { LFQueue.new dummy with maxSize := maxSize } := by
  cases maxSize <;> rfl

theorem sound_start (maxSize : Fin n → Option Int) (data : Nat → α) (next : Nat → Word)
    (threads : Nat) : Sound (start maxSize data next threads) fun q => ⟨⟨q, 0⟩, []⟩ where
  lined := by
    intro q
    refine ⟨?_, ?_, ?_, ?_, List.nodup_singleton _, ?_⟩
    · simp [start, made_eq, LFQueue.new]
    · simp [start, made_eq, LFQueue.new, Line.last]
    · simp [start, LinkedFrom]
    · simp [start]
    · simp only [start, made_eq, LFQueue.new]
      exact Fifo.empty
  knows := by
    intro t pc ht
    rw [List.eq_of_mem_replicate (List.mem_of_getElem? ht)]
    trivial
  enters := by
    intro t q node hnode
    simp only [start] at hnode
    split at hnode <;> simp at hnode
  uncounted := by
    intro q
    have hhands : hands (uncounted q) (List.replicate threads (.idle : Pc n α)) = [] :=
      hands_replicate rfl threads
    simp [start, hhands]
  size := by
    intro q
    have hload : load (debt q) (List.replicate threads (.idle : Pc n α)) = 0 :=
      load_replicate (debt q) rfl threads
    simp [start, made_eq, LFQueue.new, hload]

/-! ## Tags that do not repeat -/

/-- The tags of the words that are in the queues or that the calls have are used. -/
structure Stamped (s : System n α) (lines : Fin n → Line) : Prop where
  words : ∀ q, ∀ w ∈ (lines q).words, (s.memory.queues q).tags w.tag = .used
  held : ∀ q, ∀ w ∈ hands (held q) s.threads, (s.memory.queues q).tags w.tag = .used

section

variable {s u : System n α} {lines lines' : Fin n → Line} {t : Nat} {pc pc' : Pc n α}
  {label : Label n α}

/-- So a word with a tag that is not used is not one that a call has. -/
theorem Stamped.unheld (h : Stamped s lines) (hfresh : s.Fresh label) : s.Unheld label := by
  cases label with
  | step t =>
      intro pc ht
      have hpc := hfresh pc ht
      cases pc with
      | enqTail q newnode tag oldtail a =>
          intro htail other hother hmem
          have hused := h.held q _ (List.mem_flatMap.mpr ⟨other, hother, hmem⟩)
          rw [hpc htail] at hused
          exact absurd hused (by simp)
      | _ => trivial
  | _ => trivial

/-- **One step keeps it so.** -/
theorem Stamped.step (h : Stamped s lines) (hsources : Sources s u lines lines') :
    Stamped u lines' := by
  have huncounted : ∀ q, ∀ w ∈ hands (uncounted q) u.threads,
      (u.memory.queues q).tags w.tag = .used := by
    intro q w hw
    rcases hsources.uncounted q w hw with hold | hused
    · obtain ⟨t, pc, ht, hmem⟩ := mem_hands.mp hold
      exact hsources.used q w.tag
        (h.held q w (mem_hands.mpr ⟨t, pc, ht, held_of_uncounted hmem⟩))
    · exact hused
  refine ⟨fun q w hw => ?_, fun q w hw => ?_⟩
  · rcases hsources.words q w hw with hold | hnew
    · exact hsources.used q w.tag (h.words q w hold)
    · exact huncounted q w hnew
  · rcases hsources.held q w hw with hline | hold | hnew
    · exact hsources.used q w.tag (h.words q w hline)
    · exact hsources.used q w.tag (h.held q w hold)
    · exact huncounted q w hnew

end

/-! ## The values of the calls -/

/-- The value of an `Enqueue` that has not put its node behind the tail. -/
def inProgress (q : Fin n) : Pc n α → List α
  | .enqCheck q' a | .enqAlloc q' a | .enqData q' _ a | .enqNext q' _ a | .enqRead q' _ _ a
  | .enqTail q' _ _ _ a => if q' = q then [a] else []
  | _ => []

/-- The value of a `Dequeue` that has moved the head and has not returned. -/
def taken (q : Fin n) : Pc n α → List α
  | .deqFree q' _ a => if q' = q then [a] else []
  | _ => []

/-- What a step makes of the values of the calls on a queue. -/
structure Values (q : Fin n) (m : Memory n α) (calls : Fin n → Calls α) (pc : Pc n α)
    (m' : Memory n α) (calls' : Fin n → Calls α) (pc' : Pc n α) (new : List α) : Prop where
  begun : (calls' q).begun = (calls q).begun ++ new
  inserted : (pushed (m'.queues q).history ++ (calls' q).refused ++ inProgress q pc').Perm
    (pushed (m.queues q).history ++ (calls q).refused ++ inProgress q pc ++ new)
  removed : (popped (m'.queues q).history ++ (calls q).returned ++ taken q pc).Perm
    (popped (m.queues q).history ++ (calls' q).returned ++ taken q pc')

section

variable {q : Fin n} {m m' : Memory n α} {calls calls' : Fin n → Calls α} {pc pc' : Pc n α}
  {t : Nat}

/-- A step without a compare-exchange of a tail or a head, in a call that does not end. -/
theorem values_same (hhistory : (m'.queues q).history = (m.queues q).history)
    (hinserting : inProgress q pc' = inProgress q pc) (hremoving : taken q pc' = taken q pc) :
    Values q m calls pc m' calls pc' [] where
  begun := (List.append_nil _).symm
  inserted := by rw [hhistory, hinserting, List.append_nil]
  removed := by rw [hhistory, hremoving]

theorem history_setQueue {q' : Fin n} {queue : LFQueue α}
    (h : queue.history = (m.queues q').history) :
    ((m.setQueue q' queue).queues q).history = (m.queues q).history := by
  by_cases hq : q = q'
  · subst hq
    simp [Memory.setQueue, h]
  · simp [Memory.setQueue, Function.update_of_ne hq]

/-- The value of an `Enqueue` is in progress until the compare-exchange of the tail or until it
is refused, and that of a `Dequeue` is taken by the compare-exchange of the head and returned;
where the links that are set are missing, no value is put behind the tail twice. -/
theorem advance_values (h : advance m t pc = some (m', pc'))
    (hlink : ∀ q w v a, pc = .enqLink q w (some v) a → m.next v = none) :
    Values q m calls pc m' (record calls pc pc') pc' [] := by
  cases pc with
  | idle => simp [advance] at h
  | enqAlloc q' a => simp [advance] at h
  | enqCheck q' a =>
      simp only [advance] at h
      split at h
      · obtain ⟨rfl, rfl⟩ := Prod.mk.inj (Option.some.inj h)
        exact values_same rfl rfl rfl
      · split at h
        · obtain ⟨rfl, rfl⟩ := Prod.mk.inj (Option.some.inj h)
          by_cases hq : q' = q
          · subst hq
            refine ⟨by simp [record], ?_, by simp [record, taken]⟩
            simp [record, inProgress]
          · refine ⟨?_, ?_, ?_⟩ <;>
              simp [record, inProgress, taken, hq, Function.update_of_ne (Ne.symm hq)]
        · obtain ⟨rfl, rfl⟩ := Prod.mk.inj (Option.some.inj h)
          exact values_same rfl rfl rfl
  | enqTail q' newnode tag oldtail a =>
      simp only [advance] at h
      split at h
      · obtain ⟨rfl, rfl⟩ := Prod.mk.inj (Option.some.inj h)
        by_cases hq : q' = q
        · subst hq
          refine ⟨by simp [record], ?_, ?_⟩
          · simp only [record, Memory.setQueue, Function.update_self, pushed_append, pushed,
              inProgress, if_true, List.append_nil, List.append_assoc]
            exact List.perm_append_comm.append_left _
          · simp [record, Memory.setQueue, popped_append, popped, taken]
        · refine ⟨?_, ?_, ?_⟩ <;>
            simp [record, inProgress, taken, hq, Memory.setQueue,
              Function.update_of_ne (Ne.symm hq)]
      · obtain ⟨rfl, rfl⟩ := Prod.mk.inj (Option.some.inj h)
        exact values_same rfl rfl rfl
  | enqLink q' w realadr a =>
      cases realadr with
      | none => simp [advance] at h
      | some v =>
          simp only [advance, if_pos (hlink q' w v a rfl)] at h
          obtain ⟨rfl, rfl⟩ := Prod.mk.inj (Option.some.inj h)
          exact values_same rfl rfl rfl
  | enqSize q' w =>
      obtain ⟨rfl, rfl⟩ := Prod.mk.inj (Option.some.inj h)
      exact values_same (history_setQueue rfl) rfl rfl
  | deqSize q' =>
      obtain ⟨rfl, rfl⟩ := Prod.mk.inj (Option.some.inj h)
      split
      · exact values_same (history_setQueue rfl) rfl rfl
      · exact values_same (history_setQueue rfl) rfl rfl
  | deqRestore q' =>
      obtain ⟨rfl, rfl⟩ := Prod.mk.inj (Option.some.inj h)
      exact values_same (history_setQueue rfl) rfl rfl
  | deqTailNext q' oldtail =>
      cases oldtail with
      | none => simp [advance] at h
      | some w =>
          simp only [advance] at h
          split at h <;> obtain ⟨rfl, rfl⟩ := Prod.mk.inj (Option.some.inj h) <;>
            exact values_same rfl rfl rfl
  | deqTailCas q' oldtail x =>
      simp only [advance] at h
      split at h
      · obtain ⟨rfl, rfl⟩ := Prod.mk.inj (Option.some.inj h)
        exact values_same (history_setQueue rfl) rfl rfl
      · obtain ⟨rfl, rfl⟩ := Prod.mk.inj (Option.some.inj h)
        exact values_same rfl rfl rfl
  | deqNext q' oldhead =>
      cases oldhead with
      | none => simp [advance] at h
      | some w =>
          simp only [advance] at h
          split at h <;> obtain ⟨rfl, rfl⟩ := Prod.mk.inj (Option.some.inj h) <;>
            exact values_same rfl rfl rfl
  | deqCas q' oldhead newhead a =>
      simp only [advance] at h
      split at h
      · obtain ⟨rfl, rfl⟩ := Prod.mk.inj (Option.some.inj h)
        by_cases hq : q' = q
        · subst hq
          refine ⟨by simp [record], ?_, ?_⟩
          · simp [record, Memory.setQueue, pushed_append, pushed, inProgress]
          · simp only [record, Memory.setQueue, Function.update_self, popped_append, popped, taken,
              if_true, List.append_nil, List.append_assoc]
            exact List.perm_append_comm.append_left _
        · refine ⟨?_, ?_, ?_⟩ <;>
            simp [record, inProgress, taken, hq, Memory.setQueue,
              Function.update_of_ne (Ne.symm hq)]
      · obtain ⟨rfl, rfl⟩ := Prod.mk.inj (Option.some.inj h)
        exact values_same rfl rfl rfl
  | deqFree q' realadr a =>
      obtain ⟨rfl, rfl⟩ := Prod.mk.inj (Option.some.inj h)
      by_cases hq : q' = q
      · subst hq
        refine ⟨by simp [record], by simp [record, inProgress], ?_⟩
        simp [record, taken]
      · refine ⟨?_, ?_, ?_⟩ <;>
          simp [record, inProgress, taken, hq, Function.update_of_ne (Ne.symm hq)]
  | _ =>
      obtain ⟨rfl, rfl⟩ := Prod.mk.inj (Option.some.inj h)
      exact values_same rfl rfl rfl

end

/-- The values of all `Enqueue` calls have been put behind the tail, refused or are in progress,
and those taken at the head have been returned or are about to be. -/
structure Accounted (s : System n α) (q : Fin n) : Prop where
  begun : (s.calls q).begun.Perm
    (pushed (s.memory.queues q).history ++ (s.calls q).refused ++ hands (inProgress q) s.threads)
  taken : (popped (s.memory.queues q).history).Perm
    ((s.calls q).returned ++ hands (LFQueue.taken q) s.threads)

theorem accounted_start (maxSize : Fin n → Option Int) (data : Nat → α) (next : Nat → Word)
    (threads : Nat) (q : Fin n) : Accounted (start maxSize data next threads) q where
  begun := by
    have hhands : hands (inProgress q) (List.replicate threads (.idle : Pc n α)) = [] :=
      hands_replicate rfl threads
    simp [start, made_eq, LFQueue.new, hhands, pushed]
  taken := by
    have hhands : hands (LFQueue.taken q) (List.replicate threads (.idle : Pc n α)) = [] :=
      hands_replicate rfl threads
    simp [start, made_eq, LFQueue.new, hhands, popped]

section

variable {s u : System n α} {lines : Fin n → Line} {q : Fin n} {t : Nat} {pc pc' : Pc n α}

/-- A thread moves. -/
theorem Accounted.move (h : Accounted s q) (ht : s.threads[t]? = some pc) {memory : Memory n α}
    {calls : Fin n → Calls α} (new : List α)
    (hvalues : Values q s.memory s.calls pc memory calls pc' new) :
    Accounted ⟨memory, s.threads.set t pc', calls⟩ q where
  begun := by
    classical
    refine List.perm_iff_count.mpr fun a => ?_
    have hset := count_hands_set (inProgress q) ht pc' a
    have hbegun := h.begun.count_eq a
    have hinserted := hvalues.inserted.count_eq a
    simp only [hvalues.begun, List.count_append] at hbegun hinserted ⊢
    omega
  taken := by
    classical
    refine List.perm_iff_count.mpr fun a => ?_
    have hset := count_hands_set (LFQueue.taken q) ht pc' a
    have htaken := h.taken.count_eq a
    have hremoved := hvalues.removed.count_eq a
    simp only [List.count_append] at htaken hremoved ⊢
    omega

/-- **One step keeps the accounts**: the second compare-exchange of an `Enqueue` succeeds. -/
theorem Accounted.step {label : Label n α} (h : Accounted s q) (hsound : Sound s lines)
    (hstep : LFQueue.step s label = some u) : Accounted u q := by
  cases label with
  | enqueue t q' a =>
      simp only [LFQueue.step] at hstep
      split at hstep
      · rename_i ht
        obtain rfl := Option.some.inj hstep
        by_cases hq : q' = q
        · subst hq
          exact h.move ht [a] ⟨by simp, by simp [inProgress], by simp [LFQueue.taken]⟩
        · refine h.move ht [] ⟨?_, ?_, ?_⟩ <;>
            simp [inProgress, LFQueue.taken, hq, Function.update_of_ne (Ne.symm hq)]
      · simp at hstep
  | dequeue t q' =>
      simp only [LFQueue.step] at hstep
      split at hstep
      · rename_i ht
        obtain rfl := Option.some.inj hstep
        exact h.move ht [] (values_same rfl rfl rfl)
      · simp at hstep
  | alloc t newnode =>
      simp only [LFQueue.step] at hstep
      split at hstep
      · rename_i q' a ht
        split at hstep
        · obtain rfl := Option.some.inj hstep
          exact h.move ht [] (values_same rfl rfl rfl)
        · simp at hstep
      · simp at hstep
  | step t =>
      simp only [LFQueue.step] at hstep
      split at hstep
      · simp at hstep
      · rename_i pc ht
        obtain ⟨⟨memory, pc'⟩, hadvance, rfl⟩ := Option.map_eq_some_iff.mp hstep
        refine h.move ht [] (advance_values hadvance ?_)
        rintro q' w v a rfl
        obtain ⟨hentering, x, hnode, hadjacent⟩ := hsound.knows t _ ht
        obtain rfl := Option.some.inj hnode
        exact (hsound.lined q').next_none hadjacent hentering

end

section

variable {maxSize : Fin n → Option Int} {data : Nat → α} {next : Nat → Word} {threads : Nat}
  {labels : List (Label n α)} {s : System n α}

/-- Where no word comes back that a call still has. -/
theorem sound_run (hunheld : Along step System.Unheld (start maxSize data next threads) labels)
    (h : exec step (start maxSize data next threads) labels = some s) : ∃ lines, Sound s lines :=
  exec_invariant_along (I := fun s => ∃ lines, Sound s lines)
    (fun _ _ _ => exists_sound_step)
    ⟨_, sound_start maxSize data next threads⟩ hunheld h

/-- Where the tags do not repeat. -/
theorem stamped_run (hfresh : Along step System.Fresh (start maxSize data next threads) labels)
    (h : exec step (start maxSize data next threads) labels = some s) :
    ∃ lines, Sound s lines ∧ Stamped s lines ∧ ∀ q, Accounted s q := by
  refine exec_invariant_along
    (I := fun s => ∃ lines, Sound s lines ∧ Stamped s lines ∧ ∀ q, Accounted s q)
    (fun s label u hinv hok hstep => ?_) ⟨_, sound_start maxSize data next threads, ⟨?_, ?_⟩,
      accounted_start maxSize data next threads⟩ hfresh h
  · obtain ⟨lines, hsound, hstamped, haccounted⟩ := hinv
    obtain ⟨lines', hsound', hsources⟩ := hsound.step (hstamped.unheld hok) hstep
    exact ⟨lines', hsound', hstamped.step hsources, fun q => (haccounted q).step hsound hstep⟩
  · intro q w hw
    rw [List.mem_singleton.mp hw]
    simp [start, made_eq, LFQueue.new]
  · intro q w hw
    have hhands : hands (held q) (List.replicate threads (.idle : Pc n α)) = [] :=
      hands_replicate rfl threads
    simp only [start, hhands] at hw
    exact absurd hw List.not_mem_nil

/-- **The queues are first-in first-out** where the tags do not repeat: the compare-exchange
that links the old tail succeeds; the compare-exchanges of the tail and the head are, in their
order, the history of a queue with the values that are between its head and its tail; so those
dequeued are the first of those enqueued, and the others are there.  The values enqueued are
those of all `Enqueue` calls but the ones that were refused and the ones in progress, and the
values dequeued are those that `Dequeue` calls have returned or are about to return. -/
theorem queue_run (hfresh : Along step System.Fresh (start maxSize data next threads) labels)
    (h : exec step (start maxSize data next threads) labels = some s) :
    (∀ (t : Nat) (q : Fin n) (w : Tagged) (realadr : Option Nat) (a : α),
      s.threads[t]? = some (.enqLink q w realadr a) →
      ∃ node, realadr = some node ∧ s.memory.next node = none) ∧
    ∀ q, (∃ l : Line, Chain (behind s q) (s.memory.queues q).head l.words ∧
        (s.memory.queues q).tail = some l.last ∧
        Fifo (s.memory.queues q).history (values s.memory l) ∧
        pushed (s.memory.queues q).history =
          popped (s.memory.queues q).history ++ values s.memory l) ∧
      (s.calls q).begun.Perm (pushed (s.memory.queues q).history ++ (s.calls q).refused ++
        hands (inProgress q) s.threads) ∧
      (popped (s.memory.queues q).history).Perm
        ((s.calls q).returned ++ hands (taken q) s.threads) := by
  obtain ⟨lines, hsound, -, haccounted⟩ := stamped_run hfresh h
  refine ⟨fun t q w realadr a ht => ?_, fun q => ⟨⟨lines q, hsound.chain q,
    (hsound.lined q).tail, (hsound.lined q).history, (hsound.lined q).history.eq⟩,
    (haccounted q).begun, (haccounted q).taken⟩⟩
  obtain ⟨hentering, v, rfl, hadjacent⟩ := hsound.knows t _ ht
  exact ⟨v.node, rfl, (hsound.lined q).next_none hadjacent hentering⟩

end

/-- An `LFQueue` and a `MAXLFQueue` of two.  The node that leaves the first, with the value that
is returned, enters the second, where the link is missing at the end. -/
def passOn : List (Label 2 Nat) :=
  [.enqueue 0 0 7, .step 0, .alloc 0 2] ++ List.replicate 6 (.step 0) ++ [.dequeue 1 0] ++
    List.replicate 8 (.step 1) ++ [.enqueue 0 1 8, .step 0, .alloc 0 0] ++
    List.replicate 4 (.step 0)

theorem passOn_run :
    ∃ s, exec step (start ![none, some 2] (fun _ => 0) (fun _ => none) 2) passOn = some s ∧
      s.calls 0 = ⟨[7], [], [7]⟩ ∧ s.calls 1 = ⟨[8], [], []⟩ ∧
      ∀ q, (∃ l : Line, Fifo (s.memory.queues q).history (values s.memory l) ∧
          pushed (s.memory.queues q).history =
            popped (s.memory.queues q).history ++ values s.memory l) ∧
        (s.calls q).begun.Perm (pushed (s.memory.queues q).history ++ (s.calls q).refused ++
          hands (inProgress q) s.threads) ∧
        (popped (s.memory.queues q).history).Perm
          ((s.calls q).returned ++ hands (taken q) s.threads) := by
  obtain ⟨s, hs, hfirst, hsecond⟩ :
      ∃ s ∈ exec step (start ![none, some 2] (fun _ => 0) (fun _ => none) 2) passOn,
        s.calls 0 = ⟨[7], [], [7]⟩ ∧ s.calls 1 = ⟨[8], [], []⟩ := by decide +kernel
  obtain ⟨-, hqueues⟩ := queue_run (by decide +kernel) hs
  refine ⟨s, hs, hfirst, hsecond, fun q => ?_⟩
  obtain ⟨⟨l, -, -, hfifo, heq⟩, hbegun, htaken⟩ := hqueues q
  exact ⟨⟨l, hfifo, heq⟩, hbegun, htaken⟩

end LFQueue

end SessionServer.Common
