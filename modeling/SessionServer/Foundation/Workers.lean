/-
  Foundation/Workers.lean --- workers on one queue.

  Anybody posts an entry; a worker takes the oldest one, and makes the calls it leads to
  one after the other, on a state all of them share and on locals of its own.  Some
  entries are stops: the worker that takes one ends.

  Entries are taken in the order they were posted.  For each that has been taken one worker
  has made its calls, or is making them, and as many workers have ended as stops were
  taken.  Once the stops in the queue are as many as the workers, every step of a worker
  brings the last stop nearer, whatever is posted behind it.

  Nothing here names the server.
-/
import SessionServer.Foundation.Run
import SessionServer.Foundation.Stacks

set_option autoImplicit false

namespace SessionServer.Foundation

/-! ## Pools -/

/-- What workers do: the calls an entry leads to, `none` for a stop, and one call. -/
structure WorkerProgram (σ ρ α β : Type) where
  dispatch : α → Option (List β)
  call : σ → ρ → β → σ × ρ
  /-- the locals of a worker that has just taken an entry -/
  fresh : ρ

/-- A worker that has not ended; it waits for an entry while it has no calls to make.  `made`
are the calls it has made for its last entry, with its locals at each. -/
structure Worker (ρ β : Type) where
  locals : ρ
  made : List (ρ × β)
  calls : List β
  deriving DecidableEq

/-- The shared state, the queue and the workers, `none` for one that has ended.  `posted`,
`taken` and `finished` record what was posted, what was taken, and the calls that were made
for each entry that is done with. -/
structure Pool (σ ρ α β : Type) where
  shared : σ
  queue : List α
  workers : List (Option (Worker ρ β))
  posted : List α
  taken : List α
  finished : List (List (ρ × β))

/-- What happens next. -/
inductive PoolStep (σ α : Type) where
  | post (entry : α)
  | take (t : Nat)
  | call (t : Nat)
  /-- another thread writes the shared state -/
  | write (shared : σ)

variable {σ ρ α β : Type}

namespace Pool

/-- Nothing is posted, and all workers wait. -/
def start (shared : σ) (locals : ρ) (n : Nat) : Pool σ ρ α β :=
  ⟨shared, [], List.replicate n (some ⟨locals, [], []⟩), [], [], []⟩

def post (s : Pool σ ρ α β) (entry : α) : Pool σ ρ α β :=
  { s with queue := s.queue ++ [entry], posted := s.posted ++ [entry] }

/-- A worker that has no more calls to make is done with its entry. -/
def settled (finished : List (List (ρ × β))) (worker : Worker ρ β) : List (List (ρ × β)) :=
  match worker.calls with
  | [] => finished ++ [worker.made]
  | _ :: _ => finished

def take (program : WorkerProgram σ ρ α β) (s : Pool σ ρ α β) (t : Nat) :
    Option (Pool σ ρ α β) :=
  match s.workers[t]?, s.queue with
  | some (some ⟨_, _, []⟩), entry :: rest =>
      let worker := (program.dispatch entry).map (Worker.mk program.fresh [])
      some { s with
        queue := rest
        taken := s.taken ++ [entry]
        workers := s.workers.set t worker
        finished := worker.elim s.finished (settled s.finished) }
  | _, _ => none

def call (program : WorkerProgram σ ρ α β) (s : Pool σ ρ α β) (t : Nat) :
    Option (Pool σ ρ α β) :=
  match s.workers[t]? with
  | some (some ⟨locals, made, call :: calls⟩) =>
      let next := program.call s.shared locals call
      let worker : Worker ρ β := ⟨next.2, made ++ [(locals, call)], calls⟩
      some { s with
        shared := next.1
        workers := s.workers.set t (some worker)
        finished := settled s.finished worker }
  | _ => none

/-- One step; `none` where it is not enabled. -/
def step (program : WorkerProgram σ ρ α β) (s : Pool σ ρ α β) :
    PoolStep σ α → Option (Pool σ ρ α β)
  | .post entry => some (s.post entry)
  | .take t => s.take program t
  | .call t => s.call program t
  | .write shared => some { s with shared := shared }

end Pool

namespace WorkerProgram

variable (program : WorkerProgram σ ρ α β)

/-- The worker that takes the entry ends. -/
def stops (entry : α) : Bool :=
  (program.dispatch entry).isNone

def callsOf (entry : α) : List β :=
  (program.dispatch entry).getD []

/-- The steps of workers an entry costs. -/
def cost (entry : α) : Nat :=
  1 + (program.callsOf entry).length

end WorkerProgram

/-- The calls a worker has still to make. -/
def Worker.pending : Option (Worker ρ β) → List β
  | some worker => worker.calls
  | none => []

/-- The calls of the entry a worker is busy with. -/
def Worker.works : Option (Worker ρ β) → List (List β)
  | some ⟨_, made, call :: calls⟩ => [made.map Prod.snd ++ call :: calls]
  | some ⟨_, _, []⟩ => []
  | none => []

namespace Pool

def pending (s : Pool σ ρ α β) : List β :=
  s.workers.flatMap Worker.pending

/-- The workers that have ended. -/
def ended (s : Pool σ ρ α β) : Nat :=
  s.workers.countP Option.isNone

end Pool

/-! ## What a step does -/

variable {program : WorkerProgram σ ρ α β} {s s' : Pool σ ρ α β} {t : Nat}

/-- The worker waits, and the oldest entry becomes its work. -/
theorem Pool.take_cases (h : s.take program t = some s') :
    ∃ locals made entry rest worker, s.workers[t]? = some (some ⟨locals, made, []⟩) ∧
      s.queue = entry :: rest ∧
      worker = (program.dispatch entry).map (Worker.mk program.fresh []) ∧
      s' = { s with
        queue := rest
        taken := s.taken ++ [entry]
        workers := s.workers.set t worker
        finished := worker.elim s.finished (settled s.finished) } := by
  simp only [take] at h
  split at h
  · rename_i locals made entry rest hworker hqueue
    exact ⟨locals, made, entry, rest, _, hworker, hqueue, rfl, (Option.some.inj h).symm⟩
  · exact absurd h (by simp)

/-- The worker makes its next call. -/
theorem Pool.call_cases (h : s.call program t = some s') :
    ∃ locals made call calls worker, s.workers[t]? = some (some ⟨locals, made, call :: calls⟩) ∧
      worker = ⟨(program.call s.shared locals call).2, made ++ [(locals, call)], calls⟩ ∧
      s' = { s with
        shared := (program.call s.shared locals call).1
        workers := s.workers.set t (some worker)
        finished := settled s.finished worker } := by
  simp only [Pool.call] at h
  split at h
  · rename_i locals made call calls hworker
    exact ⟨locals, made, call, calls, _, hworker, rfl, (Option.some.inj h).symm⟩
  · exact absurd h (by simp)

/-- What is done with and what a worker is busy with, together. -/
theorem Pool.settled_works (finished : List (List (ρ × β))) (worker : Worker ρ β) :
    ((settled finished worker).map (List.map Prod.snd) ++ Worker.works (some worker)) =
      finished.map (List.map Prod.snd) ++ [worker.made.map Prod.snd ++ worker.calls] := by
  obtain ⟨locals, made, calls⟩ := worker
  cases calls with
  | nil => simp [settled, Worker.works]
  | cons call calls => rfl

/-- Replacing one element changes a concatenation by what the two contribute. -/
theorem flatMap_set_perm {γ : Type} (f : α → List γ) {l : List α} {i : Nat} {a : α} (b : α)
    (h : l[i]? = some a) : ((l.set i b).flatMap f ++ f a).Perm (l.flatMap f ++ f b) := by
  induction l generalizing i with
  | nil => simp at h
  | cons c l ih =>
      cases i with
      | zero =>
          simp only [List.getElem?_cons_zero, Option.some.injEq] at h
          subst h
          simp only [List.set_cons_zero, List.flatMap_cons]
          rw [List.append_assoc (f c)]
          exact List.perm_append_comm.trans (List.perm_append_comm.append_left (f c))
      | succ i =>
          have hrest := ih (by simpa using h)
          simp only [List.set_cons_succ, List.flatMap_cons, List.append_assoc]
          exact hrest.append_left (f c)

/-- Replacing one element changes a count by the difference of the two. -/
theorem countP_set_add {p : α → Bool} {l : List α} {i : Nat} {a : α} (b : α)
    (h : l[i]? = some a) :
    (l.set i b).countP p + [a].countP p = l.countP p + [b].countP p := by
  have hsum := sum_map_set (fun x => [x].countP p) b h
  have hcount : ∀ l : List α, (l.map fun x => [x].countP p).sum = l.countP p := by
    intro l
    induction l with
    | nil => rfl
    | cons c l ih => rw [List.map_cons, List.sum_cons, ih, ← List.countP_append, List.singleton_append]
  rwa [hcount, hcount] at hsum

/-! ## What every run keeps -/

/-- First in, first out; the calls of what was taken have been made, or one worker is at them;
and the stops that were taken have ended as many workers, the last of them as the last thing
taken. -/
structure Pool.Kept (program : WorkerProgram σ ρ α β) (n : Nat) (s : Pool σ ρ α β) : Prop where
  fifo : s.posted = s.taken ++ s.queue
  made : (s.finished.map (List.map Prod.snd) ++ s.workers.flatMap Worker.works).Perm
    (s.taken.filterMap program.dispatch)
  ended : s.ended = s.taken.countP program.stops
  workers : s.workers.length = n
  last : ∀ entry ∈ s.taken.getLast?, program.stops entry = false → ∃ w, some w ∈ s.workers

theorem Pool.kept_start (shared : σ) (locals : ρ) (n : Nat) :
    (start shared locals n : Pool σ ρ α β).Kept program n := by
  refine ⟨rfl, ?_, ?_, List.length_replicate, ?_⟩
  · have hworks : (start shared locals n : Pool σ ρ α β).workers.flatMap Worker.works = [] := by
      refine List.flatMap_eq_nil_iff.mpr fun worker hworker => ?_
      rw [(List.mem_replicate.mp hworker).2]
      rfl
    rw [hworks]
    exact List.Perm.refl []
  · refine List.countP_eq_zero.mpr fun worker hworker => ?_
    rw [(List.mem_replicate.mp hworker).2]
    simp
  · intro entry hentry
    exact absurd hentry (by simp [start])

/-- What is done with and what is at work, once one worker has become another. -/
theorem perm_of_moved {γ : Type} {done done' works works' old new more : List γ}
    (hset : (works' ++ old).Perm (works ++ new))
    (hmove : (done' ++ new).Perm (done ++ old ++ more)) :
    (done' ++ works').Perm (done ++ works ++ more) := by
  classical
  rw [List.perm_iff_count] at hset hmove ⊢
  intro a
  have hset := hset a
  have hmove := hmove a
  simp only [List.count_append] at hset hmove ⊢
  omega

/-- A worker takes an entry. -/
theorem Pool.Kept.take {n : Nat} (h : s.Kept program n) (hstep : s.take program t = some s') :
    s'.Kept program n := by
  obtain ⟨locals, made, entry, rest, worker, hworker, hqueue, hentry, rfl⟩ := take_cases hstep
  have hlt := (List.getElem?_eq_some_iff.mp hworker).1
  refine ⟨?_, ?_, ?_, ?_, ?_⟩
  · rw [h.fifo, hqueue, List.append_assoc, List.singleton_append]
  · -- The calls of the entry are the new work.
    have hset := flatMap_set_perm Worker.works worker hworker
    rw [List.filterMap_append]
    refine (perm_of_moved hset ?_).trans (h.made.append_right _)
    cases hdispatch : program.dispatch entry with
    | none =>
        rw [hdispatch] at hentry
        subst hentry
        exact List.Perm.of_eq (by simp [Worker.works, hdispatch])
    | some calls =>
        rw [hdispatch] at hentry
        subst hentry
        have hsettled := settled_works s.finished (Worker.mk program.fresh [] calls)
        exact List.Perm.of_eq (by simpa [Worker.works, hdispatch] using hsettled)
  · have hset := countP_set_add (p := Option.isNone) worker hworker
    have hstop : [worker].countP Option.isNone = [entry].countP program.stops := by
      simp [hentry, List.countP_cons, WorkerProgram.stops]
    have hended : s.workers.countP Option.isNone = s.taken.countP program.stops := h.ended
    have hnone : [some (Worker.mk locals made ([] : List β))].countP Option.isNone = 0 := rfl
    rw [hnone, hstop, hended, Nat.add_zero] at hset
    rw [List.countP_append]
    exact hset
  · exact List.length_set.trans h.workers
  · intro last hlast hstop
    rw [List.getLast?_append, List.getLast?_singleton] at hlast
    obtain rfl : entry = last := by simpa using hlast
    obtain ⟨calls, hcalls⟩ := Option.isSome_iff_exists.mp
      (by simpa [WorkerProgram.stops] using hstop : (program.dispatch entry).isSome = true)
    refine ⟨⟨program.fresh, [], calls⟩, ?_⟩
    rw [hcalls] at hentry
    exact hentry ▸ List.mem_set hlt _

/-- A worker makes a call. -/
theorem Pool.Kept.call {n : Nat} (h : s.Kept program n) (hstep : s.call program t = some s') :
    s'.Kept program n := by
  obtain ⟨locals, made, call, calls, worker, hworker, hnext, rfl⟩ := call_cases hstep
  have hlt := (List.getElem?_eq_some_iff.mp hworker).1
  refine ⟨h.fifo, ?_, ?_, List.length_set.trans h.workers, ?_⟩
  · -- The work stays the same, until it is done with.
    have hset := flatMap_set_perm Worker.works (some worker) hworker
    have hsettled := settled_works s.finished worker
    have hwork : worker.made.map Prod.snd ++ worker.calls = made.map Prod.snd ++ call :: calls := by
      simp [hnext]
    rw [hwork] at hsettled
    have hmove : (s.finished.map (List.map Prod.snd) ++
        [made.map Prod.snd ++ call :: calls] ++ []) = _ := List.append_nil _
    have hmade := perm_of_moved hset (List.Perm.of_eq (hsettled.trans hmove.symm))
    rw [List.append_nil] at hmade
    exact hmade.trans h.made
  · have hset := countP_set_add (p := Option.isNone) (some worker) hworker
    exact (Nat.add_right_cancel hset).trans h.ended
  · intro _ _ _
    exact ⟨_, List.mem_set hlt _⟩

theorem Pool.Kept.step {n : Nat} {label : PoolStep σ α} (h : s.Kept program n)
    (hstep : s.step program label = some s') : s'.Kept program n := by
  cases label with
  | post entry =>
      obtain rfl := Option.some.inj hstep
      refine ⟨?_, h.made, h.ended, h.workers, h.last⟩
      rw [post, h.fifo, List.append_assoc]
  | take t => exact h.take hstep
  | call t => exact h.call hstep
  | write shared =>
      obtain rfl := Option.some.inj hstep
      exact ⟨h.fifo, h.made, h.ended, h.workers, h.last⟩

/-- A worker that has ended stays so. -/
theorem Pool.Kept.ended_mono {n : Nat} {label : PoolStep σ α} (h : s.Kept program n)
    (hstep : s.step program label = some s') : s.ended ≤ s'.ended := by
  rw [h.ended, (h.step hstep).ended]
  cases label with
  | post entry =>
      obtain rfl := Option.some.inj hstep
      exact Nat.le_refl _
  | take t =>
      obtain ⟨_, _, entry, _, _, _, _, _, rfl⟩ := take_cases hstep
      exact (List.sublist_append_left _ _).countP_le
  | call t =>
      obtain ⟨_, _, _, _, _, _, _, rfl⟩ := call_cases hstep
      exact Nat.le_refl _
  | write shared =>
      obtain rfl := Option.some.inj hstep
      exact Nat.le_refl _

theorem Pool.Kept.ended_le {n : Nat} (h : s.Kept program n) : s.ended ≤ n :=
  h.workers ▸ List.countP_le_length

/-- A worker that has not ended is missing from the count. -/
theorem Pool.Kept.ended_lt {n : Nat} (h : s.Kept program n) :
    s.ended < n ↔ ∃ w, some w ∈ s.workers := by
  constructor
  · intro hlt
    by_contra hnone
    have hall : s.workers.countP Option.isNone = s.workers.length := by
      refine List.countP_eq_length.mpr fun worker hworker => ?_
      cases worker with
      | none => rfl
      | some w => exact absurd ⟨w, hworker⟩ hnone
    exact absurd (hall.trans h.workers) (Nat.ne_of_lt hlt)
  · rintro ⟨w, hw⟩
    refine Nat.lt_of_le_of_ne h.ended_le fun heq => ?_
    have hall := List.countP_eq_length.mp (heq.trans h.workers.symm) (some w) hw
    exact absurd hall (by simp)

/-- The stops that are still in the queue are the ones the running workers wait for. -/
theorem Pool.Kept.stops_queue {n : Nat} (h : s.Kept program n) :
    s.queue.countP program.stops + s.ended = s.posted.countP program.stops := by
  rw [h.fifo, List.countP_append, h.ended, Nat.add_comm]

/-- **Once all workers have ended**, the calls of everything taken have been made, and the last
thing taken was a stop. -/
theorem Pool.Kept.returned {n : Nat} (h : s.Kept program n) (hall : s.ended = n) :
    (s.finished.map (List.map Prod.snd)).Perm (s.taken.filterMap program.dispatch) ∧
      ∀ entry ∈ s.taken.getLast?, program.stops entry = true := by
  have hnone : ∀ w, some w ∉ s.workers := fun w hw =>
    absurd hall (Nat.ne_of_lt (h.ended_lt.mpr ⟨w, hw⟩))
  constructor
  · have hworks : s.workers.flatMap Worker.works = [] := by
      refine List.flatMap_eq_nil_iff.mpr fun worker hworker => ?_
      cases worker with
      | none => rfl
      | some w => exact absurd hworker (hnone w)
    have hmade := h.made
    rwa [hworks, List.append_nil] at hmade
  · intro entry hentry
    by_contra hstop
    obtain ⟨w, hw⟩ := h.last entry hentry (Bool.not_eq_true _ ▸ hstop)
    exact hnone w hw

/-! ## The way to the last stop -/

/-- The queue up to its last stop. -/
def Pool.ahead (program : WorkerProgram σ ρ α β) (s : Pool σ ρ α β) : List α :=
  s.queue.rdropWhile fun entry => !program.stops entry

/-- The steps of workers until the last stop in the queue has been taken. -/
def Pool.left (program : WorkerProgram σ ρ α β) (s : Pool σ ρ α β) : Nat :=
  ((s.ahead program).map program.cost).sum + s.pending.length

/-- What stands in front of the last entry of a kind stays there. -/
theorem rdropWhile_cons {p : α → Bool} {a : α} : ∀ {l : List α}, (∃ x ∈ a :: l, p x = false) →
    (a :: l).rdropWhile p = a :: l.rdropWhile p := by
  intro l
  induction l using List.reverseRecOn with
  | nil =>
      rintro ⟨x, hx, hp⟩
      rw [List.mem_singleton] at hx
      subst hx
      rw [List.rdropWhile_singleton, hp, List.rdropWhile_nil]
      rfl
  | append_singleton l b ih =>
      intro hex
      rw [← List.cons_append]
      by_cases hb : p b = true
      · rw [List.rdropWhile_concat_pos p _ b hb, List.rdropWhile_concat_pos p _ b hb]
        obtain ⟨x, hx, hp⟩ := hex
        refine ih ⟨x, ?_, hp⟩
        rcases List.mem_append.mp (List.cons_append ▸ hx) with hin | hlast
        · exact hin
        · rw [List.mem_singleton.mp hlast, hb] at hp
          exact absurd hp (by simp)
      · rw [List.rdropWhile_concat_neg p _ b hb, List.rdropWhile_concat_neg p _ b hb]
        rfl

/-- The calls a worker has after it has taken an entry. -/
theorem WorkerProgram.pending_dispatch (entry : α) :
    Worker.pending ((program.dispatch entry).map (Worker.mk program.fresh [])) =
      program.callsOf entry := by
  rw [WorkerProgram.callsOf]
  cases program.dispatch entry with
  | none => rfl
  | some calls => rfl

/-- The step of a worker. -/
def PoolStep.works {σ α : Type} : PoolStep σ α → Bool
  | .post _ => false
  | .take _ => true
  | .call _ => true
  | .write _ => false

/-- A worker that takes an entry has calls to make instead. -/
theorem Pool.left_take {n : Nat} (h : s.Kept program n) (hposted : s.posted.countP program.stops = n)
    (hstep : s.take program t = some s') : s'.left program + 1 = s.left program := by
  obtain ⟨_, _, entry, rest, worker, hworker, hqueue, hentry, rfl⟩ := take_cases hstep
  -- A worker that runs has a stop in the queue.
  have hrunning : s.ended < n := h.ended_lt.mpr ⟨_, List.mem_of_getElem? hworker⟩
  have hstops := h.stops_queue
  have hin : ∃ x ∈ entry :: rest, (!program.stops x) = false := by
    obtain ⟨x, hx, hstop⟩ := List.countP_pos_iff.mp
      (by omega : 0 < s.queue.countP program.stops)
    exact ⟨x, hqueue ▸ hx, by simp [hstop]⟩
  have hahead : s.ahead program = entry :: rest.rdropWhile fun entry => !program.stops entry := by
    rw [ahead, hqueue, rdropWhile_cons hin]
  have hpending := (flatMap_set_perm Worker.pending worker hworker).length_eq
  rw [hentry, WorkerProgram.pending_dispatch, Worker.pending, List.append_nil, List.length_append,
    ← hentry] at hpending
  simp only [left, hahead, List.map_cons, List.sum_cons, WorkerProgram.cost]
  simp only [ahead, pending]
  omega

/-- A worker that makes a call has one less to make. -/
theorem Pool.left_call (hstep : s.call program t = some s') :
    s'.left program + 1 = s.left program := by
  obtain ⟨_, _, call, calls, worker, hworker, hnext, rfl⟩ := call_cases hstep
  have hcalls : worker.calls = calls := by rw [hnext]
  have hpending := (flatMap_set_perm Worker.pending (some worker) hworker).length_eq
  simp only [List.length_append, Worker.pending, hcalls, List.length_cons] at hpending
  simp only [left, ahead, pending]
  omega

/-- Behind the stops, posting changes nothing. -/
theorem Pool.left_post {entry : α} (hentry : program.stops entry = false) :
    (s.post entry).left program = s.left program := by
  have hahead : (s.post entry).ahead program = s.ahead program :=
    List.rdropWhile_concat_pos _ _ _ (by simp [hentry])
  rw [left, hahead]
  rfl

/-- A step of a worker is one less to come, and the others leave it at that. -/
theorem Pool.left_step {n : Nat} {label : PoolStep σ α} (h : s.Kept program n)
    (hposted : s.posted.countP program.stops = n)
    (hother : ∀ entry, label = .post entry → program.stops entry = false)
    (hstep : s.step program label = some s') :
    s'.posted.countP program.stops = n ∧
      [label].countP PoolStep.works + s'.left program = s.left program := by
  cases label with
  | post entry =>
      obtain rfl := Option.some.inj hstep
      have hentry := hother entry rfl
      refine ⟨?_, (Nat.zero_add _).trans (left_post hentry)⟩
      rw [post, List.countP_append, hposted]
      simp [hentry]
  | take t =>
      have hleft := left_take h hposted hstep
      obtain ⟨_, _, _, _, _, _, _, _, rfl⟩ := take_cases hstep
      exact ⟨hposted, (Nat.add_comm _ _).trans hleft⟩
  | call t =>
      have hleft := left_call hstep
      obtain ⟨_, _, _, _, _, _, _, rfl⟩ := call_cases hstep
      exact ⟨hposted, (Nat.add_comm _ _).trans hleft⟩
  | write shared =>
      obtain rfl := Option.some.inj hstep
      exact ⟨hposted, Nat.zero_add _⟩

/-- **The way to the end.**  Once as many stops are posted as there are workers, the steps the
workers have left are fixed, whatever else happens. -/
theorem Pool.left_run {n : Nat} :
    ∀ {labels : List (PoolStep σ α)} {s s' : Pool σ ρ α β}, s.Kept program n →
      s.posted.countP program.stops = n →
      (∀ entry, PoolStep.post entry ∈ labels → program.stops entry = false) →
      exec (step program) s labels = some s' →
      labels.countP PoolStep.works + s'.left program = s.left program := by
  intro labels
  induction labels with
  | nil =>
      intro s s' _ _ _ hrun
      obtain rfl := Option.some.inj hrun
      exact Nat.zero_add _
  | cons label labels ih =>
      intro s s' h hposted hothers hrun
      obtain ⟨mid, hmid, hrest⟩ := exec_cons_eq_some.mp hrun
      have hlater : ∀ entry, PoolStep.post entry ∈ labels → program.stops entry = false :=
        fun entry hentry => hothers entry (List.mem_cons_of_mem _ hentry)
      have hstep := left_step h hposted
        (fun entry hentry => hothers entry (hentry ▸ List.mem_cons_self)) hmid
      have hwhole := ih (h.step hmid) hstep.1 hlater hrest
      rw [← List.singleton_append, List.countP_append, ← hstep.2, ← hwhole, Nat.add_assoc]

/-- While a worker runs and its stop is in the queue, one of the workers can move. -/
theorem Pool.Kept.enabled {n : Nat} (h : s.Kept program n)
    (hposted : s.posted.countP program.stops = n) (hrunning : s.ended < n) :
    ∃ t, (s.take program t).isSome = true ∨ (s.call program t).isSome = true := by
  obtain ⟨⟨locals, made, calls⟩, hw⟩ := h.ended_lt.mp hrunning
  obtain ⟨t, hworker⟩ := List.mem_iff_getElem?.mp hw
  refine ⟨t, ?_⟩
  cases calls with
  | nil =>
      have hstops := h.stops_queue
      obtain ⟨entry, hentry, _⟩ := List.countP_pos_iff.mp
        (by omega : 0 < s.queue.countP program.stops)
      obtain ⟨first, rest, hqueue⟩ := List.exists_cons_of_ne_nil (List.ne_nil_of_mem hentry)
      left
      rw [Pool.take, hworker, hqueue]
      rfl
  | cons call calls =>
      right
      rw [Pool.call, hworker]
      rfl

/-- Workers with no step left have ended. -/
theorem Pool.Kept.ended_of_left {n : Nat} (h : s.Kept program n)
    (hposted : s.posted.countP program.stops = n) (hleft : s.left program = 0) : s.ended = n := by
  by_contra hne
  obtain ⟨t, htake | hcall⟩ := h.enabled hposted (Nat.lt_of_le_of_ne h.ended_le hne)
  · obtain ⟨s', hs'⟩ := Option.isSome_iff_exists.mp htake
    have hlater := left_take h hposted hs'
    omega
  · obtain ⟨s', hs'⟩ := Option.isSome_iff_exists.mp hcall
    have hlater := left_call hs'
    omega

end SessionServer.Foundation
