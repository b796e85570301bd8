/-
  ContentLib/WorkerThread.lean --- the completion port and the workers on it.

  What is posted to the port is three words and whether the I/O succeeded: a stop, a
  release, a send, an event of a contents, or a finished I/O.  `WorkerThread` tells them
  apart by comparing the words.  Any thread posts at any time; a worker looks up a contents
  under the lock of the map and calls its handler after that, so the handlers of two events
  may run in either order.

  `StopWorkerThread` posts as many stops as there are workers and waits for them.
-/
import SessionServer.Foundation.Workers

set_option autoImplicit false

namespace SessionServer.ContentLib

open SessionServer.Foundation

/-! ## The dispatch -/

/-- What `GetQueuedCompletionStatus` returns and hands out. -/
structure Completion where
  gqcsretval : Bool
  cbTransferred : UInt32
  tgt : UInt64
  myoverlapped : UInt64
  deriving DecidableEq

/-- What a worker does next.  A handler is called on the contents that was found. -/
inductive WorkerCall where
  /-- `_contentsMap.find`, under `_mapKey` -/
  | find (contentsNum : Int32)
  | onEnter (sessionID : Int64)
  | onLeave (sessionID : Int64)
  | onUpdate
  | onShutDown
  | release (tgt : UInt64)
  | sendPost (tgt : UInt64)
  /-- `_firstRecv` and `_time` -/
  | arrived (tgt : UInt64)
  | recvCompletion (tgt : UInt64) (cbTransferred : UInt32)
  | recvPost (tgt : UInt64)
  | sendCompletion (tgt : UInt64) (cbTransferred : UInt32)
  | resetSendFlag (tgt : UInt64)
  /-- the decrement of `_ioCount`, and the release it may lead to -/
  | dropReference (tgt : UInt64)
  deriving DecidableEq

/-- One pass of `WorkerThread`; `none` where it returns.  `type` reads `_type`. -/
def workerThread (type : UInt64 → Bool) (c : Completion) : Option (List WorkerCall) :=
  if c.cbTransferred = 0 ∧ c.tgt = 0 ∧ c.myoverlapped = 0 then none
  else
    let release :=
      if c.gqcsretval ∧ c.cbTransferred = 1 ∧ c.tgt ≠ 0 ∧ c.myoverlapped = 0 then
        [WorkerCall.release c.tgt]
      else []
    let sendPost :=
      if c.gqcsretval ∧ c.cbTransferred = 2 ∧ c.tgt ≠ 0 ∧ c.myoverlapped = 0 then
        [WorkerCall.sendPost c.tgt]
      else []
    -- These two do not `continue`.
    some (release ++ sendPost ++
      if c.gqcsretval ∧ c.myoverlapped = 101 then
        [.find c.cbTransferred.toInt32, .onEnter c.tgt.toInt64]
      else if c.gqcsretval ∧ c.myoverlapped = 102 then
        [.find c.cbTransferred.toInt32, .onLeave c.tgt.toInt64]
      else if c.gqcsretval ∧ c.myoverlapped = 103 then
        [.find c.cbTransferred.toInt32, .onUpdate]
      else if c.gqcsretval ∧ c.myoverlapped = 104 then
        [.find c.cbTransferred.toInt32, .onShutDown]
      else if !c.gqcsretval ∨ c.cbTransferred = 0 then
        [.dropReference c.tgt]
      else if c.myoverlapped ≠ 0 then
        (if type c.myoverlapped = false then
          [.arrived c.tgt, .recvCompletion c.tgt c.cbTransferred, .recvPost c.tgt]
        else []) ++
        (if type c.myoverlapped = true then
          [.sendCompletion c.tgt c.cbTransferred, .resetSendFlag c.tgt, .sendPost c.tgt]
        else []) ++
        [.dropReference c.tgt]
      else [])

/-! ## What is posted -/

/-- What is posted to the port, apart from stops. -/
inductive Posted (maxUser : Nat) where
  | release (i : Fin maxUser)
  | sendPost (i : Fin maxUser)
  /-- `InsertToContents` -/
  | enter (sessionID : Int64) (contentsNum : Int32)
  /-- `DeleteFromContents` -/
  | leave (sessionID : Int64) (contentsNum : Int32)
  /-- `FrameScheduler` -/
  | update (contentsNum : Int32)
  /-- `PostQueueContentsShutDown` -/
  | shutDown (contentsNum : Int32)
  /-- a receive has ended -/
  | received (i : Fin maxUser) (succeeded : Bool) (cbTransferred : UInt32)
  /-- a send has ended -/
  | sent (i : Fin maxUser) (succeeded : Bool) (cbTransferred : UInt32)
  deriving DecidableEq

/-- Where the sessions and their `myOverlapped`s lie.  No session lies at the null pointer, no
`myOverlapped` where the codes of the events are. -/
structure Layout (maxUser : Nat) where
  session : Fin maxUser → UInt64
  recvOverlapped : Fin maxUser → UInt64
  sendOverlapped : Fin maxUser → UInt64
  type : UInt64 → Bool
  session_ne : ∀ i, session i ≠ 0
  recvOverlapped_gt : ∀ i, 104 < recvOverlapped i
  sendOverlapped_gt : ∀ i, 104 < sendOverlapped i
  type_recvOverlapped : ∀ i, type (recvOverlapped i) = false
  type_sendOverlapped : ∀ i, type (sendOverlapped i) = true

variable {maxUser : Nat} (layout : Layout maxUser)

/-- What `StopWorkerThread` posts. -/
def stopCompletion : Completion := ⟨true, 0, 0, 0⟩

namespace Layout

/-- The words of a message. -/
def completion : Posted maxUser → Completion
  | .release i => ⟨true, 1, layout.session i, 0⟩
  | .sendPost i => ⟨true, 2, layout.session i, 0⟩
  | .enter sessionID contentsNum => ⟨true, contentsNum.toUInt32, sessionID.toUInt64, 101⟩
  | .leave sessionID contentsNum => ⟨true, contentsNum.toUInt32, sessionID.toUInt64, 102⟩
  | .update contentsNum => ⟨true, contentsNum.toUInt32, contentsNum.toInt64.toUInt64, 103⟩
  | .shutDown contentsNum => ⟨true, contentsNum.toUInt32, 0, 104⟩
  | .received i succeeded cbTransferred =>
      ⟨succeeded, cbTransferred, layout.session i, layout.recvOverlapped i⟩
  | .sent i succeeded cbTransferred =>
      ⟨succeeded, cbTransferred, layout.session i, layout.sendOverlapped i⟩

/-- What a message asks for. -/
def meaning : Posted maxUser → List WorkerCall
  | .release i => [.release (layout.session i)]
  | .sendPost i => [.sendPost (layout.session i)]
  | .enter sessionID contentsNum => [.find contentsNum, .onEnter sessionID]
  | .leave sessionID contentsNum => [.find contentsNum, .onLeave sessionID]
  | .update contentsNum => [.find contentsNum, .onUpdate]
  | .shutDown contentsNum => [.find contentsNum, .onShutDown]
  | .received i succeeded cbTransferred =>
      if succeeded = true ∧ cbTransferred ≠ 0 then
        [.arrived (layout.session i), .recvCompletion (layout.session i) cbTransferred,
          .recvPost (layout.session i), .dropReference (layout.session i)]
      else [.dropReference (layout.session i)]
  | .sent i succeeded cbTransferred =>
      if succeeded = true ∧ cbTransferred ≠ 0 then
        [.sendCompletion (layout.session i) cbTransferred, .resetSendFlag (layout.session i),
          .sendPost (layout.session i), .dropReference (layout.session i)]
      else [.dropReference (layout.session i)]

/-- A stop, or a message. -/
def entry (posted : Option (Posted maxUser)) : Completion :=
  posted.elim stopCompletion layout.completion

end Layout

theorem workerThread_stop : workerThread layout.type stopCompletion = none := rfl

/-- A finished I/O is none of the other things. -/
theorem workerThread_io {succeeded : Bool} {cbTransferred : UInt32} {tgt myoverlapped : UInt64}
    (htgt : tgt ≠ 0) (hfar : 104 < myoverlapped) :
    workerThread layout.type ⟨succeeded, cbTransferred, tgt, myoverlapped⟩ =
      some (if succeeded = true ∧ cbTransferred ≠ 0 then
        (if layout.type myoverlapped = false then
          [.arrived tgt, .recvCompletion tgt cbTransferred, .recvPost tgt]
        else [.sendCompletion tgt cbTransferred, .resetSendFlag tgt, .sendPost tgt]) ++
          [.dropReference tgt]
      else [.dropReference tgt]) := by
  have hcode : ∀ code : UInt64, code ≤ 104 → myoverlapped ≠ code := by
    rintro code hcode rfl
    exact absurd hfar (UInt64.not_lt.mpr hcode)
  have h0 := hcode 0 (by decide)
  have h101 := hcode 101 (by decide)
  have h102 := hcode 102 (by decide)
  have h103 := hcode 103 (by decide)
  have h104 := hcode 104 (by decide)
  simp only [workerThread, htgt, h0, h101, h102, h103, h104]
  cases succeeded with
  | false => simp
  | true =>
      by_cases hzero : cbTransferred = 0
      · simp [hzero]
      · cases htype : layout.type myoverlapped with
        | false => simp [hzero, h0]
        | true => simp [hzero, h0]

/-- **The words tell.**  `WorkerThread` does what the message asks for. -/
theorem workerThread_completion (posted : Posted maxUser) :
    workerThread layout.type (layout.completion posted) = some (layout.meaning posted) := by
  cases posted with
  | release i =>
      have hne := layout.session_ne i
      simp [workerThread, Layout.completion, Layout.meaning, hne]
  | sendPost i =>
      have hne := layout.session_ne i
      simp [workerThread, Layout.completion, Layout.meaning, hne]
  | enter sessionID contentsNum => simp [workerThread, Layout.completion, Layout.meaning]
  | leave sessionID contentsNum => simp [workerThread, Layout.completion, Layout.meaning]
  | update contentsNum => simp [workerThread, Layout.completion, Layout.meaning]
  | shutDown contentsNum => simp [workerThread, Layout.completion, Layout.meaning]
  | received i succeeded cbTransferred =>
      rw [Layout.completion, workerThread_io layout (layout.session_ne i) (layout.recvOverlapped_gt i),
        layout.type_recvOverlapped]
      rfl
  | sent i succeeded cbTransferred =>
      rw [Layout.completion, workerThread_io layout (layout.session_ne i) (layout.sendOverlapped_gt i),
        layout.type_sendOverlapped]
      rfl

/-! ## The port -/

/-- The worker threads: they share `_contentsMap`, from numbers to contents objects, and each has
the pointer it has found there. -/
def workerProgram : WorkerProgram (Int32 → Option Nat) (Option Nat) Completion WorkerCall where
  dispatch := workerThread layout.type
  call contentsMap contents
    | .find contentsNum => (contentsMap, contentsMap contentsNum)
    | _ => (contentsMap, contents)
  fresh := none

/-- Where `StopWorkerThread` is: not called, in its loop, or returned from its wait. -/
inductive StopPc where
  | idle
  | posting (i : Nat)
  | closed
  deriving DecidableEq

/-- `_hcp`, the threads on it, `_contentsMap`, and the thread that stops them. -/
structure Port where
  pool : Pool (Int32 → Option Nat) (Option Nat) Completion WorkerCall
  stop : StopPc

/-- What happens next. -/
inductive PortStep (maxUser : Nat) where
  /-- any thread, or the system, posts -/
  | post (posted : Posted maxUser)
  /-- `GetQueuedCompletionStatus` of a worker returns -/
  | take (t : Nat)
  | call (t : Nat)
  | registerContents (contentsNum : Int32) (contents : Nat)
  | deregisterContents (contentsNum : Int32)
  | stopWorkerThread
  /-- `StopWorkerThread` posts its next stop -/
  | postStop
  /-- its wait returns -/
  | close
  deriving DecidableEq

namespace Port

/-- The port as `Network` leaves it. -/
def started (contentsMap : Int32 → Option Nat) (threads : Nat) : Port :=
  ⟨.start contentsMap none threads, .idle⟩

def registerContents (contentsMap : Int32 → Option Nat) (contentsNum : Int32) (contents : Nat) :
    Int32 → Option Nat :=
  Function.update contentsMap contentsNum (some ((contentsMap contentsNum).getD contents))

def deregisterContents (contentsMap : Int32 → Option Nat) (contentsNum : Int32) :
    Int32 → Option Nat :=
  Function.update contentsMap contentsNum none

/-- One step; `none` where it is not enabled. -/
def step (s : Port) : PortStep maxUser → Option Port
  | .post posted => some { s with pool := s.pool.post (layout.completion posted) }
  | .take t => (s.pool.take (workerProgram layout) t).map fun pool => { s with pool := pool }
  | .call t => (s.pool.call (workerProgram layout) t).map fun pool => { s with pool := pool }
  | .registerContents contentsNum contents =>
      some { s with
        pool.shared := registerContents s.pool.shared contentsNum contents }
  | .deregisterContents contentsNum =>
      some { s with pool.shared := deregisterContents s.pool.shared contentsNum }
  | .stopWorkerThread => if s.stop = .idle then some { s with stop := .posting 0 } else none
  | .postStop =>
      match s.stop with
      | .posting i =>
          if i < s.pool.workers.length then
            some ⟨s.pool.post stopCompletion, .posting (i + 1)⟩
          else none
      | _ => none
  | .close =>
      match s.stop with
      | .posting i =>
          if i < s.pool.workers.length ∨ s.pool.ended < s.pool.workers.length then none
          else some { s with stop := .closed }
      | _ => none

/-- What a step is for the pool. -/
def poolSteps (s : Port) : PortStep maxUser → List (PoolStep (Int32 → Option Nat) Completion)
  | .post posted => [.post (layout.completion posted)]
  | .take t => [.take t]
  | .call t => [.call t]
  | .registerContents contentsNum contents =>
      [.write (registerContents s.pool.shared contentsNum contents)]
  | .deregisterContents contentsNum => [.write (deregisterContents s.pool.shared contentsNum)]
  | .postStop => [.post stopCompletion]
  | .stopWorkerThread => []
  | .close => []

end Port

/-- The messages and stops of a run, in the order they were posted; a stop is `none`. -/
def posts : List (PortStep maxUser) → List (Option (Posted maxUser))
  | [] => []
  | .post posted :: steps => some posted :: posts steps
  | .postStop :: steps => none :: posts steps
  | _ :: steps => posts steps

/-- The stops `StopWorkerThread` has posted to `n` workers. -/
def StopPc.posted (n : Nat) : StopPc → Nat
  | .idle => 0
  | .posting i => i
  | .closed => n

variable {layout}
variable {s s' : Port} {label : PortStep maxUser} {n : Nat}

/-- **The port is a pool of workers.** -/
theorem Port.step_refines (h : s.step layout label = some s') :
    exec (Pool.step (workerProgram layout)) s.pool (s.poolSteps layout label) = some s'.pool := by
  cases label with
  | post posted =>
      obtain rfl := Option.some.inj h
      rfl
  | take t =>
      obtain ⟨pool, hpool, rfl⟩ := Option.map_eq_some_iff.mp h
      exact exec_cons_eq_some.mpr ⟨pool, hpool, rfl⟩
  | call t =>
      obtain ⟨pool, hpool, rfl⟩ := Option.map_eq_some_iff.mp h
      exact exec_cons_eq_some.mpr ⟨pool, hpool, rfl⟩
  | registerContents contentsNum contents =>
      obtain rfl := Option.some.inj h
      rfl
  | deregisterContents contentsNum =>
      obtain rfl := Option.some.inj h
      rfl
  | stopWorkerThread =>
      obtain ⟨_, h⟩ := Option.ite_none_right_eq_some.mp h
      obtain rfl := Option.some.inj h
      rfl
  | postStop =>
      simp only [Port.step] at h
      split at h
      · obtain ⟨_, h⟩ := Option.ite_none_right_eq_some.mp h
        obtain rfl := Option.some.inj h
        rfl
      · exact absurd h (by simp)
  | close =>
      simp only [Port.step] at h
      split at h
      · obtain ⟨_, h⟩ := Option.ite_none_left_eq_some.mp h
        obtain rfl := Option.some.inj h
        rfl
      · exact absurd h (by simp)

theorem posts_append (steps later : List (PortStep maxUser)) :
    posts (steps ++ later) = posts steps ++ posts later := by
  induction steps with
  | nil => rfl
  | cons step steps ih => cases step <;> simp [posts, ih]

/-! ## What every run keeps -/

/-- What the port has been given is what was posted, and `StopWorkerThread` posts one stop for
each worker and waits for all of them. -/
structure Port.Kept (layout : Layout maxUser) (n : Nat) (steps : List (PortStep maxUser))
    (s : Port) : Prop where
  pool : s.pool.Kept (workerProgram layout) n
  posted : s.pool.posted = (posts steps).map layout.entry
  stops : (posts steps).count none = s.stop.posted n
  posted_le : s.stop.posted n ≤ n
  closed : s.stop = .closed → s.pool.ended = n

theorem Port.kept_started (layout : Layout maxUser) (contentsMap : Int32 → Option Nat) (n : Nat) :
    (started contentsMap n).Kept layout n [] :=
  ⟨Pool.kept_start contentsMap none n, rfl, rfl, Nat.zero_le n, fun h => nomatch h⟩

/-- The pool keeps what pools keep. -/
theorem Port.Kept.pool_step {steps : List (PortStep maxUser)} (h : s.Kept layout n steps)
    (hstep : s.step layout label = some s') : s'.pool.Kept (workerProgram layout) n :=
  exec_invariant (fun _ _ _ hkept hmove => hkept.step hmove) h.pool (Port.step_refines hstep)

/-- The port has been given what the step posts. -/
theorem Port.posted_step (h : s.step layout label = some s') :
    s'.pool.posted = s.pool.posted ++ (posts [label]).map layout.entry := by
  have hrun := Port.step_refines h
  cases label with
  | post posted =>
      obtain rfl := Option.some.inj h
      rfl
  | take t =>
      obtain ⟨pool, hpool, rfl⟩ := Option.map_eq_some_iff.mp h
      obtain ⟨_, _, _, _, _, _, _, _, rfl⟩ := Pool.take_cases hpool
      exact (List.append_nil _).symm
  | call t =>
      obtain ⟨pool, hpool, rfl⟩ := Option.map_eq_some_iff.mp h
      obtain ⟨_, _, _, _, _, _, _, rfl⟩ := Pool.call_cases hpool
      exact (List.append_nil _).symm
  | registerContents contentsNum contents =>
      obtain rfl := Option.some.inj h
      exact (List.append_nil _).symm
  | deregisterContents contentsNum =>
      obtain rfl := Option.some.inj h
      exact (List.append_nil _).symm
  | postStop =>
      obtain ⟨pool, hpool, hlast⟩ := exec_cons_eq_some.mp hrun
      obtain rfl := Option.some.inj hpool
      obtain hlast := Option.some.inj hlast
      rw [← hlast]
      rfl
  | stopWorkerThread =>
      rw [← Option.some.inj hrun]
      exact (List.append_nil _).symm
  | close =>
      rw [← Option.some.inj hrun]
      exact (List.append_nil _).symm

/-- **What `StopWorkerThread` does.**  Its loop posts one stop a step, and its wait returns once
every worker has. -/
theorem Port.stop_step (h : s.step layout label = some s') :
    (s'.stop = s.stop ∧ none ∉ posts [label]) ∨
      (s.stop = .idle ∧ s'.stop = .posting 0 ∧ posts [label] = []) ∨
      (∃ i, s.stop = .posting i ∧ i < s.pool.workers.length ∧ s'.stop = .posting (i + 1) ∧
        posts [label] = [none]) ∨
      (∃ i, s.stop = .posting i ∧ s.pool.workers.length ≤ i ∧
        s.pool.workers.length ≤ s.pool.ended ∧ s'.stop = .closed ∧ posts [label] = [] ∧
        s'.pool = s.pool) := by
  cases label with
  | post posted =>
      obtain rfl := Option.some.inj h
      exact Or.inl ⟨rfl, by simp [posts]⟩
  | take t =>
      obtain ⟨pool, _, rfl⟩ := Option.map_eq_some_iff.mp h
      exact Or.inl ⟨rfl, by simp [posts]⟩
  | call t =>
      obtain ⟨pool, _, rfl⟩ := Option.map_eq_some_iff.mp h
      exact Or.inl ⟨rfl, by simp [posts]⟩
  | registerContents contentsNum contents =>
      obtain rfl := Option.some.inj h
      exact Or.inl ⟨rfl, by simp [posts]⟩
  | deregisterContents contentsNum =>
      obtain rfl := Option.some.inj h
      exact Or.inl ⟨rfl, by simp [posts]⟩
  | stopWorkerThread =>
      obtain ⟨hidle, h⟩ := Option.ite_none_right_eq_some.mp h
      obtain rfl := Option.some.inj h
      exact Or.inr (Or.inl ⟨hidle, rfl, rfl⟩)
  | postStop =>
      simp only [Port.step] at h
      split at h
      · rename_i i hi
        obtain ⟨hlt, h⟩ := Option.ite_none_right_eq_some.mp h
        obtain rfl := Option.some.inj h
        exact Or.inr (Or.inr (Or.inl ⟨i, hi, hlt, rfl, rfl⟩))
      · exact absurd h (by simp)
  | close =>
      simp only [Port.step] at h
      split at h
      · rename_i i hi
        obtain ⟨hall, h⟩ := Option.ite_none_left_eq_some.mp h
        rw [not_or, Nat.not_lt, Nat.not_lt] at hall
        obtain rfl := Option.some.inj h
        exact Or.inr (Or.inr (Or.inr ⟨i, hi, hall.1, hall.2, rfl, rfl, rfl⟩))
      · exact absurd h (by simp)

/-- Every step keeps it. -/
theorem Port.Kept.step {steps : List (PortStep maxUser)} (h : s.Kept layout n steps)
    (hstep : s.step layout label = some s') : s'.Kept layout n (steps ++ [label]) := by
  have hpool := h.pool_step hstep
  have hposted : s'.pool.posted = (posts (steps ++ [label])).map layout.entry := by
    rw [Port.posted_step hstep, h.posted, posts_append, List.map_append]
  have hcount : (posts (steps ++ [label])).count none =
      s.stop.posted n + (posts [label]).count none := by
    rw [posts_append, List.count_append, h.stops]
  have hle := h.posted_le
  have hlength := h.pool.workers
  rcases Port.stop_step hstep with ⟨hstop, hnone⟩ | ⟨hidle, hstop, hlabel⟩ |
    ⟨i, hi, hlt, hstop, hlabel⟩ | ⟨i, hi, hall, hended, hstop, hlabel, hsame⟩
  · rw [List.count_eq_zero.mpr hnone] at hcount
    refine ⟨hpool, hposted, hstop ▸ hcount, hstop ▸ hle, fun hclosed => ?_⟩
    have hbefore := h.closed (hstop ▸ hclosed)
    have hmono : s.pool.ended ≤ s'.pool.ended :=
      (exec_invariant (I := fun pool => pool.Kept (workerProgram layout) n ∧
          s.pool.ended ≤ pool.ended)
        (fun _ _ _ hkept hmove =>
          ⟨hkept.1.step hmove, hkept.2.trans (hkept.1.ended_mono hmove)⟩)
        ⟨h.pool, Nat.le_refl _⟩ (Port.step_refines hstep)).2
    exact Nat.le_antisymm hpool.ended_le (hbefore ▸ hmono)
  · rw [hidle, hlabel] at hcount
    exact ⟨hpool, hposted, hstop ▸ hcount, hstop ▸ Nat.zero_le n,
      fun hclosed => absurd (hstop.symm.trans hclosed) (by simp)⟩
  · rw [hi, hlabel] at hcount
    rw [hlength] at hlt
    exact ⟨hpool, hposted, hstop ▸ hcount, hstop ▸ hlt,
      fun hclosed => absurd (hstop.symm.trans hclosed) (by simp)⟩
  · rw [hi] at hle hcount
    rw [hlabel] at hcount
    rw [hlength] at hall hended
    have hin : i = n := Nat.le_antisymm hle hall
    refine ⟨hpool, hposted, ?_, ?_, fun _ => ?_⟩
    · rw [hstop]
      exact hin ▸ hcount
    · rw [hstop]
      exact Nat.le_refl n
    · exact Nat.le_antisymm hpool.ended_le (hsame ▸ hended)

theorem Port.kept_of_run {steps : List (PortStep maxUser)} {contentsMap : Int32 → Option Nat}
    (h : exec (step layout) (started contentsMap n) steps = some s) : s.Kept layout n steps :=
  exec_history (I := fun steps s => s.Kept layout n steps) (kept_started layout contentsMap n)
    (fun _ _ _ _ _ _ hkept _ hstep => hkept.step hstep) along_true h

/-! ## Messages -/

theorem dispatch_entry (posted : Option (Posted maxUser)) :
    (workerProgram layout).dispatch (layout.entry posted) = posted.map layout.meaning := by
  cases posted with
  | none => exact workerThread_stop layout
  | some posted => exact workerThread_completion layout posted

theorem filterMap_dispatch (posted : List (Option (Posted maxUser))) :
    (posted.map layout.entry).filterMap (workerProgram layout).dispatch =
      posted.reduceOption.map layout.meaning := by
  rw [List.filterMap_map, List.reduceOption, List.map_filterMap]
  congr 1
  funext entry
  rw [Function.comp_apply, dispatch_entry]
  cases entry <;> rfl

theorem countP_stops (posted : List (Option (Posted maxUser))) :
    (posted.map layout.entry).countP (workerProgram layout).stops = posted.count none := by
  rw [List.countP_map, List.count]
  congr 1
  funext entry
  rw [Function.comp_apply, WorkerProgram.stops, dispatch_entry]
  cases entry <;> rfl

variable (layout)

/-- **Every message is handled once, by the handler it was posted for.**  In every run, what has
been taken is a beginning of what was posted; each message of it has led to the calls it asks
for, all made by one worker, or a worker is still at them; and as many workers have ended as stops
were taken.  When `StopWorkerThread` returns, that beginning ends with the last stop and
everything in it is done with; what was posted behind it stays in the port. -/
theorem messages_handled (contentsMap : Int32 → Option Nat) (threads : Nat)
    (steps : List (PortStep maxUser)) (s : Port)
    (hrun : exec (Port.step layout) (Port.started contentsMap threads) steps = some s) :
    ∃ taken waiting, posts steps = taken ++ waiting ∧
      s.pool.queue = waiting.map layout.entry ∧
      (s.pool.finished.map (List.map Prod.snd) ++ s.pool.workers.flatMap Worker.works).Perm
        (taken.reduceOption.map layout.meaning) ∧
      s.pool.ended = taken.count none ∧
      (s.stop = .closed →
        (s.pool.finished.map (List.map Prod.snd)).Perm (taken.reduceOption.map layout.meaning) ∧
          none ∉ waiting ∧ ∀ last ∈ taken.getLast?, last = none) := by
  have hkept := Port.kept_of_run hrun
  obtain ⟨taken, waiting, hposts, htaken, hwaiting⟩ :=
    List.map_eq_append_iff.mp (hkept.posted.symm.trans hkept.pool.fifo)
  have hmade := hkept.pool.made
  have hended := hkept.pool.ended
  rw [← htaken, filterMap_dispatch] at hmade
  rw [← htaken, countP_stops] at hended
  refine ⟨taken, waiting, hposts, hwaiting.symm, hmade, hended, fun hclosed => ?_⟩
  have hall := hkept.closed hclosed
  obtain ⟨hdone, hlast⟩ := hkept.pool.returned hall
  rw [← htaken, filterMap_dispatch] at hdone
  refine ⟨hdone, ?_, fun last hin => ?_⟩
  · -- All the stops have been taken.
    have hstops := hkept.stops
    rw [hclosed, hposts, List.count_append, ← hended, hall] at hstops
    exact List.count_eq_zero.mp (Nat.add_left_cancel (hstops.trans (Nat.add_zero threads).symm))
  · rw [← htaken, List.getLast?_map] at hlast
    have hstop := hlast (layout.entry last) (Option.mem_map_of_mem layout.entry hin)
    rw [WorkerProgram.stops, dispatch_entry] at hstop
    cases last with
    | none => rfl
    | some posted => exact absurd hstop (by simp)

/-- Two sessions. -/
def twoSlots : Layout 2 where
  session i := if i.val = 0 then 1000 else 2000
  recvOverlapped i := if i.val = 0 then 1048 else 2048
  sendOverlapped i := if i.val = 0 then 1008 else 2008
  type address := address = 1008 ∨ address = 2008
  session_ne := by decide
  recvOverlapped_gt := by decide
  sendOverlapped_gt := by decide
  type_recvOverlapped := by decide
  type_sendOverlapped := by decide

def firstSlot : Fin 2 := ⟨0, Nat.zero_lt_two⟩
def secondSlot : Fin 2 := ⟨1, Nat.one_lt_two⟩

/-- Up to the last stop: a message between the stops, and one behind them. -/
def beforeStops : List (PortStep 2) :=
  [.post (.enter 7 3), .post (.received firstSlot true 10), .take 1, .take 0, .call 1,
    .stopWorkerThread, .postStop, .deregisterContents 3, .post (.update 3), .postStop]

/-- The rest: the worker that takes the first stop leaves the update to the other one. -/
def behindStops : List (PortStep 2) :=
  [.post (.release secondSlot), .call 1, .take 1, .call 0, .call 0, .call 0, .call 0, .take 0,
    .call 0, .call 0, .take 0, .close]

theorem twoSlots_handled :
    ∃ s, exec (Port.step twoSlots) (Port.started (fun _ => some 0) 2)
        (beforeStops ++ behindStops) = some s ∧ s.stop = .closed ∧
      ∃ taken waiting, posts (beforeStops ++ behindStops) = taken ++ waiting ∧
        s.pool.queue = waiting.map twoSlots.entry ∧
        (s.pool.finished.map (List.map Prod.snd)).Perm
          (taken.reduceOption.map twoSlots.meaning) ∧
        none ∉ waiting := by
  have hrun : (exec (Port.step twoSlots) (Port.started (fun _ => some 0) 2)
      (beforeStops ++ behindStops)).map Port.stop = some .closed := by decide +kernel
  obtain ⟨s, hs, hclosed⟩ := Option.map_eq_some_iff.mp hrun
  obtain ⟨taken, waiting, hposts, hqueue, -, -, hend⟩ :=
    messages_handled twoSlots (fun _ => some 0) 2 (beforeStops ++ behindStops) s hs
  obtain ⟨hdone, hnone, -⟩ := hend hclosed
  exact ⟨s, hs, hclosed, taken, waiting, hposts, hqueue, hdone, hnone⟩

/-! ## The end -/

variable {layout}

/-- The step of a worker. -/
def PortStep.works : PortStep maxUser → Bool
  | .take _ => true
  | .call _ => true
  | _ => false

/-- Behind its last stop `StopWorkerThread` posts nothing, and the pool has been given all. -/
theorem Port.left_step {steps : List (PortStep maxUser)} (h : s.Kept layout n steps)
    (hposted : s.stop.posted n = n) (hstep : s.step layout label = some s') :
    s'.stop.posted n = n ∧
      [label].countP PortStep.works + s'.pool.left (workerProgram layout) =
        s.pool.left (workerProgram layout) := by
  have hnone : none ∉ posts [label] ∧ s'.stop.posted n = n := by
    rcases Port.stop_step hstep with ⟨hstop, hnone⟩ | ⟨hidle, hstop, hlabel⟩ |
      ⟨i, hi, hlt, _, _⟩ | ⟨i, _, _, _, hstop, hlabel, _⟩
    · exact ⟨hnone, hstop ▸ hposted⟩
    · rw [hidle] at hposted
      rw [hstop, hlabel]
      exact ⟨List.not_mem_nil, hposted⟩
    · rw [hi] at hposted
      rw [h.pool.workers] at hlt
      exact absurd hposted (Nat.ne_of_lt hlt)
    · rw [hstop, hlabel]
      exact ⟨List.not_mem_nil, rfl⟩
  have hgiven : s.pool.posted.countP (workerProgram layout).stops = n := by
    rw [h.posted, countP_stops, h.stops, hposted]
  have hothers : ∀ entry, PoolStep.post entry ∈ s.poolSteps layout label →
      (workerProgram layout).stops entry = false := by
    intro entry hentry
    cases label with
    | post posted =>
        obtain rfl : entry = layout.completion posted := by simpa [Port.poolSteps] using hentry
        have hdispatch : (workerProgram layout).dispatch (layout.completion posted) =
            some (layout.meaning posted) := workerThread_completion layout posted
        rw [WorkerProgram.stops, hdispatch]
        rfl
    | postStop => exact absurd List.mem_cons_self hnone.1
    | _ => simp [Port.poolSteps] at hentry
  have hleft := Pool.left_run h.pool hgiven hothers (Port.step_refines hstep)
  have hworks : (s.poolSteps layout label).countP PoolStep.works =
      [label].countP PortStep.works := by
    cases label <;> rfl
  exact ⟨hnone.2, hworks ▸ hleft⟩

variable (layout)

/-- **`StopWorkerThread` returns.**  From its last stop on, the workers have a fixed number of
steps left, however they are interleaved and whatever is posted meanwhile; while one has not
ended, one of them can take its next step; and when no step is left the wait is over. -/
theorem workers_return (contentsMap : Int32 → Option Nat) (threads : Nat)
    (before during : List (PortStep maxUser)) (mid s : Port)
    (hbefore : exec (Port.step layout) (Port.started contentsMap threads) before = some mid)
    (hposted : mid.stop = .posting threads)
    (hduring : exec (Port.step layout) mid during = some s) :
    during.countP PortStep.works + s.pool.left (workerProgram layout) =
        mid.pool.left (workerProgram layout) ∧
      (s.pool.ended < threads → ∃ t, (s.step layout (.take t)).isSome = true ∨
        (s.step layout (.call t)).isSome = true) ∧
      (s.pool.left (workerProgram layout) = 0 → s.stop = .posting threads →
        (s.step layout .close).isSome = true) := by
  have hstart : mid.stop.posted threads = threads := by rw [hposted]; rfl
  have hrun : s.Kept layout threads (before ++ during) ∧ s.stop.posted threads = threads ∧
      during.countP PortStep.works + s.pool.left (workerProgram layout) =
        mid.pool.left (workerProgram layout) := by
    refine exec_history (I := fun done t => t.Kept layout threads (before ++ done) ∧
        t.stop.posted threads = threads ∧
        done.countP PortStep.works + t.pool.left (workerProgram layout) =
          mid.pool.left (workerProgram layout)) ?_ ?_ along_true hduring
    · rw [List.append_nil]
      exact ⟨Port.kept_of_run hbefore, hstart, Nat.zero_add _⟩
    · rintro done t label t' - - ⟨hkept, hgiven, hcount⟩ - hstep
      have hleft := Port.left_step hkept hgiven hstep
      rw [← List.append_assoc]
      refine ⟨hkept.step hstep, hleft.1, ?_⟩
      rw [List.countP_append, Nat.add_assoc, hleft.2, hcount]
  obtain ⟨hkept, hgiven, hcount⟩ := hrun
  have hstops : s.pool.posted.countP (workerProgram layout).stops = threads := by
    rw [hkept.posted, countP_stops, hkept.stops, hgiven]
  refine ⟨hcount, fun hrunning => ?_, fun hleft hstop => ?_⟩
  · obtain ⟨t, ht⟩ := hkept.pool.enabled hstops hrunning
    refine ⟨t, ?_⟩
    simpa only [Port.step, Option.isSome_map] using ht
  · have hended := hkept.pool.ended_of_left hstops hleft
    have hlength := hkept.pool.workers
    simp [Port.step, hstop, hended, hlength]

theorem twoSlots_return :
    ∃ mid s, exec (Port.step twoSlots) (Port.started (fun _ => some 0) 2) beforeStops = some mid ∧
      exec (Port.step twoSlots) mid behindStops = some s ∧
      behindStops.countP PortStep.works + s.pool.left (workerProgram twoSlots) =
        mid.pool.left (workerProgram twoSlots) := by
  have hbefore : (exec (Port.step twoSlots) (Port.started (fun _ => some 0) 2) beforeStops).map
      Port.stop = some (.posting 2) := by decide +kernel
  obtain ⟨mid, hmid, hstop⟩ := Option.map_eq_some_iff.mp hbefore
  have hrun : (exec (Port.step twoSlots) (Port.started (fun _ => some 0) 2)
      (beforeStops ++ behindStops)).isSome = true := by decide +kernel
  rw [exec_append, hmid, Option.bind_some] at hrun
  obtain ⟨s, hs⟩ := Option.isSome_iff_exists.mp hrun
  exact ⟨mid, s, hmid, hs,
    (workers_return twoSlots (fun _ => some 0) 2 beforeStops behindStops mid s hmid hstop hs).1⟩

end SessionServer.ContentLib
