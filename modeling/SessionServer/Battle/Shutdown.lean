/-
  Battle/Shutdown.lean --- the battle results pushed while the server stops.

  `FighterServer::Stop` stops the control thread, then the workers on the completion port and
  then those of the database.  A battle result is pushed inside a handler, by a worker on the
  port that is in the middle of a call, so nothing is pushed once `StopWorkerThread` has
  returned.
-/
import SessionServer.Battle.DBWorkersRun
import SessionServer.ContentLib.WorkerThread

set_option autoImplicit false

namespace SessionServer.Battle

open SessionServer.Foundation SessionServer.ContentLib

/-! ## Both pools -/

/-- The completion port with its workers, and the queue of results with its own. -/
structure Shutdown (n : Nat) where
  port : Port
  pool : DBPool n

/-- What happens next. -/
inductive ShutdownStep (maxUser n : Nat) where
  | port (label : PortStep maxUser)
  /-- the worker `t` is in a call that pushes a result: `RequestSaveBattleResult` -/
  | save (t : Nat) (result : BattleResult)
  | db (label : DBStep n)

variable {maxUser n : Nat}

namespace Shutdown

/-- The worker is in the middle of a call. -/
def calling (s : Shutdown n) (t : Nat) : Bool :=
  match s.port.pool.workers[t]? with
  | some (some ⟨_, _, _ :: _⟩) => true
  | _ => false

/-- `Stop` runs `StopControlThread`, `StopWorkerThread` and `StopDBWorkers` in this order. -/
def inOrder (s : Shutdown n) : ShutdownStep maxUser n → Bool
  | .port .stopWorkerThread => s.pool.state = .controlStopped
  | .db .controlStopped => s.port.stop = .idle
  | .db .stop => s.port.stop = .closed
  | .db .joined => s.pool.dbThreadRun = false
  -- The results come from the handlers.
  | .db (.push _) => false
  | _ => true

/-- One step; `none` where it is not enabled. -/
def step (layout : Layout maxUser) (s : Shutdown n) (label : ShutdownStep maxUser n) :
    Option (Shutdown n) :=
  if s.inOrder label then
    match label with
    | .port label => (s.port.step layout label).map fun port => { s with port := port }
    | .save t result =>
        if s.calling t then
          (dbStep s.pool (.push ⟨.saveBattleResult, result⟩)).map fun pool =>
            { s with pool := pool }
        else none
    | .db label => (dbStep s.pool label).map fun pool => { s with pool := pool }
  else none

/-- The server as it runs. -/
def started (contentsMap : Int32 → Option Nat) (threads : Nat) (connectors : Fin n → DBConnector)
    (connects : Fin n → Bool) : Shutdown n :=
  ⟨Port.started contentsMap threads, startedPool connectors connects⟩

end Shutdown

/-! ## What a step does -/

variable {layout : Layout maxUser} {s s' : Shutdown n} {label : ShutdownStep maxUser n}

/-- A step is one of the port, or one of the database's pool. -/
theorem Shutdown.step_cases (h : s.step layout label = some s') :
    s.inOrder label = true ∧
      ((∃ move port, label = .port move ∧ s.port.step layout move = some port ∧
          s' = { s with port := port }) ∨
        (∃ t result pool, label = .save t result ∧ s.calling t = true ∧
          dbStep s.pool (.push ⟨.saveBattleResult, result⟩) = some pool ∧
          s' = { s with pool := pool }) ∨
        (∃ move pool, label = .db move ∧ dbStep s.pool move = some pool ∧
          s' = { s with pool := pool })) := by
  obtain ⟨horder, h⟩ := Option.ite_none_right_eq_some.mp h
  refine ⟨horder, ?_⟩
  cases label with
  | port move =>
      obtain ⟨port, hport, rfl⟩ := Option.map_eq_some_iff.mp h
      exact Or.inl ⟨move, port, rfl, hport, rfl⟩
  | save t result =>
      obtain ⟨hcalling, h⟩ := Option.ite_none_right_eq_some.mp h
      obtain ⟨pool, hpool, rfl⟩ := Option.map_eq_some_iff.mp h
      exact Or.inr (Or.inl ⟨t, result, pool, rfl, hcalling, hpool, rfl⟩)
  | db move =>
      obtain ⟨pool, hpool, rfl⟩ := Option.map_eq_some_iff.mp h
      exact Or.inr (Or.inr ⟨move, pool, rfl, hpool, rfl⟩)

/-- Only `StopDBWorkers` clears `_dbThreadRun`. -/
theorem dbThreadRun_step {pool pool' : DBPool n} {move : DBStep n} (hmove : move ≠ .stop)
    (h : dbStep pool move = some pool') : pool'.dbThreadRun = pool.dbThreadRun := by
  cases move with
  | stop => exact absurd rfl hmove
  | push request => exact Option.some.inj h ▸ rfl
  | second => exact Option.some.inj h ▸ rfl
  | controlStopped => exact Option.some.inj h ▸ rfl
  | joined =>
      obtain ⟨_, h⟩ := Option.ite_none_right_eq_some.mp h
      exact Option.some.inj h ▸ rfl
  | connect w =>
      simp only [dbStep] at h
      split at h
      · exact Option.some.inj h ▸ rfl
      · exact absurd h (by simp)
  | lock w =>
      simp only [dbStep] at h
      split at h
      · rw [← Option.some.inj h, DBPool.waitAndPopDBRequest]
        split
        · split <;> rfl
        · rfl
      · exact absurd h (by simp)
  | wake w =>
      simp only [dbStep] at h
      split at h
      · exact Option.some.inj h ▸ rfl
      · exact absurd h (by simp)
  | save w =>
      simp only [dbStep] at h
      split at h
      · exact Option.some.inj h ▸ rfl
      · exact absurd h (by simp)
  | fetchAdd w =>
      simp only [dbStep] at h
      split at h
      · rename_i add adds _
        exact Option.some.inj h ▸ (pool.fetchAdd_queue add).2
      · exact absurd h (by simp)
  | recorded w =>
      simp only [dbStep] at h
      split at h
      · exact Option.some.inj h ▸ rfl
      · exact absurd h (by simp)
  | leave w =>
      simp only [dbStep] at h
      split at h
      · exact Option.some.inj h ▸ rfl
      · exact absurd h (by simp)

/-! ## Runs -/

/-- The queue is that of a run in which nothing is pushed too late, and the flag is cleared only
behind the port. -/
structure Shutdown.Ordered (layout : Layout maxUser) (threads : Nat)
    (connectors : Fin n → DBConnector) (connects : Fin n → Bool) (s : Shutdown n) : Prop where
  port : ∃ steps, s.port.Kept layout threads steps
  pool : ∃ moves, exec dbStep (startedPool connectors connects) moves = some s.pool ∧
    Along dbStep OnTime (startedPool connectors connects) moves
  behind : s.pool.dbThreadRun = false → s.port.stop = .closed

variable {threads : Nat} {connectors : Fin n → DBConnector} {connects : Fin n → Bool}

/-- Once `StopWorkerThread` has returned nobody is in a call. -/
theorem Shutdown.not_closed {steps : List (PortStep maxUser)}
    (h : s.port.Kept layout threads steps) {t : Nat} (hcalling : s.calling t = true) :
    s.port.stop ≠ .closed := by
  intro hclosed
  rw [calling] at hcalling
  split at hcalling
  · rename_i locals made call calls hworker
    have hrunning := h.pool.ended_lt.mpr ⟨_, List.mem_of_getElem? hworker⟩
    exact absurd (h.closed hclosed) (Nat.ne_of_lt hrunning)
  · exact absurd hcalling (by simp)

/-- `StopWorkerThread` has returned for good. -/
theorem Shutdown.closed_step {port port' : Port} {move : PortStep maxUser}
    (h : port.step layout move = some port') (hclosed : port.stop = .closed) :
    port'.stop = .closed := by
  rcases Port.stop_step h with ⟨hstop, _⟩ | ⟨hidle, _⟩ | ⟨i, hi, _⟩ | ⟨i, hi, _⟩
  · exact hstop.trans hclosed
  · exact absurd (hidle.symm.trans hclosed) (by simp)
  · exact absurd (hi.symm.trans hclosed) (by simp)
  · exact absurd (hi.symm.trans hclosed) (by simp)

/-- A move of the database's pool that is not too late. -/
theorem Shutdown.Ordered.pool_step (h : s.Ordered layout threads connectors connects)
    {move : DBStep n} {pool : DBPool n} (htime : OnTime s.pool move)
    (hmove : dbStep s.pool move = some pool) :
    ∃ moves, exec dbStep (startedPool connectors connects) moves = some pool ∧
      Along dbStep OnTime (startedPool connectors connects) moves := by
  obtain ⟨moves, hrun, halong⟩ := h.pool
  exact ⟨moves ++ [move], exec_concat_eq_some.mpr ⟨s.pool, hrun, hmove⟩,
    (along_concat hrun).mpr ⟨halong, htime⟩⟩

theorem Shutdown.Ordered.step (h : s.Ordered layout threads connectors connects)
    (hstep : s.step layout label = some s') : s'.Ordered layout threads connectors connects := by
  obtain ⟨steps, hkept⟩ := h.port
  obtain ⟨horder, ⟨move, port, rfl, hport, rfl⟩ | ⟨t, result, pool, rfl, hcalling, hpool, rfl⟩ |
    ⟨move, pool, rfl, hpool, rfl⟩⟩ := Shutdown.step_cases hstep
  · exact ⟨⟨_, hkept.step hport⟩, h.pool, fun hcleared => closed_step hport (h.behind hcleared)⟩
  · -- The worker that pushes has not ended, so the flag is still set.
    have htime : OnTime s.pool (.push ⟨.saveBattleResult, result⟩) := by
      cases hrun : s.pool.dbThreadRun with
      | true => exact hrun
      | false => exact absurd (h.behind hrun) (not_closed hkept hcalling)
    refine ⟨⟨steps, hkept⟩, h.pool_step htime hpool, fun hcleared => ?_⟩
    exact h.behind ((dbThreadRun_step (by simp) hpool).symm.trans hcleared)
  · have htime : OnTime s.pool move := by
      cases move with
      | push request => exact absurd horder (by simp [inOrder])
      | _ => trivial
    refine ⟨⟨steps, hkept⟩, h.pool_step htime hpool, fun hcleared => ?_⟩
    by_cases hmove : move = .stop
    · subst hmove
      simpa [inOrder] using horder
    · exact h.behind ((dbThreadRun_step hmove hpool).symm.trans hcleared)

variable (layout)

/-- **`Stop` loses no result that was pushed.**  In every run in which one worker of the database
can connect, the results pushed by the handlers are popped once, in the order in which they were
pushed, and recorded once; and when every worker of the database has returned nothing is queued,
every result has been recorded, and the totals balance.  That nothing is pushed too late is the
order in which `Stop` stops the threads. -/
theorem stop_loses_no_result (contentsMap : Int32 → Option Nat) (threads : Nat)
    (connectors : Fin n → DBConnector) (connects : Fin n → Bool)
    (hconnected : ∃ w, connects w = true) (labels : List (ShutdownStep maxUser n))
    (s : Shutdown n)
    (hrun : exec (Shutdown.step layout) (Shutdown.started contentsMap threads connectors connects)
      labels = some s) :
    ConsumedOnce s.pool ∧
      ((∀ w, (s.pool.workers w).phase.isReturned = true) → Balanced s.pool) := by
  have hstart : (Shutdown.started contentsMap threads connectors connects).Ordered layout threads
      connectors connects :=
    ⟨⟨[], Port.kept_started layout contentsMap threads⟩, ⟨[], rfl, trivial⟩,
      fun hcleared => absurd hcleared (by simp [Shutdown.started, startedPool])⟩
  have hordered : s.Ordered layout threads connectors connects :=
    exec_invariant (fun _ _ _ h hstep => h.step hstep) hstart hrun
  obtain ⟨moves, hmoves, htime⟩ := hordered.pool
  obtain ⟨htaken, hhandled, hcounted⟩ := consumed_run hmoves
  exact ⟨.of_handled htaken hhandled, fun hreturned =>
    .of_returned htaken hhandled hcounted (served_run hconnected htime hmoves) hreturned⟩

/-- An update ends a fight while the server stops: the result is pushed behind the control
thread, before the stop of the only worker. -/
def endedWhileStopping : List (ShutdownStep 2 1) :=
  [.db (.connect 0), .port (.post (.update 3)), .db .controlStopped, .port (.take 0),
    .port .stopWorkerThread, .port .postStop, .port (.call 0), .save 0 (battle 1), .db (.lock 0),
    .port (.call 0), .port (.take 0), .db (.save 0), .db (.fetchAdd 0), .port .close, .db .stop,
    .db (.fetchAdd 0), .db (.fetchAdd 0), .db (.recorded 0), .db (.lock 0), .db (.leave 0),
    .db .joined]

theorem endedWhileStopping_saved :
    ∃ s, exec (Shutdown.step twoSlots)
        (Shutdown.started (fun _ => some 0) 1 (fun _ => threeConnectors 0) fun _ => true)
        endedWhileStopping = some s ∧ s.pool.pushed.length = 1 ∧ Balanced s.pool := by
  have hend : ∃ s ∈ exec (Shutdown.step twoSlots)
      (Shutdown.started (fun _ => some 0) 1 (fun _ => threeConnectors 0) fun _ => true)
      endedWhileStopping, s.pool.pushed.length = 1 ∧
        ∀ w, (s.pool.workers w).phase.isReturned = true := by decide +kernel
  obtain ⟨s, hs, hpushed, hreturned⟩ := hend
  have hrun := stop_loses_no_result twoSlots (fun _ => some 0) 1 (fun _ => threeConnectors 0)
    (fun _ => true) ⟨0, rfl⟩ endedWhileStopping s hs
  exact ⟨s, hs, hpushed, hrun.2 hreturned⟩

end SessionServer.Battle
