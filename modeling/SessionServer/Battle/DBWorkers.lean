/-
  Battle/DBWorkers.lean --- the queue of battle results and the workers that save them.

  `PushDBRequest`, `WaitAndPopDBRequest`, `DBThread`, `StopDBWorkers` and
  `RecordDBSaveCounters` for any number of workers.  What runs under `_dbMtx` is one
  step, and so is each of the atomic additions of `RecordDBSaveCounters`.  A worker
  that waits may be woken at any time: by `notify_one`, by `notify_all` or spuriously,
  it then evaluates the predicate again.

  A record is kept of what was pushed, of who popped it and of what was recorded for
  it; a request is named by its place among those popped.
-/
import SessionServer.Battle.DBRun
import SessionServer.Foundation.Run

set_option autoImplicit false

namespace SessionServer.Battle

open SessionServer.Foundation

/-! ## Counters -/

/-- `enum class DBRequestType`. -/
inductive DBRequestType where
  | saveBattleResult
  deriving DecidableEq, Repr, Inhabited

/-- `struct DBRequest`. -/
structure DBRequest where
  type : DBRequestType
  battleResult : BattleResult
  deriving DecidableEq

/-- The totals, each a `std::atomic<std::uint64_t>`. -/
inductive Total where
  | saveSuccess
  | saveFailure
  | duplicateKey
  | deadlock
  | lockTimeout
  | connectionLost
  | queryFormatError
  | unknownError
  | retry
  | retryExhausted
  deriving DecidableEq, Repr, Inhabited

/-- One `fetch_add`: on `_dbSaveCount`, or on a total. -/
inductive FetchAdd where
  | saveCount
  | total (total : Total) (amount : Nat)
  deriving DecidableEq

/-- The total a failed save is counted in by its error category. -/
def DBErrorCategory.total : DBErrorCategory → Total
  | .duplicateKey => .duplicateKey
  | .deadlock => .deadlock
  | .lockTimeout => .lockTimeout
  | .connectionLost => .connectionLost
  | .queryFormatError => .queryFormatError
  | .none => .unknownError
  | .unknown => .unknownError

/-- `RecordDBSaveCounters`: the additions it makes, in order. -/
def recordDBSaveCounters (saveResult : DBSaveResult) : List FetchAdd :=
  [.saveCount] ++
    (if saveResult.attemptCount > 1 then [.total .retry (saveResult.attemptCount - 1)] else []) ++
    (if saveResult.retryExhausted then [.total .retryExhausted 1] else []) ++
    if saveResult.succeeded then [.total .saveSuccess 1]
    else [.total .saveFailure 1, .total saveResult.error.category.total 1]

/-! ## Workers -/

/-- `enum ServerState`. -/
inductive ServerState where
  | serverCreated
  | serverRunning
  | acceptStopped
  | matchDeregistered
  | controlStopped
  | dbStopped
  deriving DecidableEq, Repr, Inhabited

/-- Where a worker is in `DBThread`. -/
inductive DBPhase where
  /-- before `Connect` -/
  | starting
  /-- about to lock `_dbMtx`, before the wait or woken from it -/
  | locking
  /-- blocked in `_dbCv.wait` -/
  | waiting
  /-- inside `SaveBattleResult` -/
  | saving (place : Nat) (request : DBRequest)
  /-- inside `RecordDBSaveCounters` -/
  | recording (adds : List FetchAdd)
  /-- `WaitAndPopDBRequest` has returned false -/
  | refused
  | returned (code : Nat)
  deriving DecidableEq

structure DBWorker where
  /-- whether `Connect` succeeds -/
  connects : Bool
  connector : DBConnector
  phase : DBPhase

/-- The part of `FighterServer` the workers share, with the record of the run. -/
structure DBPool (n : Nat) where
  workers : Fin n → DBWorker
  dbQ : List DBRequest
  dbThreadRun : Bool
  state : ServerState
  dbSaveCount : UInt32
  totals : Total → UInt64
  pushed : List DBRequest
  popped : List (Fin n × DBRequest)
  recorded : List (Nat × DBSaveResult)

namespace DBPool

variable {n : Nat}

def setPhase (s : DBPool n) (w : Fin n) (phase : DBPhase) : DBPool n :=
  { s with workers := Function.update s.workers w { s.workers w with phase := phase } }

def fetchAdd (s : DBPool n) : FetchAdd → DBPool n
  | .saveCount => { s with dbSaveCount := s.dbSaveCount + 1 }
  | .total total amount =>
      { s with
          totals := Function.update s.totals total (s.totals total + UInt64.ofNat amount) }

/-- `WaitAndPopDBRequest` from the lock on, up to the wait or the return. -/
def waitAndPopDBRequest (s : DBPool n) (w : Fin n) : DBPool n :=
  match s.dbQ with
  | [] => if s.dbThreadRun then s.setPhase w .waiting else s.setPhase w .refused
  | request :: rest =>
      { s.setPhase w (.saving s.popped.length request) with
          dbQ := rest
          popped := s.popped ++ [(w, request)] }

end DBPool

/-- What happens next to the queue and its workers. -/
inductive DBStep (n : Nat) where
  /-- `PushDBRequest` -/
  | push (request : DBRequest)
  | connect (w : Fin n)
  | lock (w : Fin n)
  | wake (w : Fin n)
  /-- `SaveBattleResult` returns, and `RecordDBSaveCounters` is called -/
  | save (w : Fin n)
  | fetchAdd (w : Fin n)
  /-- `RecordDBSaveCounters` returns -/
  | recorded (w : Fin n)
  | leave (w : Fin n)
  /-- `OnSecond` takes `_dbSaveCount` -/
  | second
  /-- `StopControlThread` has stopped the control thread -/
  | controlStopped
  /-- `StopDBWorkers` clears `_dbThreadRun` -/
  | stop
  /-- `StopDBWorkers` has joined every worker -/
  | joined

/-- The thread of the worker has returned. -/
def DBPhase.isReturned : DBPhase → Bool
  | .returned _ => true
  | _ => false

/-- One step; `none` where it is not enabled. -/
def dbStep {n : Nat} (s : DBPool n) : DBStep n → Option (DBPool n)
  | .push request =>
      some { s with dbQ := s.dbQ ++ [request], pushed := s.pushed ++ [request] }
  | .connect w =>
      match (s.workers w).phase with
      | .starting =>
          some (s.setPhase w (if (s.workers w).connects then .locking else .returned 0))
      | _ => none
  | .lock w =>
      match (s.workers w).phase with
      | .locking => some (s.waitAndPopDBRequest w)
      | _ => none
  | .wake w =>
      match (s.workers w).phase with
      | .waiting => some (s.setPhase w .locking)
      | _ => none
  | .save w =>
      match (s.workers w).phase with
      | .saving place request =>
          let saved := (s.workers w).connector.saveBattleResult request.battleResult
          some { s with
            workers := Function.update s.workers w
              { s.workers w with
                  connector := saved.1
                  phase := .recording (recordDBSaveCounters saved.2) }
            recorded := s.recorded ++ [(place, saved.2)] }
      | _ => none
  | .fetchAdd w =>
      match (s.workers w).phase with
      | .recording (add :: adds) => some ((s.fetchAdd add).setPhase w (.recording adds))
      | _ => none
  | .recorded w =>
      match (s.workers w).phase with
      | .recording [] => some (s.setPhase w .locking)
      | _ => none
  | .leave w =>
      match (s.workers w).phase with
      | .refused =>
          let code := if !s.dbThreadRun && s.state = .controlStopped then 0 else 1
          some (s.setPhase w (.returned code))
      | _ => none
  | .second => some { s with dbSaveCount := 0 }
  | .controlStopped => some { s with state := .controlStopped }
  | .stop => some { s with dbThreadRun := false }
  | .joined =>
      if ∀ w, (s.workers w).phase.isReturned then some { s with state := .dbStopped } else none

/-- The pool once `StartDBWorkers` has started its threads. -/
def startedPool {n : Nat} (connectors : Fin n → DBConnector) (connects : Fin n → Bool) :
    DBPool n where
  workers := fun w => ⟨connects w, connectors w, .starting⟩
  dbQ := []
  dbThreadRun := true
  state := .serverRunning
  dbSaveCount := 0
  totals := fun _ => 0
  pushed := []
  popped := []
  recorded := []

end SessionServer.Battle
