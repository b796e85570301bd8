/-
  Battle/DB.lean --- saving a battle result.

  `DBConnector.cpp` and `BattleDB.cpp` over a model of one MySQL connection.  The
  connection answers each `mysql_query` with success or an error number, chosen
  freely by a reply stream, and its transaction behaves as MySQL documents it:

    * a failed statement leaves the earlier statements of the transaction pending;
    * a lost connection discards the open transaction, but a COMMIT may have taken
      effect before the connection was lost;
    * a COMMIT that fails otherwise has had no effect if the ROLLBACK behind it succeeds,
      and may have taken effect if that fails too;
    * BEGIN with an open transaction commits that transaction first;
    * a statement outside a transaction commits by itself.

  The log lines of the source are left out; the statements sent and their outcomes
  are recorded in `log` instead, for the results about them.
-/
import SessionServer.Battle.Rows

set_option autoImplicit false

namespace SessionServer.Battle

/-! ## The server side of a connection -/

/-- A row change, with the match it belongs to. -/
inductive Change where
  | history (row : BattleHistory)
  | record (row : PlayerBattleRecord)
  | stat (matchID : Int) (row : PlayerBattleStat)
  deriving DecidableEq

def Change.matchID : Change → Int
  | .history row => row.matchID
  | .record row => row.matchID
  | .stat matchID _ => matchID

namespace BattleResult

/-- The change of `InsertBattleHistory`. -/
def historyChanges (result : BattleResult) : List Change :=
  [.history result.insertBattleHistory]

/-- The changes of `InsertPlayerBattleRecords`. -/
def recordChanges (result : BattleResult) : List Change :=
  result.insertPlayerBattleRecords.map .record

/-- The changes of `UpsertPlayerBattleStats`. -/
def statChanges (result : BattleResult) : List Change :=
  result.upsertPlayerBattleStats.map (.stat result.matchID)

/-- All the changes of a match: one history row, six records, six stat increments. -/
def changes (result : BattleResult) : List Change :=
  result.historyChanges ++ result.recordChanges ++ result.statChanges

end BattleResult

/-- The statements the server sends. -/
inductive Statement where
  | begin_
  | save (changes : List Change)
  | commit
  /-- a ROLLBACK, and whether it is behind a COMMIT that has failed -/
  | rollback (afterCommit : Bool)
  deriving DecidableEq

/-- The reply to one `mysql_query`: the error number, and for a COMMIT whose
connection was lost, or a ROLLBACK behind a failed COMMIT, whether the server had
already committed. -/
inductive Reply where
  | ok
  | error (mysqlError : Nat) (applied : Bool)
  deriving DecidableEq

/-- `enum class DBErrorCategory`. -/
inductive DBErrorCategory where
  | none
  | duplicateKey
  | deadlock
  | lockTimeout
  | connectionLost
  | queryFormatError
  | unknown
  deriving DecidableEq, Repr, Inhabited

/-- The category `SetLastMysqlError` gives an error number. -/
def DBErrorCategory.ofMysqlError (mysqlError : Nat) : DBErrorCategory :=
  if mysqlError = 1062 then .duplicateKey
  else if mysqlError = 1213 then .deadlock
  else if mysqlError = 1205 then .lockTimeout
  else if mysqlError = 2006 ∨ mysqlError = 2013 then .connectionLost
  else .unknown

/-- One connection as the database sees it: what is committed, and the pending
changes of the open transaction, if there is one. -/
structure MysqlConnection where
  committed : List Change
  transaction : Option (List Change)
  deriving DecidableEq

namespace MysqlConnection

/-- Commit the open transaction, if there is one. -/
def commitOpen (m : MysqlConnection) : MysqlConnection where
  committed := m.committed ++ m.transaction.getD []
  transaction := none

/-- The effect of one statement and its reply. -/
def query (m : MysqlConnection) (statement : Statement) : Reply → MysqlConnection
  | .ok =>
      match statement with
      | .begin_ => { m.commitOpen with transaction := some [] }
      | .save changes =>
          match m.transaction with
          | some pending => { m with transaction := some (pending ++ changes) }
          | none => { m with committed := m.committed ++ changes }
      | .commit => m.commitOpen
      | .rollback _ => { m with transaction := none }
  | .error mysqlError applied =>
      let lost := DBErrorCategory.ofMysqlError mysqlError = .connectionLost
      -- A COMMIT in doubt is settled here by the ROLLBACK behind it.
      if applied ∧ (statement = .rollback true ∨ statement = .commit ∧ lost) then m.commitOpen
      else if lost then { m with transaction := none }
      else m

end MysqlConnection

/-! ## `DBConnector` -/

structure DBErrorInfo where
  category : DBErrorCategory := .none
  mysqlError : Nat := 0
  deriving DecidableEq

/-- What was asked of the connector, as `BattleDB` names its stages. -/
inductive DBSaveStage where
  | none
  | beginTransaction
  | battleHistory
  | playerBattleRecord
  | playerBattleStat
  | commit
  deriving DecidableEq, Repr, Inhabited

/-- One entry of the log: the stage of a save, or its rollback. -/
inductive Sent where
  | stage (stage : DBSaveStage)
  | rollback
  deriving DecidableEq

/-- The connector, its connection and the answers still to come: `replies` for
`mysql_query` and `formats` for `StringCchPrintfW`. -/
structure DBConnector where
  connection : MysqlConnection
  lastError : DBErrorInfo
  replies : Nat → Reply
  asked : Nat
  formats : Nat → Bool
  formatted : Nat
  /-- every call so far with its error, or none for success -/
  log : List (Sent × Option DBErrorInfo)

namespace DBConnector

/-- `ClearLastError`, `mysql_query` and, on failure, `SetLastMysqlError`. -/
def mysqlQuery (c : DBConnector) (sent : Sent) (statement : Statement) : DBConnector × Bool :=
  let reply := c.replies c.asked
  let error : DBErrorInfo := match reply with
    | .ok => {}
    | .error mysqlError _ => ⟨DBErrorCategory.ofMysqlError mysqlError, mysqlError⟩
  ({ c with
      connection := c.connection.query statement reply
      lastError := error
      asked := c.asked + 1
      log := c.log ++ [(sent, if reply = .ok then none else some error)] },
    reply = .ok)

def beginTransaction (c : DBConnector) : DBConnector × Bool :=
  c.mysqlQuery (.stage .beginTransaction) .begin_

def commit (c : DBConnector) : DBConnector × Bool :=
  c.mysqlQuery (.stage .commit) .commit

def rollback (c : DBConnector) (afterCommit : Bool) : DBConnector × Bool :=
  c.mysqlQuery .rollback (.rollback afterCommit)

/-- `QuerySave`: a format error sends nothing. -/
def querySave (c : DBConnector) (stage : DBSaveStage) (changes : List Change) :
    DBConnector × Bool :=
  if c.formats c.formatted then
    { c with formatted := c.formatted + 1 }.mysqlQuery (.stage stage) (.save changes)
  else
    let error : DBErrorInfo := ⟨.queryFormatError, 0⟩
    ({ c with
        formatted := c.formatted + 1
        lastError := error
        log := c.log ++ [(.stage stage, some error)] },
      false)

end DBConnector

/-! ## `BattleDB` -/

structure DBSaveResult where
  succeeded : Bool := false
  stage : DBSaveStage := .none
  error : DBErrorInfo := {}
  rollbackAttempted : Bool := false
  rollbackSucceeded : Bool := false
  commitOutcomeUnknown : Bool := false
  attemptCount : Nat := 1
  retryExhausted : Bool := false
  deriving DecidableEq

def kMaxSaveAttempts : Nat := 3

def isRetryableSaveError (saveResult : DBSaveResult) : Bool :=
  if saveResult.commitOutcomeUnknown then false
  else if saveResult.rollbackAttempted && !saveResult.rollbackSucceeded then false
  else if saveResult.stage = .commit then false
  else saveResult.error.category = .deadlock || saveResult.error.category = .lockTimeout

namespace DBConnector

def insertBattleHistory (c : DBConnector) (result : BattleResult) : DBConnector × Bool :=
  c.querySave .battleHistory result.historyChanges

def insertPlayerBattleRecords (c : DBConnector) (result : BattleResult) : DBConnector × Bool :=
  c.querySave .playerBattleRecord result.recordChanges

def upsertPlayerBattleStats (c : DBConnector) (result : BattleResult) : DBConnector × Bool :=
  c.querySave .playerBattleStat result.statChanges

/-- The failure branch of the three save statements: keep the error, roll back. -/
def abandon (c : DBConnector) (stage : DBSaveStage) : DBConnector × DBSaveResult :=
  let originalError := c.lastError
  let rolled := c.rollback false
  (rolled.1,
    { stage := stage
      error := originalError
      rollbackAttempted := true
      rollbackSucceeded := rolled.2 })

/-- The failure branch of COMMIT. -/
def abandonCommit (c : DBConnector) : DBConnector × DBSaveResult :=
  let commitError := c.lastError
  let rolled := c.rollback true
  (rolled.1,
    { stage := .commit
      error := commitError
      rollbackAttempted := true
      rollbackSucceeded := rolled.2
      commitOutcomeUnknown := commitError.category = .connectionLost || !rolled.2 })

def saveBattleResultOnce (c : DBConnector) (result : BattleResult) :
    DBConnector × DBSaveResult :=
  let begun := c.beginTransaction
  if !begun.2 then
    (begun.1, { stage := .beginTransaction, error := begun.1.lastError })
  else
    let history := begun.1.insertBattleHistory result
    if !history.2 then
      history.1.abandon .battleHistory
    else
      let records := history.1.insertPlayerBattleRecords result
      if !records.2 then
        records.1.abandon .playerBattleRecord
      else
        let stats := records.1.upsertPlayerBattleStats result
        if !stats.2 then
          stats.1.abandon .playerBattleStat
        else
          let committed := stats.1.commit
          if !committed.2 then
            committed.1.abandonCommit
          else
            (committed.1, { succeeded := true })

/-- The loop of `SaveBattleResult` from the given attempt on, with `left` rounds
left; the value after the loop is the default result. -/
def saveAttempts (result : BattleResult) : Nat → Nat → DBConnector → DBConnector × DBSaveResult
  | 0, _, c => (c, {})
  | left + 1, attempt, c =>
      let once := c.saveBattleResultOnce result
      let saveResult := { once.2 with attemptCount := attempt }
      if saveResult.succeeded then
        (once.1, saveResult)
      else if !isRetryableSaveError saveResult then
        (once.1, saveResult)
      else if attempt = kMaxSaveAttempts then
        (once.1, { saveResult with retryExhausted := true })
      else
        saveAttempts result left (attempt + 1) once.1

def saveBattleResult (c : DBConnector) (result : BattleResult) : DBConnector × DBSaveResult :=
  saveAttempts result kMaxSaveAttempts 1 c

/-- The saves one DB worker makes on its connection, in order. -/
def saveAll (c : DBConnector) (results : List BattleResult) : DBConnector :=
  results.foldl (fun c result => (c.saveBattleResult result).1) c

end DBConnector

end SessionServer.Battle
