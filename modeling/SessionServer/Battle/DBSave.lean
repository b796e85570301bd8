/-
  Battle/DBSave.lean --- what one attempt, one call and a sequence of calls commit.

  `Once` says everything one `SaveBattleResultOnce` can do, as a relation between
  the connection before, the calls sent with their outcomes, the connection after
  and the result.  The retry loop and the sequence of saves are then reasoned about
  through it, never through the code again.
-/
import SessionServer.Battle.DB

set_option autoImplicit false

namespace SessionServer.Battle

/-- The calls of one attempt, with their errors. -/
abbrev Segment := List (Sent × Option DBErrorInfo)

namespace MysqlConnection

/-- The connection after a failed statement other than COMMIT. -/
def afterError (m : MysqlConnection) (error : DBErrorInfo) : MysqlConnection :=
  if error.category = .connectionLost then { m with transaction := none } else m

/-- The connection after a ROLLBACK with the given outcome; `applied` where it fails behind
a COMMIT that has taken effect. -/
def afterRollback (m : MysqlConnection) : Option DBErrorInfo → Bool → MysqlConnection
  | none, _ => { m with transaction := none }
  | some error, applied => if applied then m.commitOpen else m.afterError error

/-- The connection after a failed COMMIT; `applied` matters for a lost connection
only. -/
def afterCommitError (m : MysqlConnection) (error : DBErrorInfo) (applied : Bool) :
    MysqlConnection :=
  if error.category = .connectionLost ∧ applied then m.commitOpen else m.afterError error

@[simp] theorem afterError_committed (m : MysqlConnection) (error : DBErrorInfo) :
    (m.afterError error).committed = m.committed := by
  unfold afterError
  split <;> rfl

@[simp] theorem afterRollback_committed (m : MysqlConnection) (outcome : Option DBErrorInfo) :
    (m.afterRollback outcome false).committed = m.committed := by
  cases outcome <;> simp [afterRollback]

/-- A failed COMMIT has taken effect, or its changes are still pending or discarded. -/
theorem afterCommitError_cases (m : MysqlConnection) (error : DBErrorInfo) (applied : Bool) :
    m.afterCommitError error applied = m.commitOpen ∨
      (m.afterCommitError error applied).committed = m.committed ∧
        ((m.afterCommitError error applied).transaction = none ∨
          (m.afterCommitError error applied).transaction = m.transaction) := by
  unfold afterCommitError afterError
  split
  · exact Or.inl rfl
  · split
    · exact Or.inr ⟨rfl, Or.inl rfl⟩
    · exact Or.inr ⟨rfl, Or.inr rfl⟩

theorem afterError_transaction (m : MysqlConnection) (error : DBErrorInfo) :
    (m.afterError error).transaction = none ∨ m.afterError error = m := by
  unfold afterError
  split
  · exact Or.inl rfl
  · exact Or.inr rfl

theorem afterRollback_transaction (m : MysqlConnection) (outcome : Option DBErrorInfo) :
    (m.afterRollback outcome false).transaction = none ∨ m.afterRollback outcome false = m := by
  cases outcome with
  | none => exact Or.inl rfl
  | some error => exact m.afterError_transaction error

/-- A ROLLBACK settles whether a COMMIT has taken effect. -/
theorem afterRollback_cases (m : MysqlConnection) (outcome : Option DBErrorInfo)
    (applied : Bool) : (m.afterRollback outcome applied).committed = m.committed ∨
      m.afterRollback outcome applied = m.commitOpen := by
  cases outcome with
  | none => exact Or.inl rfl
  | some error =>
      cases applied with
      | false => exact Or.inl (m.afterError_committed error)
      | true => exact Or.inr rfl

end MysqlConnection

/-! ## The calls of the connector -/

namespace DBConnector

/-- What every call of the connector records. -/
theorem mysqlQuery_log (c : DBConnector) (sent : Sent) (statement : Statement) :
    (c.mysqlQuery sent statement).1.log = c.log ++
      [(sent, if (c.mysqlQuery sent statement).2 then none
        else some (c.mysqlQuery sent statement).1.lastError)] := by
  unfold mysqlQuery
  cases h : c.replies c.asked <;> simp

/-- A successful query had the reply `ok`. -/
theorem mysqlQuery_ok {c : DBConnector} {sent : Sent} {statement : Statement}
    (h : (c.mysqlQuery sent statement).2 = true) :
    (c.mysqlQuery sent statement).1.connection = c.connection.query statement .ok := by
  unfold mysqlQuery at h ⊢
  cases hr : c.replies c.asked with
  | ok => simp
  | error mysqlError applied => simp [hr] at h

/-- A failed query acts as `afterError` says, unless it is a COMMIT or the ROLLBACK behind it. -/
theorem mysqlQuery_failed {c : DBConnector} {sent : Sent} {statement : Statement}
    (hs : statement ≠ .commit) (hr : statement ≠ .rollback true)
    (h : (c.mysqlQuery sent statement).2 = false) :
    (c.mysqlQuery sent statement).1.connection =
      c.connection.afterError (c.mysqlQuery sent statement).1.lastError := by
  unfold mysqlQuery at h ⊢
  cases hreply : c.replies c.asked with
  | ok => simp [hreply] at h
  | error mysqlError applied => simp [MysqlConnection.query, MysqlConnection.afterError, hs, hr]

/-- A failed COMMIT acts as `afterCommitError` says. -/
theorem commit_failed {c : DBConnector} (h : c.commit.2 = false) :
    ∃ applied, c.commit.1.connection =
      c.connection.afterCommitError c.commit.1.lastError applied := by
  unfold commit mysqlQuery at h ⊢
  cases hr : c.replies c.asked with
  | ok => simp [hr] at h
  | error mysqlError applied =>
      refine ⟨applied, ?_⟩
      by_cases hlost : DBErrorCategory.ofMysqlError mysqlError = .connectionLost
      · cases applied <;> simp [MysqlConnection.query, MysqlConnection.afterCommitError,
          MysqlConnection.afterError, hlost]
      · simp [MysqlConnection.query, MysqlConnection.afterCommitError,
          MysqlConnection.afterError, hlost]

/-- A failed ROLLBACK acts as `afterRollback` says. -/
theorem rollback_failed {c : DBConnector} {afterCommit : Bool}
    (h : (c.rollback afterCommit).2 = false) :
    ∃ applied, (c.rollback afterCommit).1.connection =
      c.connection.afterRollback (some (c.rollback afterCommit).1.lastError)
        (afterCommit && applied) := by
  cases afterCommit with
  | false => exact ⟨false, mysqlQuery_failed (by simp) (by simp) h⟩
  | true =>
      unfold rollback mysqlQuery at h ⊢
      cases hreply : c.replies c.asked with
      | ok => simp [hreply] at h
      | error mysqlError applied =>
          refine ⟨applied, ?_⟩
          cases applied <;>
            simp [MysqlConnection.query, MysqlConnection.afterRollback, MysqlConnection.afterError]

/-- ROLLBACK acts as `afterRollback` of its outcome says, and records it. -/
theorem rollback_spec (c : DBConnector) (afterCommit : Bool) :
    ∃ outcome applied, (c.rollback afterCommit).2 = outcome.isNone ∧
      (c.rollback afterCommit).1.connection =
        c.connection.afterRollback outcome (afterCommit && applied) ∧
      (c.rollback afterCommit).1.log = c.log ++ [(.rollback, outcome)] := by
  have hlog := mysqlQuery_log c .rollback (.rollback afterCommit)
  cases h : (c.rollback afterCommit).2 with
  | true =>
      refine ⟨none, false, rfl, mysqlQuery_ok h, ?_⟩
      rw [rollback] at h ⊢
      rw [hlog, h]
      rfl
  | false =>
      obtain ⟨applied, hconn⟩ := rollback_failed h
      refine ⟨some (c.rollback afterCommit).1.lastError, applied, rfl, hconn, ?_⟩
      rw [rollback] at h ⊢
      rw [hlog, h]
      rfl

/-- A save statement inside a transaction either adds its changes or fails. -/
theorem querySave_spec (c : DBConnector) (stage : DBSaveStage) (changes pending : List Change)
    (hopen : c.connection.transaction = some pending) :
    ((c.querySave stage changes).2 = true ∧
      (c.querySave stage changes).1.connection =
        { c.connection with transaction := some (pending ++ changes) } ∧
      (c.querySave stage changes).1.log = c.log ++ [(.stage stage, none)]) ∨
    ((c.querySave stage changes).2 = false ∧
      (c.querySave stage changes).1.connection =
        c.connection.afterError (c.querySave stage changes).1.lastError ∧
      (c.querySave stage changes).1.log =
        c.log ++ [(.stage stage, some (c.querySave stage changes).1.lastError)]) := by
  unfold querySave
  split
  · generalize hc : { c with formatted := c.formatted + 1 } = c'
    have hconn : c'.connection = c.connection := by rw [← hc]
    have hlogc : c'.log = c.log := by rw [← hc]
    have hlog := mysqlQuery_log c' (.stage stage) (.save changes)
    cases h : (c'.mysqlQuery (.stage stage) (.save changes)).2 with
    | true =>
        left
        refine ⟨rfl, ?_, by rw [hlog, h, hlogc]; rfl⟩
        rw [mysqlQuery_ok h, hconn]
        simp [MysqlConnection.query, hopen]
    | false =>
        right
        refine ⟨rfl, ?_, by rw [hlog, h, hlogc]; rfl⟩
        rw [mysqlQuery_failed (by simp) (by simp) h, hconn]
  · right
    exact ⟨rfl, by simp [MysqlConnection.afterError], rfl⟩

end DBConnector

/-! ## One attempt -/

/-- The stages that succeeded before the given one is reached. -/
def DBSaveStage.before : DBSaveStage → List DBSaveStage
  | .none => []
  | .beginTransaction => []
  | .battleHistory => [.beginTransaction]
  | .playerBattleRecord => [.beginTransaction, .battleHistory]
  | .playerBattleStat => [.beginTransaction, .battleHistory, .playerBattleRecord]
  | .commit => [.beginTransaction, .battleHistory, .playerBattleRecord, .playerBattleStat]

/-- The changes of the match pending when the given stage is reached. -/
def BattleResult.pendingAt (result : BattleResult) : DBSaveStage → List Change
  | .none => []
  | .beginTransaction => []
  | .battleHistory => []
  | .playerBattleRecord => result.historyChanges
  | .playerBattleStat => result.historyChanges ++ result.recordChanges
  | .commit => result.changes

/-- The calls before a stage, all successful. -/
def DBSaveStage.prior (stage : DBSaveStage) : Segment :=
  stage.before.map fun earlier => (.stage earlier, Option.none)

/-- A stage whose statement is one of the three saves. -/
def DBSaveStage.IsSave (stage : DBSaveStage) : Prop :=
  stage = .battleHistory ∨ stage = .playerBattleRecord ∨ stage = .playerBattleStat

/-- The connection with the changes of the match pending that the stage finds,
after BEGIN has committed whatever was open. -/
def MysqlConnection.reached (m : MysqlConnection) (result : BattleResult)
    (stage : DBSaveStage) : MysqlConnection :=
  { m.commitOpen with transaction := some (result.pendingAt stage) }

/-- **Everything one `SaveBattleResultOnce` can do.** -/
inductive Once (m : MysqlConnection) (result : BattleResult) :
    Segment → MysqlConnection → DBSaveResult → Prop where
  | saved :
      Once m result (DBSaveStage.commit.prior ++ [(.stage .commit, none)])
        (m.reached result .commit).commitOpen { succeeded := true }
  | beginFailed (error : DBErrorInfo) :
      Once m result [(.stage .beginTransaction, some error)] (m.afterError error)
        { stage := .beginTransaction, error := error }
  | saveFailed (stage : DBSaveStage) (hstage : stage.IsSave) (error : DBErrorInfo)
      (rolled : Option DBErrorInfo) :
      Once m result (stage.prior ++ [(.stage stage, some error), (.rollback, rolled)])
        (((m.reached result stage).afterError error).afterRollback rolled false)
        { stage := stage, error := error, rollbackAttempted := true,
          rollbackSucceeded := rolled.isNone }
  | commitFailed (error : DBErrorInfo) (applied : Bool) (rolled : Option DBErrorInfo)
      (late : Bool) :
      Once m result
        (DBSaveStage.commit.prior ++ [(.stage .commit, some error), (.rollback, rolled)])
        (((m.reached result .commit).afterCommitError error applied).afterRollback rolled late)
        { stage := .commit, error := error, rollbackAttempted := true,
          rollbackSucceeded := rolled.isNone,
          commitOutcomeUnknown := error.category = .connectionLost || !rolled.isNone }

namespace DBConnector

/-- The connector `c'` has reached `stage` of an attempt begun on `c`. -/
structure At (c : DBConnector) (result : BattleResult) (stage : DBSaveStage)
    (c' : DBConnector) : Prop where
  connection : c'.connection = c.connection.reached result stage
  log : c'.log = c.log ++ stage.prior

/-- An attempt that ended in `out`. -/
def Attempted (c : DBConnector) (result : BattleResult)
    (out : DBConnector × DBSaveResult) : Prop :=
  ∃ segment : Segment, out.1.log = c.log ++ segment ∧
    Once c.connection result segment out.1.connection out.2

/-- A failed save statement is rolled back. -/
theorem At.abandon {c c' : DBConnector} {result : BattleResult} {stage : DBSaveStage}
    (hstage : stage.IsSave)
    (hconn : c'.connection = (c.connection.reached result stage).afterError c'.lastError)
    (hlog : c'.log = c.log ++ stage.prior ++ [(.stage stage, some c'.lastError)]) :
    c.Attempted result (c'.abandon stage) := by
  obtain ⟨rolled, _, hok, hafter, hlog'⟩ := c'.rollback_spec false
  rw [Bool.false_and] at hafter
  refine ⟨stage.prior ++ [(.stage stage, some c'.lastError), (.rollback, rolled)], ?_, ?_⟩
  · rw [DBConnector.abandon, hlog', hlog]
    simp
  · have h : Once c.connection result _ _ _ := .saveFailed stage hstage c'.lastError rolled
    rw [← hconn] at h
    simpa only [DBConnector.abandon, hafter, hok] using h

/-- The two outcomes of a save statement at its stage. -/
theorem At.save {c c' : DBConnector} {result : BattleResult} {stage : DBSaveStage}
    (h : c.At result stage c') (next : DBSaveStage) (changes : List Change) (hstage : stage.IsSave)
    (hbefore : next.before = stage.before ++ [stage])
    (hpending : result.pendingAt next = result.pendingAt stage ++ changes) :
    ((c'.querySave stage changes).2 = true ∧
      c.At result next (c'.querySave stage changes).1) ∨
    ((c'.querySave stage changes).2 = false ∧
      c.Attempted result ((c'.querySave stage changes).1.abandon stage)) := by
  have hopen : c'.connection.transaction = some (result.pendingAt stage) := by
    rw [h.connection]
    rfl
  rcases c'.querySave_spec stage changes _ hopen with ⟨hok, hconn, hlog⟩ | ⟨hfail, hconn, hlog⟩
  · refine Or.inl ⟨hok, ?_, ?_⟩
    · rw [hconn, h.connection]
      simp [MysqlConnection.reached, hpending]
    · rw [hlog, h.log]
      simp [DBSaveStage.prior, hbefore]
  · refine Or.inr ⟨hfail, At.abandon hstage ?_ ?_⟩
    · rw [hconn, h.connection]
    · rw [hlog, h.log]

/-- The two outcomes of BEGIN. -/
theorem beginTransaction_spec (c : DBConnector) (result : BattleResult) :
    (c.beginTransaction.2 = true ∧ c.At result .battleHistory c.beginTransaction.1) ∨
    (c.beginTransaction.2 = false ∧
      c.Attempted result (c.beginTransaction.1,
        { stage := .beginTransaction, error := c.beginTransaction.1.lastError })) := by
  have hlog := mysqlQuery_log c (.stage .beginTransaction) .begin_
  cases h : c.beginTransaction.2 with
  | true =>
      refine Or.inl ⟨rfl, ?_, ?_⟩
      · exact mysqlQuery_ok h
      · rw [beginTransaction] at h ⊢
        rw [hlog, h]
        rfl
  | false =>
      refine Or.inr ⟨rfl, [(.stage .beginTransaction, some c.beginTransaction.1.lastError)],
        ?_, ?_⟩
      · rw [beginTransaction] at h ⊢
        rw [hlog, h]
        rfl
      · have hconn := mysqlQuery_failed (by simp) (by simp) h
        have hspec : Once c.connection result _ _ _ :=
          .beginFailed c.beginTransaction.1.lastError
        rw [beginTransaction] at hspec ⊢
        rw [← hconn] at hspec
        exact hspec

/-- The two outcomes of COMMIT. -/
theorem At.commit {c c' : DBConnector} {result : BattleResult} (h : c.At result .commit c') :
    (c'.commit.2 = true ∧ c.Attempted result (c'.commit.1, { succeeded := true })) ∨
    (c'.commit.2 = false ∧ c.Attempted result c'.commit.1.abandonCommit) := by
  have hlog := mysqlQuery_log c' (.stage .commit) .commit
  cases hok : c'.commit.2 with
  | true =>
      refine Or.inl ⟨rfl, DBSaveStage.commit.prior ++ [(.stage .commit, none)], ?_, ?_⟩
      · rw [DBConnector.commit] at hok ⊢
        rw [hlog, hok, h.log]
        simp
      · have hspec : Once c.connection result _ _ _ := .saved
        have hconn : c'.commit.1.connection = (c.connection.reached result .commit).commitOpen := by
          rw [← h.connection]
          exact mysqlQuery_ok hok
        rw [← hconn] at hspec
        exact hspec
  | false =>
      obtain ⟨applied, hconn⟩ := commit_failed hok
      obtain ⟨rolled, late, hrolled, hafter, hlog'⟩ := c'.commit.1.rollback_spec true
      rw [Bool.true_and] at hafter
      refine Or.inr ⟨rfl, DBSaveStage.commit.prior ++
        [(.stage .commit, some c'.commit.1.lastError), (.rollback, rolled)], ?_, ?_⟩
      · rw [abandonCommit, hlog']
        rw [DBConnector.commit] at hok ⊢
        rw [hlog, hok, h.log]
        simp
      · have hspec : Once c.connection result _ _ _ :=
          .commitFailed c'.commit.1.lastError applied rolled late
        rw [← h.connection, ← hconn, ← hafter] at hspec
        simpa only [abandonCommit, hrolled] using hspec

/-- One attempt does what `Once` says. -/
theorem saveBattleResultOnce_spec (c : DBConnector) (result : BattleResult) :
    c.Attempted result (c.saveBattleResultOnce result) := by
  unfold saveBattleResultOnce
  rcases c.beginTransaction_spec result with ⟨hb, hat⟩ | ⟨hb, hout⟩
  · simp only [hb, Bool.not_true, Bool.false_eq_true, if_false]
    rcases hat.save .playerBattleRecord result.historyChanges
      (Or.inl rfl) rfl rfl with ⟨hh, hat⟩ | ⟨hh, hout⟩
    · simp only [insertBattleHistory, hh, Bool.not_true, Bool.false_eq_true, if_false]
      rcases hat.save .playerBattleStat result.recordChanges
        (Or.inr (Or.inl rfl)) rfl rfl with ⟨hr, hat⟩ | ⟨hr, hout⟩
      · simp only [insertPlayerBattleRecords, hr, Bool.not_true, Bool.false_eq_true, if_false]
        rcases hat.save .commit result.statChanges
          (Or.inr (Or.inr rfl)) rfl rfl with ⟨hs, hat⟩ | ⟨hs, hout⟩
        · simp only [upsertPlayerBattleStats, hs, Bool.not_true, Bool.false_eq_true, if_false]
          rcases hat.commit with ⟨hc, hout⟩ | ⟨hc, hout⟩
          · simpa only [hc, Bool.not_true, Bool.false_eq_true, if_false] using hout
          · simpa only [hc, Bool.not_false, if_true] using hout
        · simpa only [upsertPlayerBattleStats, hs, Bool.not_false, if_true] using hout
      · simpa only [insertPlayerBattleRecords, hr, Bool.not_false, if_true] using hout
    · simpa only [insertBattleHistory, hh, Bool.not_false, if_true] using hout
  · simpa only [hb, Bool.not_false, if_true] using hout

end DBConnector

/-! ## One call -/

/-- The calls of one attempt: BEGIN first, and no other BEGIN. -/
def Segment.IsAttempt (segment : Segment) : Prop :=
  ∃ outcome rest, segment = (.stage .beginTransaction, outcome) :: rest ∧
    ∀ other, (.stage .beginTransaction, other) ∉ rest

/-- The first call of the attempt that failed. -/
def Segment.firstError (segment : Segment) : Option (Sent × Option DBErrorInfo) :=
  segment.find? fun call => call.2.isSome

/-- The attempt failed before COMMIT with a deadlock or a lock timeout, and any
rollback it attempted succeeded. -/
def Segment.RetryableFailure (segment : Segment) : Prop :=
  (∃ stage error, segment.firstError = some (.stage stage, some error) ∧
    (error.category = .deadlock ∨ error.category = .lockTimeout)) ∧
  (∀ outcome, (.stage .commit, outcome) ∉ segment) ∧
  (∀ outcome, (.rollback, outcome) ∈ segment → outcome = none)

namespace Once

variable {m m' : MysqlConnection} {result : BattleResult} {segment : Segment}
  {saveResult : DBSaveResult}

theorem isAttempt (h : Once m result segment m' saveResult) : segment.IsAttempt := by
  cases h with
  | saved => exact ⟨_, _, rfl, by simp⟩
  | beginFailed error => exact ⟨_, _, rfl, by simp⟩
  | saveFailed stage hstage error rolled =>
      rcases hstage with rfl | rfl | rfl <;> exact ⟨_, _, rfl, by simp⟩
  | commitFailed error applied rolled late => exact ⟨_, _, rfl, by simp⟩

/-- The retry loop alone reports exhaustion. -/
theorem not_retryExhausted (h : Once m result segment m' saveResult) :
    saveResult.retryExhausted = false := by
  cases h <;> rfl

/-- Success is the success of COMMIT. -/
theorem succeeded_iff (h : Once m result segment m' saveResult) :
    saveResult.succeeded = true ↔ (.stage .commit, none) ∈ segment := by
  cases h with
  | saved => simp
  | beginFailed error => simp
  | saveFailed stage hstage error rolled =>
      rcases hstage with rfl | rfl | rfl <;> simp [DBSaveStage.prior, DBSaveStage.before]
  | commitFailed error applied rolled late => simp [DBSaveStage.prior, DBSaveStage.before]

/-- The reported error is that of the first call that failed. -/
theorem error_eq (h : Once m result segment m' saveResult)
    (hfail : saveResult.succeeded = false) :
    segment.firstError = some (.stage saveResult.stage, some saveResult.error) := by
  cases h with
  | saved => simp at hfail
  | beginFailed error => rfl
  | saveFailed stage hstage error rolled => rcases hstage with rfl | rfl | rfl <;> rfl
  | commitFailed error applied rolled late => rfl

/-- The retry test of the code is the retry condition on the calls made. -/
theorem isRetryable_iff (h : Once m result segment m' saveResult)
    (hfail : saveResult.succeeded = false) :
    isRetryableSaveError saveResult = true ↔ segment.RetryableFailure := by
  have herror := h.error_eq hfail
  unfold Segment.RetryableFailure
  rw [herror]
  cases h with
  | saved => simp at hfail
  | beginFailed error => simp [isRetryableSaveError]
  | saveFailed stage hstage error rolled =>
      rcases hstage with rfl | rfl | rfl <;> cases rolled <;>
        simp [isRetryableSaveError, DBSaveStage.prior, DBSaveStage.before]
  | commitFailed error applied rolled late =>
      constructor
      · intro hretry
        simp [isRetryableSaveError] at hretry
      · rintro ⟨_, hcommit, _⟩
        exact absurd (by simp) (hcommit (some error))

/-- A retryable attempt leaves a connection without open transaction as it was. -/
theorem retryable_connection (h : Once m result segment m' saveResult)
    (hopen : m.transaction = none) (hretry : segment.RetryableFailure) : m' = m := by
  obtain ⟨⟨stage, error, herror, hcategory⟩, hcommit, hroll⟩ := hretry
  have hkept : error.category ≠ .connectionLost := by
    rcases hcategory with h | h <;> simp [h]
  have hbase : { m.commitOpen with transaction := none } = m := by
    cases m
    simp_all [MysqlConnection.commitOpen]
  cases h with
  | saved => exact absurd (by simp) (hcommit none)
  | beginFailed error' =>
      simp only [Segment.firstError, List.find?_cons, Option.isSome_some, Option.some.injEq,
        Prod.mk.injEq] at herror
      obtain ⟨_, rfl⟩ := herror
      simp [MysqlConnection.afterError, hkept]
  | saveFailed stage' hstage error' rolled =>
      have hrolled := hroll rolled (by simp)
      subst hrolled
      have hcommitted :
          (((m.reached result stage').afterError error').afterRollback none false).committed =
            m.committed := by
        simp [MysqlConnection.reached, MysqlConnection.commitOpen, hopen]
      cases m
      simp_all [MysqlConnection.afterRollback]
  | commitFailed error' applied rolled late => exact absurd (by simp) (hcommit (some error'))

/-- A successful attempt commits the changes of the match, once. -/
theorem succeeded_committed (h : Once m result segment m' saveResult)
    (hopen : m.transaction = none) (hok : saveResult.succeeded = true) :
    m'.committed = m.committed ++ result.changes := by
  cases h with
  | saved => simp [MysqlConnection.commitOpen, MysqlConnection.reached, hopen,
      BattleResult.pendingAt]
  | beginFailed error => simp at hok
  | saveFailed stage hstage error rolled => simp at hok
  | commitFailed error applied rolled late => simp at hok

/-- A successful attempt leaves no transaction open. -/
theorem succeeded_transaction (h : Once m result segment m' saveResult)
    (hok : saveResult.succeeded = true) : m'.transaction = none := by
  cases h with
  | saved => rfl
  | beginFailed error => simp at hok
  | saveFailed stage hstage error rolled => simp at hok
  | commitFailed error applied rolled late => simp at hok

/-- A failed attempt whose COMMIT outcome is known commits nothing. -/
theorem failed_committed (h : Once m result segment m' saveResult)
    (hopen : m.transaction = none) (hfail : saveResult.succeeded = false)
    (hknown : saveResult.commitOutcomeUnknown = false) : m'.committed = m.committed := by
  cases h with
  | saved => simp at hfail
  | beginFailed error => simp
  | saveFailed stage hstage error rolled =>
      simp [MysqlConnection.reached, MysqlConnection.commitOpen, hopen]
  | commitFailed error applied rolled late =>
      -- A known outcome is that of a ROLLBACK that has succeeded.
      simp only [Bool.or_eq_false_iff, decide_eq_false_iff_not, Bool.not_eq_false'] at hknown
      obtain rfl := Option.isNone_iff_eq_none.mp hknown.2
      simp [MysqlConnection.afterRollback, MysqlConnection.afterCommitError, hknown.1,
        MysqlConnection.reached, MysqlConnection.commitOpen, hopen]

/-- No attempt commits more than the changes of its match. -/
theorem committed_cases (h : Once m result segment m' saveResult)
    (hopen : m.transaction = none) :
    m'.committed = m.committed ∨ m'.committed = m.committed ++ result.changes := by
  cases h with
  | saved =>
      exact Or.inr (Once.saved.succeeded_committed hopen rfl)
  | beginFailed error => exact Or.inl (by simp)
  | saveFailed stage hstage error rolled =>
      exact Or.inl (by simp [MysqlConnection.reached, MysqlConnection.commitOpen, hopen])
  | commitFailed error applied rolled late =>
      rcases MysqlConnection.afterCommitError_cases (m.reached result .commit) error applied with
        heq | ⟨hcommitted, hpending⟩
      · -- The COMMIT has taken effect, and the ROLLBACK finds nothing open.
        right
        rw [heq]
        rcases ((m.reached result .commit).commitOpen).afterRollback_cases rolled late with
          hkept | hopened
        · rw [hkept]
          simp [MysqlConnection.reached, MysqlConnection.commitOpen, hopen, BattleResult.pendingAt]
        · rw [hopened]
          simp [MysqlConnection.reached, MysqlConnection.commitOpen, hopen, BattleResult.pendingAt]
      · rcases ((m.reached result .commit).afterCommitError error applied).afterRollback_cases
          rolled late with hkept | hopened
        · left
          rw [hkept, hcommitted]
          simp [MysqlConnection.reached, MysqlConnection.commitOpen, hopen]
        · rw [hopened, MysqlConnection.commitOpen, hcommitted]
          rcases hpending with hnone | hsame
          · left
            rw [hnone]
            simp [MysqlConnection.reached, MysqlConnection.commitOpen, hopen]
          · right
            rw [hsame]
            simp [MysqlConnection.reached, MysqlConnection.commitOpen, hopen,
              BattleResult.pendingAt]

end Once

namespace DBConnector

/-- What the retry loop does from attempt `first` on, with `left` rounds left: the
attempts it made, as the calls it sent, and the result it returned. -/
structure Saves (c : DBConnector) (result : BattleResult) (first left : Nat)
    (out : DBConnector × DBSaveResult) (attempts : List Segment) : Prop where
  /-- the calls sent are those of the attempts -/
  log : out.1.log = c.log ++ attempts.flatten
  isAttempt : ∀ segment ∈ attempts, segment.IsAttempt
  bound : attempts.length ≤ left
  /-- an attempt was followed by another one only after a retryable failure -/
  retry : ∀ segment ∈ attempts.dropLast, segment.RetryableFailure
  /-- the changes of the match are committed at most once -/
  committed : out.1.connection.committed = c.connection.committed ∨
    out.1.connection.committed = c.connection.committed ++ result.changes
  /-- success is the success of the last attempt's COMMIT -/
  succeeded : out.2.succeeded = true ↔
    ∃ last, attempts.getLast? = some last ∧ (.stage .commit, none) ∈ last
  /-- a success has committed the changes, once -/
  saved : out.2.succeeded = true →
    out.1.connection.committed = c.connection.committed ++ result.changes
  /-- a failure with known outcome has committed nothing -/
  nothing : out.2.succeeded = false → out.2.commitOutcomeUnknown = false →
    out.1.connection.committed = c.connection.committed
  attemptCount : out.2.attemptCount + 1 = first + attempts.length
  retryExhausted : out.2.retryExhausted = true ↔
    attempts.length = left ∧ ∀ segment ∈ attempts, segment.RetryableFailure
  /-- the error reported is that of the first failed call of the last attempt, which
  its rollback follows -/
  error : out.2.succeeded = false →
    ∃ last, attempts.getLast? = some last ∧
      last.firstError = some (.stage out.2.stage, some out.2.error)

/-- The loop stops after one attempt. -/
theorem Saves.single {c c' : DBConnector} {result : BattleResult} (first left : Nat)
    {segment : Segment} {saveResult : DBSaveResult} (exhausted : Bool)
    (hlog : c'.log = c.log ++ segment)
    (honce : Once c.connection result segment c'.connection saveResult)
    (hopen : c.connection.transaction = none) (hleft : 0 < left)
    (hexhausted : exhausted = true ↔ left = 1 ∧ segment.RetryableFailure) :
    c.Saves result first left
      (c', { saveResult with attemptCount := first, retryExhausted := exhausted })
      [segment] where
  log := by simpa using hlog
  isAttempt := by simpa using honce.isAttempt
  bound := hleft
  retry := by simp
  committed := honce.committed_cases hopen
  succeeded := by simpa using honce.succeeded_iff
  saved := honce.succeeded_committed hopen
  nothing := honce.failed_committed hopen
  attemptCount := rfl
  retryExhausted := by
    rw [hexhausted]
    simp [eq_comm]
  error := by simpa using honce.error_eq

/-- A retryable attempt, then the rest of the loop. -/
theorem Saves.cons {c c' : DBConnector} {result : BattleResult} {first left : Nat}
    {segment : Segment} {attempts : List Segment} {out : DBConnector × DBSaveResult}
    (hlog : c'.log = c.log ++ segment) (hattempt : segment.IsAttempt)
    (hretry : segment.RetryableFailure) (hconn : c'.connection = c.connection)
    (h : c'.Saves result (first + 1) left out attempts) (hne : attempts ≠ []) :
    c.Saves result first (left + 1) out (segment :: attempts) where
  log := by
    rw [h.log, hlog]
    simp
  isAttempt := by
    simpa [hattempt] using h.isAttempt
  bound := by simpa using h.bound
  retry := by
    rw [List.dropLast_cons_of_ne_nil hne]
    simpa [hretry] using h.retry
  committed := hconn ▸ h.committed
  succeeded := by
    rw [List.getLast?_cons_of_ne_nil hne]
    exact h.succeeded
  saved := hconn ▸ h.saved
  nothing := hconn ▸ h.nothing
  attemptCount := by
    have := h.attemptCount
    simp only [List.length_cons]
    omega
  retryExhausted := by
    rw [h.retryExhausted]
    simp [hretry]
  error := by
    rw [List.getLast?_cons_of_ne_nil hne]
    exact h.error

theorem saveAttempts_spec (result : BattleResult) :
    ∀ (left first : Nat) (c : DBConnector), 0 < left → first + left = kMaxSaveAttempts + 1 →
      c.connection.transaction = none →
      ∃ attempts, attempts ≠ [] ∧
        c.Saves result first left (saveAttempts result left first c) attempts := by
  intro left
  induction left with
  | zero => intro first c hpos; omega
  | succ left ih =>
      intro first c _ hsum hopen
      obtain ⟨segment, hlog, honce⟩ := c.saveBattleResultOnce_spec result
      unfold saveAttempts
      generalize c.saveBattleResultOnce result = once at *
      -- Stopping here is right unless this was the last round of a retryable failure.
      have hstop : ¬ (left + 1 = 1 ∧ segment.RetryableFailure) →
          c.Saves result first (left + 1) (once.1, { once.2 with attemptCount := first })
            [segment] := by
        intro hnot
        have h := Saves.single first (left + 1) false hlog honce hopen
          (by omega) (by simpa using hnot)
        rwa [← honce.not_retryExhausted] at h
      by_cases hok : once.2.succeeded = true
      · simp only [hok, if_true]
        refine ⟨[segment], by simp, hok ▸ hstop ?_⟩
        rintro ⟨_, hretry⟩
        exact absurd (honce.succeeded_iff.mp hok) (hretry.2.1 none)
      · have hfail : once.2.succeeded = false := by simpa using hok
        have htest : isRetryableSaveError { once.2 with attemptCount := first } =
            isRetryableSaveError once.2 := rfl
        simp only [htest]
        by_cases hretry : segment.RetryableFailure
        · have hretryable := (honce.isRetryable_iff hfail).mpr hretry
          by_cases hmax : first = kMaxSaveAttempts
          · have hleft : left = 0 := by omega
            simp only [hok, hretryable, Bool.not_true, Bool.false_eq_true, if_false, hmax, if_true]
            refine ⟨[segment], by simp, ?_⟩
            have h := Saves.single kMaxSaveAttempts (left + 1) true hlog honce hopen
              (Nat.succ_pos left) (by simp [hleft, hretry])
            rwa [hfail] at h
          · simp only [hok, hretryable, Bool.not_true, Bool.false_eq_true, if_false, hmax]
            have hconn := honce.retryable_connection hopen hretry
            obtain ⟨attempts, hne, hrest⟩ := ih (first + 1) once.1
              (by omega) (by omega) (by rw [hconn]; exact hopen)
            exact ⟨segment :: attempts, by simp,
              Saves.cons hlog honce.isAttempt hretry hconn hrest hne⟩
        · have hretryable : isRetryableSaveError once.2 = false := by
            have hnot : ¬ isRetryableSaveError once.2 = true :=
              fun h => hretry ((honce.isRetryable_iff hfail).mp h)
            simpa using hnot
          simp only [hok, hretryable, Bool.not_false, Bool.false_eq_true, if_false, if_true]
          exact ⟨[segment], by simp, by simpa only [hfail] using hstop fun h => hretry h.2⟩

/-- A successful save leaves no transaction open. -/
theorem saveAttempts_transaction (result : BattleResult) :
    ∀ (left first : Nat) (c : DBConnector),
      (saveAttempts result left first c).2.succeeded = true →
        (saveAttempts result left first c).1.connection.transaction = none := by
  intro left
  induction left with
  | zero => intro first c hok; simp [saveAttempts] at hok
  | succ left ih =>
      intro first c
      obtain ⟨segment, _, honce⟩ := c.saveBattleResultOnce_spec result
      unfold saveAttempts
      generalize c.saveBattleResultOnce result = once at *
      simp only
      split
      · exact fun hok => honce.succeeded_transaction hok
      · rename_i hfail
        split
        · exact fun hok => absurd hok hfail
        · split
          · exact fun hok => absurd hok hfail
          · exact ih (first + 1) once.1

end DBConnector

end SessionServer.Battle
