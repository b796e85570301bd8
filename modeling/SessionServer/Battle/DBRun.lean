/-
  Battle/DBRun.lean --- saves on one connection.

  A call started without an open transaction is retry safe.  Across calls the
  connection may carry a transaction that an earlier call could not roll back, and
  the next BEGIN commits it.  Whole matches stay whole as long as no call leaves
  part of a match in such a transaction (`LeavesPartial`).
-/
import SessionServer.Battle.DBSave

set_option autoImplicit false

namespace SessionServer.Battle

/-! ## One call without an open transaction -/

/-- **Retry safety of one `SaveBattleResult` call**, for every outcome of every
statement: `Saves` with the attempts counted from 1 and at most three of them. -/
theorem saveBattleResult_saves (c : DBConnector) (result : BattleResult)
    (hopen : c.connection.transaction = none) :
    ∃ attempts, attempts ≠ [] ∧
      c.Saves result 1 3 (c.saveBattleResult result) attempts :=
  DBConnector.saveAttempts_spec result kMaxSaveAttempts 1 c (by decide) rfl hopen

/-- A connector just connected, with the replies to come. -/
def connected (replies : Nat → Reply) : DBConnector where
  connection := ⟨[], none⟩
  lastError := {}
  replies := replies
  asked := 0
  formats := fun _ => true
  formatted := 0
  log := []

/-- A battle of the sessions 1 to 6. -/
def battle (matchID : Int) : BattleResult :=
  ⟨matchID, 1, fun i => i + 1, fun i => i + 4⟩

/-- A deadlock at the first INSERT, rolled back, and then a second attempt. -/
def deadlockOnce : Nat → Reply
  | 1 => .error 1213 false
  | _ => .ok

theorem deadlockOnce_saves :
    (connected deadlockOnce).connection.transaction = none ∧
      ∃ attempts, attempts ≠ [] ∧ (connected deadlockOnce).Saves (battle 1) 1 3
        ((connected deadlockOnce).saveBattleResult (battle 1)) attempts :=
  ⟨rfl, saveBattleResult_saves (connected deadlockOnce) (battle 1) rfl⟩

example : ((connected deadlockOnce).saveBattleResult (battle 1)).2 =
    { succeeded := true, attemptCount := 2 } := by decide +kernel

/-- A COMMIT that fails after it has taken effect, and then a ROLLBACK that fails. -/
def commitInDoubt : Nat → Reply
  | 4 => .error 1105 false
  | 5 => .error 1105 true
  | _ => .ok

example : ((connected commitInDoubt).saveBattleResult (battle 1)).2.commitOutcomeUnknown = true ∧
    ((connected commitInDoubt).saveBattleResult (battle 1)).1.connection.committed =
      (battle 1).changes := by decide +kernel

/-! ## Calls that leave part of a match behind -/

/-- Some save statement after the first one failed, and neither it nor the failed
ROLLBACK after it lost the connection: part of the match stays in the open
transaction. -/
def LeavesPartial (log : Segment) : Prop :=
  ∃ before stage error rolled after,
    log = before ++ (.stage stage, some error) :: (.rollback, some rolled) :: after ∧
    (stage = .playerBattleRecord ∨ stage = .playerBattleStat) ∧
    error.category ≠ .connectionLost ∧ rolled.category ≠ .connectionLost

theorem LeavesPartial.append_left {log : Segment} (h : LeavesPartial log) (more : Segment) :
    LeavesPartial (more ++ log) := by
  obtain ⟨before, stage, error, rolled, after, rfl, hrest⟩ := h
  exact ⟨more ++ before, stage, error, rolled, after, by simp, hrest⟩

theorem LeavesPartial.append_right {log : Segment} (h : LeavesPartial log) (more : Segment) :
    LeavesPartial (log ++ more) := by
  obtain ⟨before, stage, error, rolled, after, rfl, hrest⟩ := h
  exact ⟨before, stage, error, rolled, after ++ more, by simp, hrest⟩

/-! ## Whole matches -/

/-- The changes of a list of matches, one after the other. -/
def allChanges (results : List BattleResult) : List Change :=
  results.flatMap BattleResult.changes

@[simp] theorem allChanges_nil : allChanges [] = [] := rfl

@[simp] theorem allChanges_append (xs ys : List BattleResult) :
    allChanges (xs ++ ys) = allChanges xs ++ allChanges ys := by
  simp [allChanges]

@[simp] theorem allChanges_singleton (result : BattleResult) :
    allChanges [result] = result.changes := by
  simp [allChanges]

/-- What is committed, and what is pending, is made of whole matches among the
calls, in their order. -/
def WholeMatches (calls : List BattleResult) (m : MysqlConnection) : Prop :=
  ∃ saved left, (saved ++ left).Sublist calls ∧ m.committed = allChanges saved ∧
    m.transaction.getD [] = allChanges left

namespace WholeMatches

variable {calls : List BattleResult} {m m' : MysqlConnection}

theorem mono (h : WholeMatches calls m) (more : List BattleResult) :
    WholeMatches (calls ++ more) m := by
  obtain ⟨saved, left, hsub, hc, hp⟩ := h
  exact ⟨saved, left, hsub.trans (List.sublist_append_left calls more), hc, hp⟩

/-- Committing the open transaction keeps matches whole. -/
theorem commitOpen (h : WholeMatches calls m) : WholeMatches calls m.commitOpen := by
  obtain ⟨saved, left, hsub, hc, hp⟩ := h
  refine ⟨saved ++ left, [], by simpa using hsub, ?_, rfl⟩
  simp [MysqlConnection.commitOpen, hc, hp]

/-- Dropping the open transaction keeps matches whole. -/
theorem drop (h : WholeMatches calls m) (hc' : m'.committed = m.committed)
    (hp' : m'.transaction.getD [] = []) : WholeMatches calls m' := by
  obtain ⟨saved, left, hsub, hc, _⟩ := h
  have hsaved : saved.Sublist calls := (List.sublist_append_left saved left).trans hsub
  exact ⟨saved, [], by simpa using hsaved, hc'.trans hc, hp'⟩

theorem afterError (h : WholeMatches calls m) (error : DBErrorInfo) :
    WholeMatches calls (m.afterError error) := by
  rcases m.afterError_transaction error with hnone | heq
  · exact h.drop (by simp) (by simp [hnone])
  · rwa [heq]

theorem afterRollback (h : WholeMatches calls m) (outcome : Option DBErrorInfo)
    (applied : Bool) : WholeMatches calls (m.afterRollback outcome applied) := by
  cases outcome with
  | none => exact h.drop rfl rfl
  | some error =>
      cases applied with
      | false => exact h.afterError error
      | true => exact h.commitOpen

/-- BEGIN and all three statements: the whole match is pending. -/
theorem reached_commit (h : WholeMatches calls m) (result : BattleResult) :
    WholeMatches (calls ++ [result]) (m.reached result .commit) := by
  obtain ⟨saved, left, hsub, hc, hp⟩ := h
  refine ⟨saved ++ left, [result], hsub.append_right [result], ?_, ?_⟩
  · simp [MysqlConnection.reached, MysqlConnection.commitOpen, hc, hp]
  · simp [MysqlConnection.reached, BattleResult.pendingAt]

/-- A failed save statement that is cleaned up, or had nothing before it. -/
theorem reached_failed (h : WholeMatches calls m) (result : BattleResult) (stage : DBSaveStage)
    (error : DBErrorInfo) (rolled : Option DBErrorInfo)
    (hclean : (((m.reached result stage).afterError error).afterRollback rolled
      false).transaction.getD [] = []) :
    WholeMatches calls (((m.reached result stage).afterError error).afterRollback rolled false) :=
  h.commitOpen.drop (by simp [MysqlConnection.reached]) hclean

end WholeMatches

/-- An attempt that leaves no part of its match behind keeps matches whole. -/
theorem Once.wholeMatches {m m' : MysqlConnection} {result : BattleResult} {segment : Segment}
    {saveResult : DBSaveResult} (h : Once m result segment m' saveResult)
    {calls : List BattleResult} (hwhole : WholeMatches calls m)
    (hclean : ¬ LeavesPartial segment) : WholeMatches (calls ++ [result]) m' := by
  cases h with
  | saved => exact (hwhole.reached_commit result).commitOpen
  | beginFailed error => exact (hwhole.afterError error).mono [result]
  | saveFailed stage hstage error rolled =>
      refine (hwhole.reached_failed result stage error rolled ?_).mono [result]
      rcases hstage with rfl | hstage
      · -- Nothing of the match is pending at the first statement.
        rcases ((m.reached result .battleHistory).afterError error).afterRollback_transaction
          rolled with hnone | heq
        · simp [hnone]
        · rcases (m.reached result .battleHistory).afterError_transaction error with
            hnone | heq'
          · rw [heq, hnone]
            rfl
          · rw [heq, heq']
            rfl
      · -- Otherwise the statement or the rollback discarded the transaction.
        by_cases hlost : error.category = .connectionLost
        · rcases ((m.reached result stage).afterError error).afterRollback_transaction rolled
            with hnone | heq
          · simp [hnone]
          · rw [heq]
            simp [MysqlConnection.afterError, hlost]
        · cases rolled with
          | none => simp [MysqlConnection.afterRollback]
          | some rolled =>
              by_cases hroll : rolled.category = .connectionLost
              · simp [MysqlConnection.afterRollback, MysqlConnection.afterError, hroll]
              · exact absurd ⟨stage.prior, stage, error, rolled, [], rfl, hstage, hlost, hroll⟩
                  hclean
  | commitFailed error applied rolled late =>
      refine WholeMatches.afterRollback ?_ rolled late
      unfold MysqlConnection.afterCommitError
      split
      · exact (hwhole.reached_commit result).commitOpen
      · exact (hwhole.reached_commit result).afterError error

/-- A retryable attempt adds nothing of its match. -/
theorem Once.wholeMatches_retryable {m m' : MysqlConnection} {result : BattleResult}
    {segment : Segment} {saveResult : DBSaveResult} (h : Once m result segment m' saveResult)
    {calls : List BattleResult} (hwhole : WholeMatches calls m)
    (hretry : segment.RetryableFailure) : WholeMatches calls m' := by
  obtain ⟨_, hcommit, hroll⟩ := hretry
  cases h with
  | saved => exact absurd (by simp) (hcommit none)
  | beginFailed error => exact hwhole.afterError error
  | saveFailed stage hstage error rolled =>
      have hrolled := hroll rolled (by simp)
      subst hrolled
      exact hwhole.reached_failed result stage error none rfl
  | commitFailed error applied rolled late => exact absurd (by simp) (hcommit (some error))

namespace DBConnector

/-- One call that leaves no part of its match behind keeps matches whole. -/
theorem saveAttempts_wholeMatches (result : BattleResult) (calls : List BattleResult) :
    ∀ (left first : Nat) (c : DBConnector),
      ∃ segment, (saveAttempts result left first c).1.log = c.log ++ segment ∧
        (WholeMatches calls c.connection → ¬ LeavesPartial segment →
          WholeMatches (calls ++ [result]) (saveAttempts result left first c).1.connection) := by
  intro left
  induction left with
  | zero =>
      intro first c
      exact ⟨[], by simp [saveAttempts], fun hwhole _ => hwhole.mono [result]⟩
  | succ left ih =>
      intro first c
      obtain ⟨segment, hlog, honce⟩ := c.saveBattleResultOnce_spec result
      have hstop : WholeMatches calls c.connection → ¬ LeavesPartial segment →
          WholeMatches (calls ++ [result]) (c.saveBattleResultOnce result).1.connection :=
        fun hwhole hclean => honce.wholeMatches hwhole hclean
      unfold saveAttempts
      generalize c.saveBattleResultOnce result = once at *
      have htest : isRetryableSaveError { once.2 with attemptCount := first } =
          isRetryableSaveError once.2 := rfl
      simp only [htest]
      split
      · exact ⟨segment, hlog, hstop⟩
      · rename_i hfail
        split
        · exact ⟨segment, hlog, hstop⟩
        · rename_i hretryable
          have hretry : segment.RetryableFailure := by
            refine (honce.isRetryable_iff (by simpa using hfail)).mp ?_
            simpa using hretryable
          split
          · exact ⟨segment, hlog, hstop⟩
          · obtain ⟨rest, hlog', hrest⟩ := ih (first + 1) once.1
            refine ⟨segment ++ rest, by rw [hlog', hlog]; simp, fun hwhole hclean => ?_⟩
            exact hrest (honce.wholeMatches_retryable hwhole hretry)
              fun h => hclean (h.append_left segment)

theorem saveAll_cons (c : DBConnector) (result : BattleResult) (results : List BattleResult) :
    c.saveAll (result :: results) = (c.saveBattleResult result).1.saveAll results := rfl

/-- A sequence of calls that leave no part of a match behind keeps matches whole. -/
theorem saveAll_wholeMatches (results : List BattleResult) :
    ∀ (calls : List BattleResult) (c : DBConnector),
      ∃ segment, (c.saveAll results).log = c.log ++ segment ∧
        (WholeMatches calls c.connection → ¬ LeavesPartial segment →
          WholeMatches (calls ++ results) (c.saveAll results).connection) := by
  induction results with
  | nil =>
      intro calls c
      exact ⟨[], by simp [saveAll], fun hwhole _ => by simpa [saveAll] using hwhole⟩
  | cons result results ih =>
      intro calls c
      obtain ⟨segment, hlog, hcall⟩ :=
        saveAttempts_wholeMatches result calls kMaxSaveAttempts 1 c
      obtain ⟨rest, hlog', hrest⟩ := ih (calls ++ [result]) (c.saveBattleResult result).1
      rw [saveAll_cons]
      refine ⟨segment ++ rest, ?_, fun hwhole hclean => ?_⟩
      · rw [hlog', show (c.saveBattleResult result).1.log = _ from hlog]
        simp
      · have hfirst := hcall hwhole fun h => hclean (h.append_right rest)
        have h := hrest hfirst fun h => hclean (h.append_left segment)
        simpa using h

end DBConnector

/-! ## All or nothing -/

/-- Every change of a match carries its match ID. -/
theorem BattleResult.changes_matchID {result : BattleResult} {change : Change}
    (h : change ∈ result.changes) : change.matchID = result.matchID := by
  simp only [changes, historyChanges, recordChanges, statChanges, List.mem_append, List.mem_map,
    List.mem_singleton] at h
  rcases h with (rfl | ⟨row, hrow, rfl⟩) | ⟨row, hrow, rfl⟩
  · rfl
  · simp only [insertPlayerBattleRecords, List.mem_cons, List.not_mem_nil, or_false] at hrow
    rcases hrow with rfl | rfl | rfl | rfl | rfl | rfl <;> rfl
  · rfl

/-- The committed changes of one match. -/
def MysqlConnection.changesOf (m : MysqlConnection) (matchID : Int) : List Change :=
  m.committed.filter fun change => change.matchID = matchID

/-- The changes of a list of matches that belong to a match outside the list. -/
theorem filter_allChanges_of_notMem {results : List BattleResult} {matchID : Int}
    (h : matchID ∉ results.map BattleResult.matchID) :
    (allChanges results).filter (fun change => change.matchID = matchID) = [] := by
  rw [List.filter_eq_nil_iff]
  intro change hchange
  obtain ⟨result, hresult, hmem⟩ := List.mem_flatMap.mp hchange
  rw [BattleResult.changes_matchID hmem, decide_eq_true_eq]
  rintro rfl
  exact h (List.mem_map_of_mem hresult)

/-- The changes of a list of different matches that belong to one of them. -/
theorem filter_allChanges_of_mem {results : List BattleResult}
    (hnodup : (results.map BattleResult.matchID).Nodup) {result : BattleResult}
    (h : result ∈ results) :
    (allChanges results).filter (fun change => change.matchID = result.matchID) =
      result.changes := by
  obtain ⟨before, after, rfl⟩ := List.append_of_mem h
  rw [List.map_append, List.map_cons, List.nodup_middle, List.nodup_cons, List.mem_append,
    not_or] at hnodup
  have hself : result.changes.filter (fun change => change.matchID = result.matchID) =
      result.changes := by
    rw [List.filter_eq_self]
    intro change hchange
    simpa using BattleResult.changes_matchID hchange
  rw [allChanges_append, ← List.singleton_append, allChanges_append, allChanges_singleton,
    List.filter_append, List.filter_append, filter_allChanges_of_notMem hnodup.1.1,
    filter_allChanges_of_notMem hnodup.1.2, hself]
  simp

/-- **All or nothing across calls**, for every sequence of saves of different
matches on a fresh connection and every outcome of every statement, as long as no
call leaves part of its match in an open transaction. -/
theorem saveAll_all_or_nothing (c : DBConnector) (results : List BattleResult)
    (hfresh : c.connection = ⟨[], none⟩) (hlog : c.log = [])
    (hnodup : (results.map BattleResult.matchID).Nodup)
    (hclean : ¬ LeavesPartial (c.saveAll results).log) (result : BattleResult)
    (hresult : result ∈ results) :
    (c.saveAll results).connection.changesOf result.matchID = result.changes ∨
      (c.saveAll results).connection.changesOf result.matchID = [] := by
  have hstart : WholeMatches [] c.connection := by
    rw [hfresh]
    exact ⟨[], [], List.Sublist.refl [], rfl, rfl⟩
  obtain ⟨segment, hall, hwhole⟩ := DBConnector.saveAll_wholeMatches results [] c
  rw [hlog, List.nil_append] at hall
  rw [hall] at hclean
  obtain ⟨saved, left, hsub, hcommitted, _⟩ := hwhole hstart hclean
  rw [List.nil_append] at hsub
  have hsaved : saved.Sublist results := (List.sublist_append_left saved left).trans hsub
  have hnodup' : (saved.map BattleResult.matchID).Nodup :=
    hnodup.sublist (hsaved.map BattleResult.matchID)
  unfold MysqlConnection.changesOf
  rw [hcommitted]
  by_cases hmem : result ∈ saved
  · exact Or.inl (filter_allChanges_of_mem hnodup' hmem)
  · refine Or.inr (filter_allChanges_of_notMem fun hid => hmem ?_)
    -- The match IDs are different, so the match that was saved is this one.
    obtain ⟨other, hother, hid⟩ := List.mem_map.mp hid
    rwa [← List.inj_on_of_nodup_map hnodup (hsaved.subset hother) hresult hid]

/-- The records of the first match find the table full, and so does its ROLLBACK;
everything else succeeds. -/
def tableFull : Nat → Reply
  | 2 => .error 1114 false
  | 3 => .error 1105 false
  | _ => .ok

/-- **The history row of a match is committed alone.**  The first call fails at its
second statement and cannot roll back, and the BEGIN of the second call commits
what it left. -/
theorem tableFull_commits_part :
    ((connected tableFull).saveAll [battle 1, battle 2]).connection.changesOf 1 =
      (battle 1).historyChanges ∧
    (battle 1).historyChanges ≠ (battle 1).changes ∧ (battle 1).historyChanges ≠ [] := by
  decide +kernel

theorem deadlockOnce_all_or_nothing :
    ((connected deadlockOnce).saveAll [battle 1, battle 2]).connection.changesOf 2 =
        (battle 2).changes ∨
      ((connected deadlockOnce).saveAll [battle 1, battle 2]).connection.changesOf 2 = [] := by
  refine saveAll_all_or_nothing (connected deadlockOnce) [battle 1, battle 2] rfl rfl
    (by decide) ?_ (battle 2) (by simp)
  rintro ⟨before, stage, error, rolled, after, hlog, _⟩
  have hmem : (.rollback, some rolled) ∈
      ((connected deadlockOnce).saveAll [battle 1, battle 2]).log := by
    rw [hlog]
    simp
  have hnone : ∀ call ∈ ((connected deadlockOnce).saveAll [battle 1, battle 2]).log,
      call.1 = .rollback → call.2 = none := by
    decide +kernel
  exact absurd (hnone _ hmem rfl) (by simp)

end SessionServer.Battle
