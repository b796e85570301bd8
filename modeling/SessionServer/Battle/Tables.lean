/-
  Battle/Tables.lean --- what the rows of the three tables say together.

  The three statements of a save encode one outcome on their own: the history row and the
  records by team, the increments of the statistics by account.  The statistics are kept up
  by increments alone, from every worker; the records are what they count.
-/
import SessionServer.Battle.DBRun
import SessionServer.Battle.FightRun
import SessionServer.Foundation.Run

set_option autoImplicit false

namespace SessionServer.Battle

open SessionServer.Foundation

/-! ## One result -/

namespace BattleResult

/-- The statistics of a result count its records: one battle, won or lost. -/
theorem upsert_eq_map (result : BattleResult) :
    result.upsertPlayerBattleStats = result.insertPlayerBattleRecords.map fun record =>
      ⟨record.accountNo, 1, record.isWin, 1 - record.isWin⟩ := by
  have hloss : ∀ team : Int, (if result.winnerTeam = team then (0 : Int) else 1) =
      1 - if result.winnerTeam = team then 1 else 0 := by
    intro team
    split <;> rfl
  simp only [upsertPlayerBattleStats, insertPlayerBattleRecords, List.map_cons, List.map_nil,
    hloss]

/-- A record is a win exactly where its team is the winner of the match in `battle_history`. -/
def TeamsAgree (result : BattleResult) : Prop :=
  ∀ record ∈ result.insertPlayerBattleRecords,
    record.isWin = 1 ↔ record.team = result.insertBattleHistory.winnerTeam

/-- The increments of an account are the outcome of its record. -/
def StatsAgree (result : BattleResult) : Prop :=
  ∀ record ∈ result.insertPlayerBattleRecords, ∀ stat ∈ result.upsertPlayerBattleStats,
    stat.accountNo = record.accountNo →
      stat.winCount = record.isWin ∧ stat.lossCount = 1 - record.isWin

/-- The accounts of the records are the sessions of the two teams. -/
theorem records_accounts (result : BattleResult) :
    result.insertPlayerBattleRecords.map PlayerBattleRecord.accountNo =
      (⟨result.red, result.blue⟩ : Group).sessions := rfl

theorem stats_agree (result : BattleResult)
    (hdistinct : (⟨result.red, result.blue⟩ : Group).sessions.Nodup) : result.StatsAgree := by
  intro record hrecord stat hstat haccount
  rw [upsert_eq_map] at hstat
  obtain ⟨other, hother, rfl⟩ := List.mem_map.mp hstat
  rw [← records_accounts] at hdistinct
  rw [List.inj_on_of_nodup_map hdistinct hother hrecord haccount]
  exact ⟨rfl, rfl⟩

/-- **The stored tables agree on the outcome of every account, and never on the teams.**  The
records count the teams from 0, `battle_history` from 1. -/
theorem tables_never_agree_on_teams (result : BattleResult)
    (hwinner : result.winnerTeam = 1 ∨ result.winnerTeam = 2)
    (hdistinct : (⟨result.red, result.blue⟩ : Group).sessions.Nodup) :
    ¬ result.TeamsAgree ∧ result.StatsAgree ∧
      ∀ record ∈ result.insertPlayerBattleRecords,
        record.isWin = 1 ↔ record.team + 1 = result.insertBattleHistory.winnerTeam := by
  refine ⟨fun hagree => ?_, result.stats_agree hdistinct, ?_⟩
  · simp only [TeamsAgree, insertPlayerBattleRecords, insertBattleHistory,
      List.forall_mem_cons] at hagree
    obtain ⟨hred, _, _, hblue, _⟩ := hagree
    rcases hwinner with hwin | hwin <;> simp [hwin] at hred hblue
  · rcases hwinner with hwin | hwin <;>
      simp [insertPlayerBattleRecords, insertBattleHistory, hwin]

/-- Six sessions, and red has won. -/
theorem battle_tables_disagree :
    ¬ (battle 1).TeamsAgree ∧ (battle 1).StatsAgree ∧
      ∀ record ∈ (battle 1).insertPlayerBattleRecords,
        record.isWin = 1 ↔ record.team + 1 = (battle 1).insertBattleHistory.winnerTeam :=
  tables_never_agree_on_teams (battle 1) (by decide) (by decide)

/-- The winning red player of slot 0 has team 0, and the winner of the match is 1. -/
theorem battle_red_row :
    ⟨1, 1, 0, 0, 1⟩ ∈ (battle 1).insertPlayerBattleRecords ∧
      (battle 1).insertBattleHistory = ⟨1, 1⟩ ∧ ¬ (battle 1).TeamsAgree := by
  refine ⟨by decide, by decide, fun hagree => ?_⟩
  exact absurd ((hagree ⟨1, 1, 0, 0, 1⟩ (by decide)).mp rfl) (by decide)

end BattleResult

/-! ## The tables -/

/-- The three tables; `player_battle_stat` by its primary key. -/
structure Tables where
  battleHistory : List BattleHistory
  playerBattleRecord : List PlayerBattleRecord
  playerBattleStat : Int → Option PlayerBattleStat

/-- INSERT .. ON DUPLICATE KEY UPDATE of one value list. -/
def upsert (stats : Int → Option PlayerBattleStat) (row : PlayerBattleStat) :
    Int → Option PlayerBattleStat := fun account =>
  if account = row.accountNo then
    match stats account with
    | none => some row
    | some old =>
        some { old with
          totalBattleCount := old.totalBattleCount + row.totalBattleCount
          winCount := old.winCount + row.winCount
          lossCount := old.lossCount + row.lossCount }
  else stats account

/-- What the records say about an account: none where it has no record. -/
def countRecords (records : List PlayerBattleRecord) (account : Int) : Option PlayerBattleStat :=
  let rows := records.filter fun record => record.accountNo = account
  let wins := (rows.map PlayerBattleRecord.isWin).sum
  if rows = [] then none
  else some
    { accountNo := account
      totalBattleCount := rows.length
      winCount := wins
      lossCount := rows.length - wins }

namespace Tables

def apply (t : Tables) : Change → Tables
  | .history row => { t with battleHistory := t.battleHistory ++ [row] }
  | .record row => { t with playerBattleRecord := t.playerBattleRecord ++ [row] }
  | .stat _ row => { t with playerBattleStat := upsert t.playerBattleStat row }

/-- The changes of one transaction. -/
def commit (t : Tables) (changes : List Change) : Tables := changes.foldl apply t

/-- The statistics of every account are those of its records. -/
def Counted (t : Tables) : Prop :=
  ∀ account, t.playerBattleStat account = countRecords t.playerBattleRecord account

end Tables

/-- One more record is one more upsert. -/
theorem upsert_countRecords (records : List PlayerBattleRecord) (record : PlayerBattleRecord) :
    upsert (countRecords records) ⟨record.accountNo, 1, record.isWin, 1 - record.isWin⟩ =
      countRecords (records ++ [record]) := by
  funext account
  by_cases heq : record.accountNo = account
  · have hrows : (records ++ [record]).filter (fun r => r.accountNo = account) =
        records.filter (fun r => r.accountNo = account) ++ [record] := by
      rw [List.filter_append, List.filter_cons_of_pos (by simpa using heq), List.filter_nil]
    simp only [upsert, countRecords, hrows, heq, if_true]
    by_cases hnone : records.filter (fun r => r.accountNo = account) = []
    · simp [hnone]
    · simp only [if_neg hnone, List.append_eq_nil_iff, List.cons_ne_nil, and_false, if_false,
        List.length_append, List.length_singleton, List.map_append, List.map_cons, List.map_nil,
        List.sum_append, List.sum_singleton, Nat.cast_add, Nat.cast_one, Option.some.injEq,
        PlayerBattleStat.mk.injEq, true_and]
      omega
  · have hrows : (records ++ [record]).filter (fun r => r.accountNo = account) =
        records.filter (fun r => r.accountNo = account) := by
      rw [List.filter_append, List.filter_cons_of_neg (by simpa using heq), List.filter_nil,
        List.append_nil]
    simp only [upsert, countRecords, hrows, if_neg (Ne.symm heq)]

theorem foldl_upsert_countRecords (rows records : List PlayerBattleRecord) :
    (rows.map fun row => (⟨row.accountNo, 1, row.isWin, 1 - row.isWin⟩ : PlayerBattleStat)).foldl
        upsert (countRecords records) =
      countRecords (records ++ rows) := by
  induction rows generalizing records with
  | nil => rw [List.append_nil]; rfl
  | cons row rows ih =>
      rw [List.map_cons, List.foldl_cons, upsert_countRecords, ih, List.append_assoc]
      rfl

/-- The order of the records does not matter. -/
theorem countRecords_perm {records records' : List PlayerBattleRecord}
    (h : records.Perm records') : countRecords records = countRecords records' := by
  funext account
  have hrows := h.filter fun record => decide (record.accountNo = account)
  have hwins := (hrows.map PlayerBattleRecord.isWin).sum_eq
  have hempty : records.filter (fun record => record.accountNo = account) = [] ↔
      records'.filter (fun record => record.accountNo = account) = [] := by
    rw [← List.length_eq_zero_iff, ← List.length_eq_zero_iff, hrows.length_eq]
  simp only [countRecords, hempty, hwins, hrows.length_eq]

namespace Tables

theorem commit_records (t : Tables) (rows : List PlayerBattleRecord) :
    t.commit (rows.map .record) = { t with playerBattleRecord := t.playerBattleRecord ++ rows } := by
  induction rows generalizing t with
  | nil => rw [List.append_nil]; rfl
  | cons row rows ih =>
      rw [List.map_cons, commit, List.foldl_cons, ← commit, ih]
      simp only [apply, List.append_assoc, List.cons_append, List.nil_append]

theorem commit_stats (t : Tables) (matchID : Int) (rows : List PlayerBattleStat) :
    t.commit (rows.map (.stat matchID)) =
      { t with playerBattleStat := rows.foldl upsert t.playerBattleStat } := by
  induction rows generalizing t with
  | nil => rfl
  | cons row rows ih =>
      rw [List.map_cons, commit, List.foldl_cons, ← commit, ih]
      rfl

/-- What the transaction of a result leaves in the tables. -/
theorem commit_changes (t : Tables) (result : BattleResult) :
    t.commit result.changes =
      { battleHistory := t.battleHistory ++ [result.insertBattleHistory]
        playerBattleRecord := t.playerBattleRecord ++ result.insertPlayerBattleRecords
        playerBattleStat := result.upsertPlayerBattleStats.foldl upsert t.playerBattleStat } := by
  have hsplit : t.commit result.changes =
      ((t.commit result.historyChanges).commit result.recordChanges).commit
        result.statChanges := by
    simp only [commit, BattleResult.changes, List.foldl_append]
  rw [hsplit, BattleResult.recordChanges, commit_records, BattleResult.statChanges, commit_stats]
  rfl

/-- **One transaction** keeps the statistics the count of the records. -/
theorem Counted.commit {t : Tables} (h : t.Counted) (result : BattleResult) :
    (t.commit result.changes).Counted := by
  intro account
  have hstats : t.playerBattleStat = countRecords t.playerBattleRecord := funext h
  rw [commit_changes, hstats, result.upsert_eq_map, foldl_upsert_countRecords]

end Tables

/-! ## The workers -/

/-- `n` DB workers, each with its own connector, over the tables. -/
structure Savers (n : Nat) where
  connectors : Fin n → DBConnector
  tables : Tables

namespace Savers

variable {n : Nat}

/-- No connection has a transaction open. -/
def Idle (s : Savers n) : Prop := ∀ w, (s.connectors w).connection.transaction = none

/-- A worker saves a result, successfully: what its connection has committed by that goes to
the tables at once. -/
def save (s : Savers n) (call : Fin n × BattleResult) : Option (Savers n) :=
  let c := s.connectors call.1
  let out := c.saveBattleResult call.2
  if out.2.succeeded then
    some
      { connectors := fun w => if w = call.1 then out.1 else s.connectors w
        tables := s.tables.commit
          (out.1.connection.committed.drop c.connection.committed.length) }
  else none

/-- **One save** commits the changes of its result. -/
theorem save_spec {s s' : Savers n} {call : Fin n × BattleResult} (hidle : s.Idle)
    (h : s.save call = some s') :
    s'.Idle ∧ s'.tables = s.tables.commit call.2.changes := by
  obtain ⟨attempts, _, hsaves⟩ := DBConnector.saveAttempts_spec call.2 kMaxSaveAttempts 1
    (s.connectors call.1) (by decide) rfl (hidle call.1)
  simp only [save] at h
  split at h
  · rename_i hok
    rw [Option.some.injEq] at h
    subst h
    refine ⟨fun w => ?_, ?_⟩
    · simp only
      split
      · exact DBConnector.saveAttempts_transaction call.2 kMaxSaveAttempts 1 _ hok
      · exact hidle w
    · have hcommitted : ((s.connectors call.1).saveBattleResult call.2).1.connection.committed =
          (s.connectors call.1).connection.committed ++ call.2.changes := hsaves.saved hok
      simp only
      rw [hcommitted, List.drop_left]
  · simp at h

/-- The saves of a run, in the order of their transactions. -/
theorem exec_save {s s' : Savers n} {calls : List (Fin n × BattleResult)} (hidle : s.Idle)
    (h : exec save s calls = some s') :
    s'.tables =
      (calls.map Prod.snd).foldl (fun t result => t.commit result.changes) s.tables := by
  induction calls generalizing s with
  | nil =>
      rw [exec_nil, Option.some.injEq] at h
      rw [← h]
      rfl
  | cons call calls ih =>
      obtain ⟨t, ht, hrest⟩ := exec_cons_eq_some.mp h
      obtain ⟨hidle', htables⟩ := save_spec hidle ht
      rw [ih hidle' hrest, htables]
      rfl

end Savers

theorem counted_foldl {t : Tables} (h : t.Counted) (results : List BattleResult) :
    (results.foldl (fun t result => t.commit result.changes) t).Counted := by
  induction results generalizing t with
  | nil => exact h
  | cons result results ih => exact ih (h.commit result)

theorem records_foldl (t : Tables) (results : List BattleResult) :
    (results.foldl (fun t result => t.commit result.changes) t).playerBattleRecord =
      t.playerBattleRecord ++ results.flatMap BattleResult.insertPlayerBattleRecords := by
  induction results generalizing t with
  | nil => rw [List.flatMap_nil, List.append_nil]; rfl
  | cons result results ih =>
      rw [List.foldl_cons, ih, Tables.commit_changes, List.flatMap_cons, List.append_assoc]

/-- **The statistics count the records**, whatever workers have saved the results in whatever
order, and they are the same for every order; the records are those of the results saved. -/
theorem stats_count_records {n : Nat} (start final : Savers n) (hidle : start.Idle)
    (hcounted : start.tables.Counted) (calls : List (Fin n × BattleResult))
    (h : exec Savers.save start calls = some final) :
    final.tables.Counted ∧
      final.tables.playerBattleRecord = start.tables.playerBattleRecord ++
        (calls.map Prod.snd).flatMap BattleResult.insertPlayerBattleRecords ∧
      ∀ (m : Nat) (start' final' : Savers m) (calls' : List (Fin m × BattleResult)),
        start'.Idle → start'.tables = start.tables →
        (calls'.map Prod.snd).Perm (calls.map Prod.snd) →
        exec Savers.save start' calls' = some final' →
        final'.tables.playerBattleStat = final.tables.playerBattleStat := by
  have hfinal := Savers.exec_save hidle h
  have hcount := counted_foldl hcounted (calls.map Prod.snd)
  refine ⟨hfinal ▸ hcount, by rw [hfinal, records_foldl], ?_⟩
  intro m start' final' calls' hidle' hsame hperm h'
  have hfinal' := Savers.exec_save hidle' h'
  rw [hsame] at hfinal'
  have hcount' := counted_foldl hcounted (calls'.map Prod.snd)
  have hrecords : final'.tables.playerBattleRecord.Perm final.tables.playerBattleRecord := by
    rw [hfinal, hfinal', records_foldl, records_foldl]
    exact (hperm.flatMap_right _).append_left _
  rw [← hfinal] at hcount
  rw [← hfinal'] at hcount'
  funext account
  rw [hcount account, hcount' account, countRecords_perm hrecords]

/-- Two workers on empty tables; the first statement of the second meets a deadlock. -/
def twoSavers : Savers 2 where
  connectors := ![connected fun _ => .ok, connected deadlockOnce]
  tables := ⟨[], [], fun _ => none⟩

/-- They save two battles of the same six accounts. -/
theorem twoSavers_count_records :
    ∃ final, exec Savers.save twoSavers [(0, battle 1), (1, battle 2)] = some final ∧
      final.tables.Counted ∧
      final.tables.playerBattleRecord =
        [battle 1, battle 2].flatMap BattleResult.insertPlayerBattleRecords ∧
      ∀ (m : Nat) (start' final' : Savers m) (calls' : List (Fin m × BattleResult)),
        start'.Idle → start'.tables = twoSavers.tables →
        (calls'.map Prod.snd).Perm [battle 1, battle 2] →
        exec Savers.save start' calls' = some final' →
        final'.tables.playerBattleStat = final.tables.playerBattleStat := by
  have hidle : twoSavers.Idle := by
    intro w
    fin_cases w <;> rfl
  have hruns : (exec Savers.save twoSavers [(0, battle 1), (1, battle 2)]).isSome := by
    decide +kernel
  obtain ⟨final, hfinal⟩ := Option.isSome_iff_exists.mp hruns
  exact ⟨final, hfinal, stats_count_records twoSavers final hidle (fun _ => rfl) _ hfinal⟩

end SessionServer.Battle
