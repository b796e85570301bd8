/-
  Battle/Rows.lean --- the rows a battle result becomes.

  The argument lists that `BattleDB.cpp` formats into its three statements:
  one `battle_history` row, six `player_battle_record` rows and six
  `player_battle_stat` increments.
-/
import SessionServer.Battle.Structure

set_option autoImplicit false

namespace SessionServer.Battle

/-- A row of `battle_history`. -/
structure BattleHistory where
  matchID : Int
  winnerTeam : Int
  deriving DecidableEq

/-- A row of `player_battle_record`. -/
structure PlayerBattleRecord where
  matchID : Int
  accountNo : Int
  team : Int
  slotNo : Int
  isWin : Int
  deriving DecidableEq

/-- One value list of the `player_battle_stat` upsert. -/
structure PlayerBattleStat where
  accountNo : Int
  totalBattleCount : Int
  winCount : Int
  lossCount : Int
  deriving DecidableEq

namespace BattleResult

def insertBattleHistory (result : BattleResult) : BattleHistory where
  matchID := result.matchID
  winnerTeam := result.winnerTeam

def insertPlayerBattleRecords (result : BattleResult) : List PlayerBattleRecord :=
  let redWin := if result.winnerTeam = 1 then 1 else 0
  let blueWin := if result.winnerTeam = 2 then 1 else 0
  [⟨result.matchID, result.red 0, 0, 0, redWin⟩,
   ⟨result.matchID, result.red 1, 0, 1, redWin⟩,
   ⟨result.matchID, result.red 2, 0, 2, redWin⟩,
   ⟨result.matchID, result.blue 0, 1, 0, blueWin⟩,
   ⟨result.matchID, result.blue 1, 1, 1, blueWin⟩,
   ⟨result.matchID, result.blue 2, 1, 2, blueWin⟩]

def upsertPlayerBattleStats (result : BattleResult) : List PlayerBattleStat :=
  let redWin := if result.winnerTeam = 1 then 1 else 0
  let redLoss := if result.winnerTeam = 1 then 0 else 1
  let blueWin := if result.winnerTeam = 2 then 1 else 0
  let blueLoss := if result.winnerTeam = 2 then 0 else 1
  [⟨result.red 0, 1, redWin, redLoss⟩,
   ⟨result.red 1, 1, redWin, redLoss⟩,
   ⟨result.red 2, 1, redWin, redLoss⟩,
   ⟨result.blue 0, 1, blueWin, blueLoss⟩,
   ⟨result.blue 1, 1, blueWin, blueLoss⟩,
   ⟨result.blue 2, 1, blueWin, blueLoss⟩]

end BattleResult

/-- The value of the `team` column in the rows of `InsertPlayerBattleRecords`. -/
def Team.recordCode : Team → Int
  | .red => 0
  | .blue => 1

/-- The result names `team` as the winner, in the result itself and in the records
written from it: exactly the three rows of that team's slots are wins. -/
def BattleResult.NamesWinner (result : BattleResult) (team : Team) : Prop :=
  result.winnerTeam = team.code ∧
    ∀ row ∈ result.insertPlayerBattleRecords, row.isWin = 1 ↔ row.team = team.recordCode

instance (result : BattleResult) (team : Team) : Decidable (result.NamesWinner team) :=
  inferInstanceAs (Decidable (_ ∧ _))

/-- A result carrying the code of a team names that team. -/
theorem BattleResult.namesWinner_of_code {result : BattleResult} {team : Team}
    (h : result.winnerTeam = team.code) : result.NamesWinner team := by
  refine ⟨h, ?_⟩
  cases team <;> simp [insertPlayerBattleRecords, h, Team.code, Team.recordCode]

/-- A result names at most one team. -/
theorem BattleResult.NamesWinner.not_other {result : BattleResult} {team : Team}
    (h : result.NamesWinner team) : ¬ result.NamesWinner team.other := by
  intro hother
  have hcode : team.code = team.other.code := h.1.symm.trans hother.1
  cases team <;> simp [Team.code, Team.other] at hcode

end SessionServer.Battle
