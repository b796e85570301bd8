/-
  Battle/Structure.lean --- the data of the battle session server.

  `FighterStructure.h`: the players, the groups of a match, the control requests
  and the battle result, with the constants of the arena.  Pointers to a `Player`
  become the player value held in the map of the contents that owns it; the
  client address, which no modelled function reads, is left out.
-/
import Mathlib

set_option autoImplicit false

namespace SessionServer.Battle

/-- `using SessionID = std::int64_t`. -/
abbrev SessionID := Int

/-- Contents numbers are `std::int32_t`. -/
abbrev ContentsNum := Int

/-- The contents number of the match contents. -/
def MATCH : ContentsNum := 1000000001

/-- The modulus of the contents numbers handed to fights. -/
def ROOM : ContentsNum := 1000000000

/-- The contents number of a session on its way between two contents. -/
def CONMOV : ContentsNum := -1

/-- `enum class Team`. -/
inductive Team where
  | red
  | blue
  deriving DecidableEq, Repr, Inhabited

/-- The declared coding of the teams, shared by `Team` and `_winLoss`: 1 is red
and 2 is blue. -/
def Team.code : Team → Int
  | .red => 1
  | .blue => 2

/-- The opposing team. -/
def Team.other : Team → Team
  | .red => .blue
  | .blue => .red

/-! ## The arena -/

def dfRANGE_MOVE_TOP : Int := 50
def dfRANGE_MOVE_LEFT : Int := 10
def dfRANGE_MOVE_RIGHT : Int := 630
def dfRANGE_MOVE_BOTTOM : Int := 470
def dfERROR_RANGE : Int := 50

def REDX : Int := 40
def BLUEX : Int := 600
def TEAMY : Int := 180

def MOVE_REQUEST_INTERVAL_MS : UInt32 := 20
def ATTACK_REQUEST_INTERVAL_MS : UInt32 := 200

def dfPACKET_MOVE_DIR_LL : UInt8 := 0
def dfPACKET_MOVE_DIR_LU : UInt8 := 1
def dfPACKET_MOVE_DIR_UU : UInt8 := 2
def dfPACKET_MOVE_DIR_RU : UInt8 := 3
def dfPACKET_MOVE_DIR_RR : UInt8 := 4
def dfPACKET_MOVE_DIR_RD : UInt8 := 5
def dfPACKET_MOVE_DIR_DD : UInt8 := 6
def dfPACKET_MOVE_DIR_LD : UInt8 := 7

/-- The three attack requests. -/
inductive AttackType where
  | attack1
  | attack2
  | attack3
  deriving DecidableEq, Repr, Inhabited

/-- `dfATTACK1_RANGE_X` .. `dfATTACK3_RANGE_X`. -/
def AttackType.rangeX : AttackType → Int
  | .attack1 => 80
  | .attack2 => 90
  | .attack3 => 100

/-- `dfATTACK1_RANGE_Y` .. `dfATTACK3_RANGE_Y`. -/
def AttackType.rangeY : AttackType → Int
  | .attack1 => 10
  | .attack2 => 10
  | .attack3 => 20

/-- `GetAttackDamage`: `ATTACK1DMG` .. `ATTACK3DMG`. -/
def AttackType.getAttackDamage : AttackType → Int
  | .attack1 => 10
  | .attack2 => 30
  | .attack3 => 50

/-! ## Records -/

/-- `struct Player`. -/
structure Player where
  sessionID : SessionID
  id : UInt32
  direction : UInt8
  x : UInt16
  y : UInt16
  hp : Int8
  move : Int8
  team : Team
  lastMoveRequestAt : UInt32
  lastAttackRequestAt : UInt32
  contents : ContentsNum
  deriving DecidableEq

/-- A team has a slot 0. -/
instance threeSlots : NeZero 3 := ⟨by decide⟩

/-- `struct Group`: the sessions of the two teams, by slot. -/
structure Group where
  red : Fin 3 → SessionID
  blue : Fin 3 → SessionID
  deriving DecidableEq

/-- `struct BattleResult`. -/
structure BattleResult where
  matchID : Int
  winnerTeam : Int
  red : Fin 3 → SessionID
  blue : Fin 3 → SessionID
  deriving DecidableEq

end SessionServer.Battle
