/-
  Battle/Fight.lean --- one `FightContents` and its message stub.

  The handlers of `FighterContents.cpp` and `FighterSubStub.cpp`, as functions of
  the contents.  A handler runs under the exclusive lock of its contents, so one
  call is one step.  What it asks of the server (packets, disconnects, the battle
  result, the FIGHTFREE request) is returned as a list of effects, and what the
  server answers to it (the player found, the outcome of a move, the clock) is an
  argument.

  The iteration order of `std::unordered_map` is unspecified.  A player map is
  therefore a list of entries in some order, and the event `rehash` replaces it by
  any permutation of itself at any time.
-/
import SessionServer.Battle.Structure

set_option autoImplicit false

namespace SessionServer.Battle

/-! ## The player map -/

/-- `std::unordered_map<SessionID, Player*>`, in its current iteration order. -/
abbrev PlayerMap := List (SessionID × Player)

namespace PlayerMap

def find (m : PlayerMap) (sessionID : SessionID) : Option Player :=
  m.lookup sessionID

/-- `insert` keeps an existing entry. -/
def insert (m : PlayerMap) (sessionID : SessionID) (player : Player) : PlayerMap :=
  if (m.find sessionID).isSome then m else (sessionID, player) :: m

def erase (m : PlayerMap) (sessionID : SessionID) : PlayerMap :=
  m.filter fun entry => entry.1 ≠ sessionID

/-- A write through the pointer stored under a key. -/
def modify (m : PlayerMap) (sessionID : SessionID) (write : Player → Player) : PlayerMap :=
  m.map fun entry => if entry.1 = sessionID then (entry.1, write entry.2) else entry

end PlayerMap

/-! ## Messages and effects -/

/-- A parsed message of a client. -/
inductive CSMessage where
  | moveStart (dir : UInt8) (x y : UInt16)
  | moveStop (dir : UInt8) (x y : UInt16)
  | attack (type : AttackType) (dir : UInt8) (x y : UInt16)
  /-- any other message type -/
  | other
  deriving DecidableEq

/-- The packets `FightProxy` builds. -/
inductive SCMessage where
  | createMe (id : UInt32) (dir : UInt8) (x y : UInt16) (hp : UInt8)
  | createOther (id : UInt32) (dir : UInt8) (x y : UInt16) (hp : UInt8)
  | delete (id : UInt32)
  | moveStart (id : UInt32) (dir : UInt8) (x y : UInt16)
  | moveStop (id : UInt32) (dir : UInt8) (x y : UInt16)
  | attack (type : AttackType) (id : UInt32) (dir : UInt8) (x y : UInt16)
  | damage (atk tgt : UInt32) (hp : UInt8)
  deriving DecidableEq

/-- What a handler asks of the server. -/
inductive Effect where
  /-- `SendPacket` to each of the sessions -/
  | send (sessions : List SessionID) (message : SCMessage)
  /-- `ContentsServer::Disconnect` -/
  | disconnect (sessionID : SessionID)
  /-- `FighterServer::RequestSaveBattleResult` -/
  | requestSave (result : BattleResult)
  /-- a FIGHTFREE control for this contents, enqueued and notified -/
  | fightFree
  deriving DecidableEq

/-! ## The contents -/

/-- The fields of `FightContents` and the contents number of its base class. -/
structure FightContents where
  contentsNum : ContentsNum
  playerMap : PlayerMap
  red : Fin 3 → SessionID
  blue : Fin 3 → SessionID
  matchID : Int
  matched : Int
  redCount : Int
  blueCount : Int
  /-- 0: none, 1: red win, 2: blue win -/
  winLoss : Int
  oldTick : UInt32
  end_ : Bool
  deriving DecidableEq

namespace FightContents

def init (f : FightContents) (contentsNum : ContentsNum) (matchID : Int) (group : Group) :
    FightContents :=
  { f with contentsNum := contentsNum, matchID := matchID, red := group.red, blue := group.blue }

def clear (f : FightContents) : FightContents :=
  { f with playerMap := [], matchID := 0, matched := 0, redCount := 0, blueCount := 0,
           oldTick := 0, end_ := true, red := fun _ => 0, blue := fun _ => 0, winLoss := 0 }

/-- The contents after the assignment of `CheckGameEnd`, and its answer. -/
def checkGameEnd (f : FightContents) : FightContents × Bool :=
  if f.redCount = 0 then
    ({ f with winLoss := 1 }, true)
  else if f.blueCount = 0 then
    ({ f with winLoss := 2 }, true)
  else
    (f, false)

def buildBattleResult (f : FightContents) : BattleResult where
  matchID := f.matchID
  red := f.red
  blue := f.blue
  winnerTeam := f.winLoss

def disconnectRemainingPlayers (f : FightContents) : List Effect :=
  f.playerMap.map fun entry => .disconnect entry.2.sessionID

def finishFightAndRelease (f : FightContents) : FightContents × List Effect :=
  let f := { f with end_ := false }
  (f, f.disconnectRemainingPlayers ++ [.requestSave f.buildBattleResult, .fightFree])

/-! ## Entering -/

/-- The part of `OnEnter` for a player the server knows and could move here. -/
def enterPlayer (f : FightContents) (sessionID : SessionID) (player : Player) :
    FightContents :=
  let player := { player with contents := f.contentsNum }
  let f := match player.team with
    | .red => { f with redCount := f.redCount + 1 }
    | .blue => { f with blueCount := f.blueCount + 1 }
  { f with playerMap := f.playerMap.insert sessionID player }

/-- The start values of one slot, and its `SCCreateMe`. -/
def placePlayer (f : FightContents) (sessionID : SessionID) (id : Nat) (x : Int) (slot : Nat)
    (direction : UInt8) : FightContents × List Effect :=
  match f.playerMap.find sessionID with
  | none => (f, [])
  | some player =>
      let tgt : Player :=
        { player with
            id := UInt32.ofNat id
            hp := 100
            move := -1
            x := UInt16.ofNat x.toNat
            y := UInt16.ofNat (dfRANGE_MOVE_TOP + 40 + TEAMY * slot).toNat
            direction := direction }
      ({ f with playerMap := f.playerMap.modify sessionID fun _ => tgt },
        [.send [tgt.sessionID] (.createMe tgt.id tgt.direction tgt.x tgt.y tgt.hp.toUInt8)])

/-- One round of the placing loop: the red slot, then the blue slot. -/
def placeSlot (acc : FightContents × List Effect) (i : Fin 3) : FightContents × List Effect :=
  let r := acc.1.placePlayer (acc.1.red i) i REDX i dfPACKET_MOVE_DIR_RR
  let b := r.1.placePlayer (r.1.blue i) (i + 3) BLUEX i dfPACKET_MOVE_DIR_LL
  (b.1, acc.2 ++ r.2 ++ b.2)

/-- `SCCreateOther` of every player to all the others. -/
def announcePlayers (f : FightContents) : List Effect :=
  f.playerMap.map fun entry =>
    let tgt := entry.2
    .send
      ((f.playerMap.filter fun other => other.2.sessionID ≠ tgt.sessionID).map
        fun other => other.2.sessionID)
      (.createOther tgt.id tgt.direction tgt.x tgt.y tgt.hp.toUInt8)

/-- The start of the fight, once six enter events have been handled. -/
def startFight (f : FightContents) : FightContents × List Effect :=
  let placed := [0, 1, 2].foldl placeSlot (f, [])
  (placed.1, placed.2 ++ placed.1.announcePlayers)

/-- `OnEnter` up to the test of `_matched`: the player is counted if the server
knows it (`found`) and `TryMoveSessionToContents` succeeded (`moved`); the event is
counted in any case. -/
def countEnter (f : FightContents) (sessionID : SessionID) (found : Option Player)
    (moved : Bool) : FightContents :=
  let f := match found with
    | some player => if moved then f.enterPlayer sessionID player else f
    | none => f
  { f with matched := f.matched + 1 }

def onEnter (f : FightContents) (sessionID : SessionID) (found : Option Player)
    (moved : Bool) : FightContents × List Effect :=
  let f := f.countEnter sessionID found moved
  if f.matched ≥ 6 then
    let checked := f.checkGameEnd
    if checked.2 && checked.1.end_ then
      checked.1.finishFightAndRelease
    else
      checked.1.startFight
  else
    (f, [])

/-! ## Leaving -/

/-- `OnLeave` up to the game end test: the count, the `SCDelete` and the erasure. -/
def removePlayer (f : FightContents) (sessionID : SessionID) (player : Player) :
    FightContents × List Effect :=
  let f := match player.team with
    | .red => { f with redCount := f.redCount - 1 }
    | .blue => { f with blueCount := f.blueCount - 1 }
  let others :=
    (f.playerMap.filter fun entry => player.sessionID ≠ entry.2.sessionID).map
      fun entry => entry.2.sessionID
  ({ f with playerMap := f.playerMap.erase sessionID }, [.send others (.delete player.id)])

def onLeave (f : FightContents) (sessionID : SessionID) : FightContents × List Effect :=
  match f.playerMap.find sessionID with
  | none => (f, [])
  | some player =>
      let removed := f.removePlayer sessionID player
      let checked := removed.1.checkGameEnd
      if checked.2 && checked.1.end_ then
        let finished := checked.1.finishFightAndRelease
        (finished.1, removed.2 ++ finished.2)
      else
        (checked.1, removed.2)

/-! ## The frame update -/

/-- `static_cast<std::uint16_t>` of an `int`. -/
def toUInt16 (n : Int) : UInt16 := UInt16.ofNat (n % 65536).toNat

/-- Frames that fit before a wall `room` away, `step` a frame. -/
def maxFrame (room step : Int) : Int := room.tdiv step

def applyMovement (player : Player) (frame : Int) : Player :=
  if frame ≤ 0 then
    player
  else
    let currentX : Int := player.x.toNat
    let currentY : Int := player.y.toNat
    let left := maxFrame (currentX - dfRANGE_MOVE_LEFT) 3
    let right := maxFrame (dfRANGE_MOVE_RIGHT - currentX) 3
    let up := maxFrame (currentY - dfRANGE_MOVE_TOP) 2
    let down := maxFrame (dfRANGE_MOVE_BOTTOM - currentY) 2
    let place (newX newY : Int) : Player :=
      { player with x := toUInt16 newX, y := toUInt16 newY }
    match player.move.toInt with
    | 0 => let n := min frame left; place (currentX - 3 * n) currentY
    | 2 => let n := min frame up; place currentX (currentY - 2 * n)
    | 4 => let n := min frame right; place (currentX + 3 * n) currentY
    | 6 => let n := min frame down; place currentX (currentY + 2 * n)
    | 1 => let n := min frame (min left up); place (currentX - 3 * n) (currentY - 2 * n)
    | 3 => let n := min frame (min right up); place (currentX + 3 * n) (currentY - 2 * n)
    | 5 => let n := min frame (min right down); place (currentX + 3 * n) (currentY + 2 * n)
    | 7 => let n := min frame (min left down); place (currentX - 3 * n) (currentY + 2 * n)
    | _ => player

/-- `OnUpdate` at the reading `now` of `timeGetTime`. -/
def onUpdate (f : FightContents) (now : UInt32) : FightContents :=
  let deltatime := now - f.oldTick
  let frame := deltatime / 20
  let remain := deltatime % 20
  { f with
      oldTick := f.oldTick + (deltatime - remain)
      playerMap := f.playerMap.map fun entry =>
        if entry.2.move ≠ -1 then (entry.1, applyMovement entry.2 frame.toNat) else entry }

/-! ## The stub -/

def isValidMoveDirection (dir : UInt8) : Bool := dir ≤ dfPACKET_MOVE_DIR_LD

def isPositionSyncValid (player : Player) (x y : UInt16) : Bool :=
  ((player.x.toNat : Int) - x.toNat).natAbs ≤ dfERROR_RANGE.toNat &&
    ((player.y.toNat : Int) - y.toNat).natAbs ≤ dfERROR_RANGE.toNat

def canHandleMoveRequest (player : Player) (now : UInt32) : Bool :=
  player.lastMoveRequestAt == 0 || now - player.lastMoveRequestAt ≥ MOVE_REQUEST_INTERVAL_MS

def canHandleAttack (player : Player) (now : UInt32) : Bool :=
  !(player.lastAttackRequestAt != 0 &&
    now - player.lastAttackRequestAt < ATTACK_REQUEST_INTERVAL_MS)

def collectOtherSessions (f : FightContents) (sessionID : SessionID) : List SessionID :=
  (f.playerMap.filter fun entry => entry.1 ≠ sessionID).map fun entry => entry.1

def collectAllSessions (f : FightContents) : List SessionID :=
  f.playerMap.map fun entry => entry.1

/-- The facing after a move request: left for the left directions, right for the
right ones, unchanged for straight up and down. -/
def facing (player : Player) (dir : UInt8) : UInt8 :=
  if dir = dfPACKET_MOVE_DIR_LL ∨ dir = dfPACKET_MOVE_DIR_LU ∨ dir = dfPACKET_MOVE_DIR_LD then
    dfPACKET_MOVE_DIR_LL
  else if dir = dfPACKET_MOVE_DIR_RR ∨ dir = dfPACKET_MOVE_DIR_RU ∨
      dir = dfPACKET_MOVE_DIR_RD then
    dfPACKET_MOVE_DIR_RR
  else
    player.direction

def procCSMoveStart (f : FightContents) (sessionID : SessionID) (dir : UInt8) (x y : UInt16)
    (now : UInt32) : FightContents × List Effect :=
  if !isValidMoveDirection dir then
    (f, [.disconnect sessionID])
  else match f.playerMap.find sessionID with
  | none => (f, [])
  | some player =>
      if !isPositionSyncValid player x y then
        (f, [.disconnect sessionID])
      else if player.move.toInt = dir.toNat then
        (f, [])
      else if !canHandleMoveRequest player now then
        (f, [])
      else
        let player := { player with
          lastMoveRequestAt := now
          direction := facing player dir
          move := dir.toInt8
          x := x
          y := y }
        let f := { f with playerMap := f.playerMap.modify sessionID fun _ => player }
        (f, [.send (f.collectOtherSessions sessionID) (.moveStart player.id dir x y)])

def procCSMoveStop (f : FightContents) (sessionID : SessionID) (dir : UInt8) (x y : UInt16) :
    FightContents × List Effect :=
  if !isValidMoveDirection dir then
    (f, [.disconnect sessionID])
  else match f.playerMap.find sessionID with
  | none => (f, [])
  | some player =>
      if !isPositionSyncValid player x y then
        (f, [.disconnect sessionID])
      else if player.move = -1 then
        (f, [])
      else
        let player := { player with
          direction := facing player dir
          move := -1
          x := x
          y := y }
        let f := { f with playerMap := f.playerMap.modify sessionID fun _ => player }
        (f, [.send (f.collectOtherSessions sessionID) (.moveStop player.id dir x y)])

def isTargetInAttackRange (attacker target : Player) (type : AttackType) : Bool :=
  let ax : Int := attacker.x.toNat
  let ay : Int := attacker.y.toNat
  let tx : Int := target.x.toNat
  let ty : Int := target.y.toNat
  if attacker.direction = dfPACKET_MOVE_DIR_LL then
    if tx > ax then false
    else ax - tx < type.rangeX && ((ay - ty).natAbs : Int) < type.rangeY
  else if attacker.direction = dfPACKET_MOVE_DIR_RR then
    if tx < ax then false
    else tx - ax < type.rangeX && ((ty - ay).natAbs : Int) < type.rangeY
  else
    false

/-- `target._hp -= damage`, in `std::int8_t`. -/
def applyDamage (target : Player) (damage : Int) : Player :=
  { target with hp := Int8.ofInt (target.hp.toInt - damage) }

/-- `AttackPlayer`: the first enemy in range, in iteration order, takes the damage. -/
def attackPlayer (f : FightContents) (attacker : Player) (type : AttackType) :
    FightContents × List Effect :=
  match f.playerMap.find? fun entry =>
      attacker.team ≠ entry.2.team ∧ isTargetInAttackRange attacker entry.2 type with
  | none => (f, [])
  | some entry =>
      let target := applyDamage entry.2 type.getAttackDamage
      let f := { f with playerMap := f.playerMap.modify entry.1 fun _ => target }
      let kick : List Effect := if target.hp ≤ 0 then [.disconnect target.sessionID] else []
      (f, kick ++
        [.send f.collectAllSessions (.damage attacker.id target.id target.hp.toUInt8)])

/-- The common body of the three attack handlers, which differ in the attack type
only. -/
def procCSAttack (f : FightContents) (type : AttackType) (sessionID : SessionID) (dir : UInt8)
    (x y : UInt16) (now : UInt32) : FightContents × List Effect :=
  if !isValidMoveDirection dir then
    (f, [.disconnect sessionID])
  else match f.playerMap.find sessionID with
  | none => (f, [])
  | some player =>
      if !isPositionSyncValid player x y then
        (f, [.disconnect sessionID])
      else if !canHandleAttack player now then
        (f, [])
      else
        let player := { player with
          lastAttackRequestAt := now
          direction := dir
          x := x
          y := y }
        let f := { f with playerMap := f.playerMap.modify sessionID fun _ => player }
        let announced : List Effect :=
          [.send (f.collectOtherSessions sessionID)
            (.attack type player.id player.direction player.x player.y)]
        let attacked := f.attackPlayer player type
        (attacked.1, announced ++ attacked.2)

def procCSAttack1 := fun f => procCSAttack f .attack1
def procCSAttack2 := fun f => procCSAttack f .attack2
def procCSAttack3 := fun f => procCSAttack f .attack3

/-- `FightStub::ProcMessage` after parsing. -/
def procMessage (f : FightContents) (sessionID : SessionID) (message : CSMessage)
    (now : UInt32) : FightContents × List Effect :=
  match message with
  | .moveStart dir x y => f.procCSMoveStart sessionID dir x y now
  | .moveStop dir x y => f.procCSMoveStop sessionID dir x y
  | .attack .attack1 dir x y => procCSAttack1 f sessionID dir x y now
  | .attack .attack2 dir x y => procCSAttack2 f sessionID dir x y now
  | .attack .attack3 dir x y => procCSAttack3 f sessionID dir x y now
  | .other => (f, [.disconnect sessionID])

end FightContents

/-! ## Events -/

/-- One call into a fight, with the answers its environment gives. -/
inductive FightEvent where
  | enter (sessionID : SessionID) (found : Option Player) (moved : Bool)
  | leave (sessionID : SessionID)
  | update (now : UInt32)
  | message (sessionID : SessionID) (message : CSMessage) (now : UInt32)
  | rehash (order : PlayerMap)
  deriving DecidableEq

/-- The contents and the effects after one event. -/
def fightStep (f : FightContents) : FightEvent → FightContents × List Effect
  | .enter sessionID found moved => f.onEnter sessionID found moved
  | .leave sessionID => f.onLeave sessionID
  | .update now => (f.onUpdate now, [])
  | .message sessionID message now => f.procMessage sessionID message now
  | .rehash order => (if order.isPerm f.playerMap then { f with playerMap := order } else f, [])

/-- The contents after a list of events. -/
def fightRun (f : FightContents) (events : List FightEvent) : FightContents :=
  events.foldl (fun f event => (fightStep f event).1) f

/-- A fight as `HandleFightAlloc` sets it up, on any object of the pool. -/
def newFight (pooled : FightContents) (contentsNum : ContentsNum) (matchID : Int)
    (group : Group) : FightContents :=
  pooled.clear.init contentsNum matchID group

end SessionServer.Battle
