/-
  Battle/System.lean --- the whole server, one handler a step.

  Sessions, the match contents, the fights, the control thread and the IOCP queue of
  enter events, with every order in which their handlers can run.  A handler of a
  contents runs under the lock of that contents and is one step; what happens outside
  the locks is split: a worker fetches the contents of an event in one step and runs
  the handler in a later one, a release passes through its phases, and the control
  thread posts the six enter events of a fight one by one.

  A fight is named by a handle, one for each `HandleFightAlloc`.  A worker may hold the
  pointer of a fight it has fetched for as long as it likes, so messages and updates
  of a fight are enabled from its registration on, deregistered or not.
-/
import SessionServer.Battle.FightRun
import SessionServer.Foundation.Run

set_option autoImplicit false

namespace SessionServer.Battle

open SessionServer.Foundation

/-! ## State -/

/-- One `HandleFightAlloc`, counted from 0. -/
abbrev FightHandle := Nat

/-- An entry of `_contentsMap`. -/
inductive Contents where
  | match_
  | fight (handle : FightHandle)
  deriving DecidableEq

instance : LawfulBEq (SessionID × Contents) := inferInstance

/-- Where a session is in its life. -/
inductive Phase where
  /-- inside `AcceptThread` -/
  | accepting
  | live
  /-- `Release` has passed its compare-exchange -/
  | releasing
  /-- `Release` has looked up the contents to leave -/
  | leaving (contents : Option Contents)
  /-- `OnLeave` has been called -/
  | left
  /-- `OnRelease` has been called -/
  | released
  deriving DecidableEq

/-- The fields of `SESSION` the handlers use. -/
structure Session where
  phase : Phase
  dFlag : Bool
  contentsNum : ContentsNum
  deriving DecidableEq

/-- Accepted, or being accepted, and not yet taken by `Release`. -/
def Session.IsLive (session : Session) : Prop :=
  session.phase = .accepting ∨ session.phase = .live

instance (session : Session) : Decidable session.IsLive :=
  inferInstanceAs (Decidable (_ ∨ _))

/-- `struct Control`. -/
inductive Control where
  | fightAlloc (group : Group)
  | fightFree (handle : FightHandle)
  | matchDeregister
  deriving DecidableEq

/-- `MatchContents`: the players waiting, by session ID and in iteration order; the
next insertion lands at `place`. -/
structure MatchContents where
  playerMap : List SessionID
  stopRequested : Bool
  place : Nat
  deriving DecidableEq

/-- The server.  `dbQ`, `frees` and `inits` record what was ever pushed, enqueued and
given to `Init`; nothing reads them. -/
structure Server where
  sessions : SessionID → Option Session
  /-- the session `AcceptThread` is busy with -/
  accepting : Option SessionID
  acceptStopped : Bool
  /-- `FighterServer::_playerMap` -/
  playerMap : SessionID → Option Player
  match_ : MatchContents
  contentsMap : ContentsNum → Option Contents
  fights : FightHandle → FightContents
  created : Nat
  ctrlQ : List Control
  /-- the enter events `HandleFightAlloc` has still to post -/
  posting : Option (ContentsNum × List SessionID)
  nextContentsNum : ContentsNum
  /-- the enter events (101) in the IOCP queue -/
  queue : List (SessionID × ContentsNum)
  /-- the enter events whose contents a worker has fetched -/
  entering : List (SessionID × Contents)
  dbQ : List (FightHandle × BattleResult)
  frees : List FightHandle
  inits : FightHandle → Int × Group

namespace Server

/-! ## Sessions -/

/-- Change the state of a session that exists. -/
def modifySession (s : Server) (id : SessionID) (write : Session → Session) : Server :=
  { s with
      sessions := fun id' => if id' = id then (s.sessions id').map write else s.sessions id' }

/-- `Disconnect`: the flag is set only while the slot still holds this session. -/
def disconnect (s : Server) (id : SessionID) : Server :=
  s.modifySession id fun session =>
    if session.IsLive then { session with dFlag := true } else session

/-- A session `TryMoveSessionToContents` can move. -/
def movable (s : Server) (id : SessionID) : Bool :=
  match s.sessions id with
  | some session => session.IsLive && !session.dFlag
  | none => false

def tryMoveSessionToContents (s : Server) (id : SessionID) (contentsNum : ContentsNum) :
    Server × Bool :=
  if s.movable id then
    (s.modifySession id fun session => { session with contentsNum := contentsNum }, true)
  else
    (s, false)

/-! ## The match -/

def enqueueControl (s : Server) (control : Control) : Server :=
  { s with ctrlQ := s.ctrlQ ++ [control] }

/-- `_team = team` through the pointer in the player map. -/
def setTeam (s : Server) (id : SessionID) (team : Team) : Server :=
  { s with
      playerMap := fun id' =>
        if id' = id then (s.playerMap id').map fun player => { player with team := team }
        else s.playerMap id' }

/-- One round of `AssignTeamAndMovePlayers`: the first player of the map. -/
def assignSlot (s : Server) (team : Team) : Server × SessionID :=
  match s.match_.playerMap with
  | [] => (s, 0)
  | id :: rest =>
      let moved := ((s.setTeam id team).tryMoveSessionToContents id CONMOV).1
      ({ moved with match_ := { moved.match_ with playerMap := rest } }, id)

def assignTeamAndMovePlayers (s : Server) (team : Team) : Server × (Fin 3 → SessionID) :=
  let a := s.assignSlot team
  let b := a.1.assignSlot team
  let c := b.1.assignSlot team
  (c.1, ![a.2, b.2, c.2])

/-- The FIGHTALLOC branch of `OnEnter`. -/
def groupPlayers (s : Server) : Server :=
  let red := s.assignTeamAndMovePlayers .red
  let blue := red.1.assignTeamAndMovePlayers .blue
  blue.1.enqueueControl (.fightAlloc ⟨red.2, blue.2⟩)

/-- `_playerMap.insert`: an existing entry is kept. -/
def insertWaiting (s : Server) (id : SessionID) : Server :=
  if id ∈ s.match_.playerMap then s
  else
    { s with
        match_ :=
          { s.match_ with
              playerMap := s.match_.playerMap.take s.match_.place ++
                id :: s.match_.playerMap.drop s.match_.place } }

/-- `MatchContents::OnEnter`. -/
def matchEnter (s : Server) (id : SessionID) : Server :=
  if s.match_.stopRequested then s.disconnect id
  else if (s.playerMap id).isSome then
    let entered := s.insertWaiting id
    if entered.match_.playerMap.length ≥ 6 then entered.groupPlayers else entered
  else s

/-- `CheckStopRequested`, and the control it leads to. -/
def checkStopRequested (s : Server) : Server :=
  if s.match_.playerMap = [] ∧ s.match_.stopRequested then s.enqueueControl .matchDeregister
  else s

/-- `MatchContents::OnLeave`. -/
def matchLeave (s : Server) (id : SessionID) : Server :=
  checkStopRequested
    { s with match_ := { s.match_ with playerMap := s.match_.playerMap.filter (· ≠ id) } }

/-- `MatchContents::OnShutDown`. -/
def matchShutDown (s : Server) : Server :=
  let stopped := { s with match_ := { s.match_ with stopRequested := true } }
  (stopped.match_.playerMap.foldl disconnect stopped).checkStopRequested

/-! ## The fights -/

/-- What the server does for one request of a fight; packets are not modelled here. -/
def applyEffect (handle : FightHandle) (s : Server) : Effect → Server
  | .send _ _ => s
  | .disconnect id => s.disconnect id
  | .requestSave result => { s with dbQ := s.dbQ ++ [(handle, result)] }
  | .fightFree => { s.enqueueControl (.fightFree handle) with frees := s.frees ++ [handle] }

/-- A handler of a fight, with its requests carried out. -/
def fightEvent (s : Server) (handle : FightHandle) (event : FightEvent) : Server :=
  let out := fightStep (s.fights handle) event
  out.2.foldl (applyEffect handle)
    { s with fights := fun handle' => if handle' = handle then out.1 else s.fights handle' }

/-- `FightContents::OnEnter`, with what the server answers to it. -/
def fightEnter (s : Server) (handle : FightHandle) (id : SessionID) : Server :=
  match s.playerMap id with
  | none => s.fightEvent handle (.enter id none false)
  | some player =>
      let moved := s.tryMoveSessionToContents id (s.fights handle).contentsNum
      moved.1.fightEvent handle (.enter id (some player) moved.2)

def contentsEnter (s : Server) (id : SessionID) : Contents → Server
  | .match_ => s.matchEnter id
  | .fight handle => s.fightEnter handle id

def contentsLeave (s : Server) (id : SessionID) : Contents → Server
  | .match_ => s.matchLeave id
  | .fight handle => s.fightEvent handle (.leave id)

/-! ## The control thread -/

/-- `RegisterContents`: an existing entry is kept. -/
def registerContents (s : Server) (contentsNum : ContentsNum) (contents : Contents) : Server :=
  if (s.contentsMap contentsNum).isSome then s
  else
    { s with
        contentsMap := fun n => if n = contentsNum then some contents else s.contentsMap n }

def deregisterContents (s : Server) (contentsNum : ContentsNum) : Server :=
  { s with contentsMap := fun n => if n = contentsNum then none else s.contentsMap n }

def advanceContentsNum (nextContentsNum : ContentsNum) : ContentsNum :=
  let next := (nextContentsNum + 1).tmod ROOM
  if next = 0 then next + 1 else next

/-- `HandleFightAlloc` up to the first `InsertToContents`, on the fight object the pool
gives and with the match ID created. -/
def handleFightAlloc (s : Server) (group : Group) (pooled : FightContents) (matchID : Int) :
    Server :=
  let handle := s.created
  let fight := newFight pooled s.nextContentsNum matchID group
  let s := { s with
    fights := fun handle' => if handle' = handle then fight else s.fights handle'
    created := s.created + 1
    inits := fun handle' => if handle' = handle then (matchID, group) else s.inits handle'
    posting := some (s.nextContentsNum, group.sessions) }
  s.registerContents s.nextContentsNum (.fight handle)

def handleFightFree (s : Server) (handle : FightHandle) : Server :=
  s.deregisterContents (s.fights handle).contentsNum

def handleMatchDeregister (s : Server) : Server :=
  s.deregisterContents MATCH

end Server

/-! ## Steps -/

/-- What happens next. -/
inductive Step where
  /-- `AcceptThread` takes a client and gives it an ID -/
  | accept (id : SessionID)
  /-- `OnAccept`, on the player object the pool gives -/
  | onAccept (pooled : Player)
  /-- `OnEnter` of the default contents, and the end of the accept -/
  | acceptEnter
  /-- anybody calls `Disconnect` -/
  | disconnect (id : SessionID)
  /-- the compare-exchange of `Release` -/
  | release (id : SessionID)
  | releaseFetch (id : SessionID)
  | releaseLeave (id : SessionID)
  | onRelease (id : SessionID)
  /-- a worker takes an enter event and looks up its contents -/
  | fetchEnter (id : SessionID) (contentsNum : ContentsNum)
  /-- a worker runs the `OnEnter` it has fetched -/
  | runEnter (id : SessionID) (contents : Contents)
  | update (handle : FightHandle) (now : UInt32)
  | message (handle : FightHandle) (id : SessionID) (message : CSMessage) (now : UInt32)
  | rehash (handle : FightHandle) (order : PlayerMap)
  | rehashMatch (order : List SessionID) (place : Nat)
  /-- the control thread takes a request -/
  | control (pooled : FightContents) (matchID : Int)
  /-- the control thread posts the next enter event, or is done with the request -/
  | post
  | stopAccept
  /-- the shutdown event (104) of the match -/
  | shutDown

namespace Server

/-- The session is in the given phase. -/
def inPhase (s : Server) (id : SessionID) (phase : Phase) : Bool :=
  match s.sessions id with
  | some session => session.phase = phase
  | none => false

def setPhase (s : Server) (id : SessionID) (phase : Phase) : Server :=
  s.modifySession id fun session => { session with phase := phase }

/-- The contents `Release` looks up. -/
def leaveTarget (s : Server) (id : SessionID) : Option Contents :=
  match s.sessions id with
  | some session =>
      if session.contentsNum ≠ 0 ∧ session.contentsNum ≠ -1 then
        s.contentsMap session.contentsNum
      else
        none
  | none => none

/-- The target `Release` has looked up. -/
def leavingTo (s : Server) (id : SessionID) : Option (Option Contents) :=
  match s.sessions id with
  | some ⟨.leaving contents, _, _⟩ => some contents
  | _ => none

end Server

open Server

/-- One step of the server; `none` where it is not enabled. -/
def systemStep (s : Server) : Step → Option Server
  | .accept id =>
      if !s.acceptStopped && s.accepting.isNone && (s.sessions id).isNone then
        some { s with
          accepting := some id
          sessions := fun id' =>
            if id' = id then some ⟨.accepting, false, MATCH⟩ else s.sessions id' }
      else none
  | .onAccept pooled =>
      match s.accepting with
      | some id =>
          if (s.playerMap id).isNone then
            some { s with
              playerMap := fun id' =>
                if id' = id then some { pooled with sessionID := id } else s.playerMap id' }
          else none
      | none => none
  | .acceptEnter =>
      match s.accepting with
      | some id =>
          if (s.playerMap id).isSome then
            let entered := match s.contentsMap MATCH with
              | some contents => s.contentsEnter id contents
              | none => s
            some { entered.setPhase id .live with accepting := none }
          else none
      | none => none
  | .disconnect id => some (s.disconnect id)
  | .release id => if s.inPhase id .live then some (s.setPhase id .releasing) else none
  | .releaseFetch id =>
      if s.inPhase id .releasing then some (s.setPhase id (.leaving (s.leaveTarget id))) else none
  | .releaseLeave id =>
      match s.leavingTo id with
      | some (some contents) => some ((s.contentsLeave id contents).setPhase id .left)
      | some none => some (s.setPhase id .left)
      | none => none
  | .onRelease id =>
      if s.inPhase id .left then
        some { s.setPhase id .released with
          playerMap := fun id' => if id' = id then none else s.playerMap id' }
      else none
  | .fetchEnter id contentsNum =>
      if (id, contentsNum) ∈ s.queue then
        let taken := { s with queue := s.queue.erase (id, contentsNum) }
        match s.contentsMap contentsNum with
        | some contents => some { taken with entering := (id, contents) :: s.entering }
        | none => some taken
      else none
  | .runEnter id contents =>
      if (id, contents) ∈ s.entering then
        some ({ s with entering := s.entering.erase (id, contents) }.contentsEnter id contents)
      else none
  | .update handle now =>
      if handle < s.created then some (s.fightEvent handle (.update now)) else none
  | .message handle id message now =>
      if handle < s.created then some (s.fightEvent handle (.message id message now)) else none
  | .rehash handle order =>
      if handle < s.created then some (s.fightEvent handle (.rehash order)) else none
  | .rehashMatch order place =>
      if order.isPerm s.match_.playerMap then
        some { s with match_ := { s.match_ with playerMap := order, place := place } }
      else none
  | .control pooled matchID =>
      match s.posting, s.ctrlQ with
      | none, .fightAlloc group :: rest =>
          some ({ s with ctrlQ := rest }.handleFightAlloc group pooled matchID)
      | none, .fightFree handle :: rest => some ({ s with ctrlQ := rest }.handleFightFree handle)
      | none, .matchDeregister :: rest => some { s with ctrlQ := rest }.handleMatchDeregister
      | _, _ => none
  | .post =>
      match s.posting with
      | some (contentsNum, id :: rest) =>
          some { s with
            queue := s.queue ++ [(id, contentsNum)]
            posting := some (contentsNum, rest) }
      | some (_, []) =>
          some { s with
            posting := none
            nextContentsNum := advanceContentsNum s.nextContentsNum }
      | none => none
  | .stopAccept =>
      if s.accepting.isNone then some { s with acceptStopped := true } else none
  | .shutDown =>
      if s.acceptStopped then
        match s.contentsMap MATCH with
        | some _ => some s.matchShutDown
        | none => some s
      else none

/-- The server once `FighterServer` is constructed and started. -/
def initialServer (pooled : FightContents) : Server where
  sessions := fun _ => none
  accepting := none
  acceptStopped := false
  playerMap := fun _ => none
  match_ := ⟨[], false, 0⟩
  contentsMap := fun n => if n = MATCH then some .match_ else none
  fights := fun _ => pooled
  created := 0
  ctrlQ := []
  posting := none
  nextContentsNum := 1
  queue := []
  entering := []
  dbQ := []
  frees := []
  inits := fun _ => (0, ⟨fun _ => 0, fun _ => 0⟩)

end SessionServer.Battle
