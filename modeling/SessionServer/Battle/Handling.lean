/-
  Battle/Handling.lean --- moves of sessions inside the handlers.

  The handlers that move a session write its slot (`TryMoveSessionToContents`) and a
  player map one after the other, and a release reads the slot without the lock of the
  contents.  Here the two writes are steps of their own: the grouping of
  `MatchContents::OnEnter` takes one player at a time, slot first, and
  `FightContents::OnEnter` moves the slot in one step and inserts the player in
  another.  Everything else is a step of the server as before.

  A handler runs under the lock of its contents: no other handler of that contents
  runs in between.  An `OnEnter` holds `_playerMutex` as a reader, which keeps
  `OnAccept` and `OnRelease` out.
-/
import SessionServer.Battle.MatchRun

set_option autoImplicit false

namespace SessionServer.Battle

open SessionServer.Foundation

/-! ## Handlers in progress -/

/-- `MatchContents::OnEnter` while it assigns slots. -/
structure Grouping where
  slots : List SessionID
  /-- the slot of the first player has been written, and its erasure is to come -/
  moved : Bool
  deriving DecidableEq

/-- The team whose slots are being assigned. -/
def Grouping.team (work : Grouping) : Team := if work.slots.length < 3 then .red else .blue

/-- The group of six assigned slots. -/
def Grouping.group (work : Grouping) : Group where
  red := fun slot => work.slots.getD slot 0
  blue := fun slot => work.slots.getD (3 + slot) 0

/-- `FightContents::OnEnter` between the slot and the map. -/
structure Inserting where
  handle : FightHandle
  id : SessionID
  player : Player
  moved : Bool
  deriving DecidableEq

/-- The server, with the handlers that have begun and not returned. -/
structure Handling where
  server : Server
  grouping : Option Grouping
  inserting : List Inserting

namespace Handling

/-- A handler of the contents is in progress, which holds its lock. -/
def busy (h : Handling) : Contents → Bool
  | .match_ => h.grouping.isSome
  | .fight handle => h.inserting.any fun work => work.handle = handle

/-- No handler is in progress. -/
def Quiet (h : Handling) : Prop := h.grouping = none ∧ h.inserting = []

instance (h : Handling) : Decidable h.Quiet := inferInstanceAs (Decidable (_ ∧ _))

/-- The end of `AcceptThread`'s round, after `OnEnter` of the default contents. -/
def finishAccept (h : Handling) (id : SessionID) : Handling :=
  { h with
      server := { h.server.setPhase id .live with accepting := none }
      grouping := none }

end Handling

/-! ## Steps -/

/-- What happens next. -/
inductive HandlingStep where
  /-- a step of the server that moves no session; its handlers need the lock -/
  | server (step : Step)
  /-- `MatchContents::OnEnter` up to the insertion -/
  | matchEnter
  /-- `TryMoveSessionToContents` of the player the iteration begins with -/
  | groupMove
  /-- the erasure of that player -/
  | groupErase
  /-- the FIGHTALLOC, and the end of `OnEnter` -/
  | groupDone
  /-- a worker runs the `OnEnter` of a fight up to `TryMoveSessionToContents` -/
  | fightMove (id : SessionID) (handle : FightHandle)
  /-- the insertion, and the rest of that `OnEnter` -/
  | fightInsert (handle : FightHandle)

namespace Handling

/-- The locks a step of the server needs are free. -/
def free (h : Handling) : Step → Bool
  | .onAccept _ => h.grouping.isNone && h.inserting.isEmpty
  | .onRelease _ => h.grouping.isNone && h.inserting.isEmpty
  | .releaseLeave id =>
      match h.server.leavingTo id with
      | some (some contents) => !h.busy contents
      | _ => true
  | .update handle _ => !h.busy (.fight handle)
  | .message handle _ _ _ => !h.busy (.fight handle)
  | .rehash handle _ => !h.busy (.fight handle)
  | .rehashMatch _ _ => !h.busy .match_
  | .shutDown => !h.busy .match_
  | _ => true

/-- The steps whose moves are split. -/
def splits : Step → Bool
  | .acceptEnter => true
  | .runEnter _ _ => true
  | _ => false

/-- `MatchContents::OnEnter` up to the insertion, for the session being accepted. -/
def matchEnter (h : Handling) (id : SessionID) : Handling :=
  if h.server.match_.stopRequested then
    { h with server := h.server.disconnect id }.finishAccept id
  else
    let entered := h.server.insertWaiting id
    if entered.match_.playerMap.length ≥ 6 then
      { h with server := entered, grouping := some ⟨[], false⟩ }
    else
      { h with server := entered }.finishAccept id

/-- The slot of the first player: its team, and the move out of the match. -/
def groupMove (h : Handling) (work : Grouping) (id : SessionID) : Handling :=
  { h with
      server := ((h.server.setTeam id work.team).tryMoveSessionToContents id CONMOV).1
      grouping := some { work with moved := true } }

/-- The first player leaves the map. -/
def groupErase (h : Handling) (work : Grouping) (id : SessionID) (rest : List SessionID) :
    Handling :=
  { h with
      server := { h.server with match_ := { h.server.match_ with playerMap := rest } }
      grouping := some ⟨work.slots ++ [id], false⟩ }

/-- `FightContents::OnEnter` up to `TryMoveSessionToContents`. -/
def fightMove (h : Handling) (id : SessionID) (handle : FightHandle) : Handling :=
  let taken := { h.server with entering := h.server.entering.erase (id, .fight handle) }
  match taken.playerMap id with
  | none => { h with server := taken.fightEvent handle (.enter id none false) }
  | some player =>
      let moved := taken.tryMoveSessionToContents id (taken.fights handle).contentsNum
      { h with
          server := moved.1
          inserting := ⟨handle, id, player, moved.2⟩ :: h.inserting }

/-- The rest of `FightContents::OnEnter`. -/
def fightInsert (h : Handling) (work : Inserting) : Handling :=
  { h with
      server := h.server.fightEvent work.handle (.enter work.id (some work.player) work.moved)
      inserting := h.inserting.erase work }

end Handling

/-- One step; `none` where it is not enabled. -/
def handlingStep (h : Handling) : HandlingStep → Option Handling
  | .server step =>
      if h.free step && !Handling.splits step then
        (systemStep h.server step).map fun server => { h with server := server }
      else none
  | .matchEnter =>
      match h.server.accepting, h.grouping with
      | some id, none =>
          if (h.server.playerMap id).isSome then
            if h.server.contentsMap MATCH = some .match_ then some (h.matchEnter id)
            else some (h.finishAccept id)
          else none
      | _, _ => none
  | .groupMove =>
      match h.grouping, h.server.match_.playerMap with
      | some work, id :: _ =>
          if !work.moved && work.slots.length < 6 then some (h.groupMove work id) else none
      | _, _ => none
  | .groupErase =>
      match h.grouping, h.server.match_.playerMap with
      | some work, id :: rest => if work.moved then some (h.groupErase work id rest) else none
      | _, _ => none
  | .groupDone =>
      match h.grouping, h.server.accepting with
      | some work, some id =>
          if !work.moved && work.slots.length = 6 then
            some ({ h with
              server := h.server.enqueueControl (.fightAlloc work.group) }.finishAccept id)
          else none
      | _, _ => none
  | .fightMove id handle =>
      if (id, .fight handle) ∈ h.server.entering ∧ h.busy (.fight handle) = false then
        some (h.fightMove id handle)
      else none
  | .fightInsert handle =>
      match h.inserting.find? fun work => work.handle = handle with
      | some work => some (h.fightInsert work)
      | none => none

/-- **What a step can do.** -/
inductive HandlingMoved (h : Handling) : HandlingStep → Handling → Prop where
  | server (step : Step) (server : Server) (hfree : h.free step = true)
      (hwhole : Handling.splits step = false) (hstep : systemStep h.server step = some server) :
      HandlingMoved h (.server step) { h with server := server }
  | matchEnter (id : SessionID) (hacc : h.server.accepting = some id)
      (hidle : h.grouping = none) : HandlingMoved h .matchEnter (h.matchEnter id)
  | noMatch (id : SessionID) (hacc : h.server.accepting = some id) (hidle : h.grouping = none) :
      HandlingMoved h .matchEnter (h.finishAccept id)
  | groupMove (work : Grouping) (id : SessionID) (rest : List SessionID)
      (hgrouping : h.grouping = some work) (hidle : work.moved = false)
      (hmap : h.server.match_.playerMap = id :: rest) :
      HandlingMoved h .groupMove (h.groupMove work id)
  | groupErase (work : Grouping) (id : SessionID) (rest : List SessionID)
      (hgrouping : h.grouping = some work) (hmoved : work.moved = true)
      (hmap : h.server.match_.playerMap = id :: rest) :
      HandlingMoved h .groupErase (h.groupErase work id rest)
  | groupDone (work : Grouping) (id : SessionID) (hgrouping : h.grouping = some work)
      (hidle : work.moved = false) (hfull : work.slots.length = 6)
      (hacc : h.server.accepting = some id) :
      HandlingMoved h .groupDone (Handling.finishAccept
        { h with server := h.server.enqueueControl (.fightAlloc work.group) } id)
  | fightMove (id : SessionID) (handle : FightHandle)
      (hmem : (id, .fight handle) ∈ h.server.entering) :
      HandlingMoved h (.fightMove id handle) (h.fightMove id handle)
  | fightInsert (handle : FightHandle) (work : Inserting) (hmem : work ∈ h.inserting) :
      HandlingMoved h (.fightInsert handle) (h.fightInsert work)

theorem handlingStep_moved {h h' : Handling} {step : HandlingStep}
    (hstep : handlingStep h step = some h') : HandlingMoved h step h' := by
  cases step with
  | server step =>
      simp only [handlingStep] at hstep
      split at hstep
      · rename_i hfree
        simp only [Bool.and_eq_true, Bool.not_eq_true'] at hfree
        obtain ⟨server, hserver, rfl⟩ := Option.map_eq_some_iff.mp hstep
        exact .server step server hfree.1 hfree.2 hserver
      · cases hstep
  | matchEnter =>
      simp only [handlingStep] at hstep
      split at hstep
      · rename_i id hacc hidle
        split at hstep
        · split at hstep
          · cases hstep
            exact .matchEnter id hacc hidle
          · cases hstep
            exact .noMatch id hacc hidle
        · cases hstep
      · cases hstep
  | groupMove =>
      simp only [handlingStep] at hstep
      split at hstep
      · rename_i work id rest hgrouping hmap
        split at hstep
        · rename_i hguard
          simp only [Bool.and_eq_true, Bool.not_eq_true', decide_eq_true_eq] at hguard
          cases hstep
          exact .groupMove work id rest hgrouping hguard.1 hmap
        · cases hstep
      · cases hstep
  | groupErase =>
      simp only [handlingStep] at hstep
      split at hstep
      · rename_i work id rest hgrouping hmap
        split at hstep
        · rename_i hmoved
          cases hstep
          exact .groupErase work id rest hgrouping hmoved hmap
        · cases hstep
      · cases hstep
  | groupDone =>
      simp only [handlingStep] at hstep
      split at hstep
      · rename_i work id hgrouping hacc
        split at hstep
        · rename_i hguard
          simp only [Bool.and_eq_true, Bool.not_eq_true', decide_eq_true_eq] at hguard
          cases hstep
          exact .groupDone work id hgrouping hguard.1 hguard.2 hacc
        · cases hstep
      · cases hstep
  | fightMove id handle =>
      simp only [handlingStep] at hstep
      split at hstep
      · rename_i hguard
        cases hstep
        exact .fightMove id handle hguard.1
      · cases hstep
  | fightInsert handle =>
      simp only [handlingStep] at hstep
      split at hstep
      · rename_i work hfind
        cases hstep
        exact .fightInsert handle work (List.mem_of_find?_eq_some hfind)
      · cases hstep

/-- The server once it is started. -/
def initialHandling (pooled : FightContents) : Handling := ⟨initialServer pooled, none, []⟩

end SessionServer.Battle
