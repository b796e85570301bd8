/-
  Battle/Control.lean --- the control thread, `Stop`, and the references of the workers.

  `CtrlThread` with its mutex and its condition variable, the producers of its queue,
  which notify after the enqueue and without the mutex, the phases of
  `FighterServer::Stop`, and who holds a `shared_ptr` to a fight, which decides the use
  count of `_fightPool`.  The handlers are the steps of the server.

  A notification wakes the thread only if it is blocked in the wait at that time, and
  nothing else wakes it.
-/
import SessionServer.Battle.Home
import SessionServer.Battle.DBWorkers

set_option autoImplicit false

namespace SessionServer.Battle

open SessionServer.Foundation

/-! ## Program points -/

/-- Where `CtrlThread` is. -/
inductive CtrlPhase where
  /-- at the head of its loop, about to lock `_ctrlMtx` -/
  | unlocked
  /-- holds the mutex, about to wait -/
  | locked
  /-- blocked in `_ctrlCv.wait`, which has released the mutex -/
  | waiting
  /-- notified, about to take the mutex again -/
  | woken
  /-- about to `Dequeue`, or inside the handler of a request -/
  | draining
  /-- `Dequeue` has returned false -/
  | checking
  /-- goes on, about to release the mutex -/
  | unlocking
  | returned
  deriving DecidableEq, Repr, Inhabited

/-- `_ctrlMtx` is not held by `CtrlThread`. -/
def CtrlPhase.free : CtrlPhase → Bool
  | .unlocked => true
  | .waiting => true
  | .woken => true
  | .returned => true
  | _ => false

/-- Where the thread that calls `Stop` is. -/
inductive StopPhase where
  | running
  /-- `StopAcceptThread` is done -/
  | acceptStopped
  /-- the shutdown of the match is requested; polls `_state` -/
  | polling
  /-- inside `StopControlThread`, about to clear `_ctrlThreadRun` -/
  | stopping
  /-- has cleared it, about to notify -/
  | notifying
  | joining
  /-- the control thread is joined -/
  | joined
  /-- `StopDBWorkers` has cleared `_dbThreadRun` -/
  | dbCleared
  deriving DecidableEq, Repr, Inhabited

/-- `_state < MATCH_DEREGISTERED`. -/
def ServerState.beforeDeregistered : ServerState → Bool
  | .serverCreated => true
  | .serverRunning => true
  | .acceptStopped => true
  | _ => false

/-! ## State -/

/-- The server with its threads. -/
structure Threads where
  server : Server
  ctrl : CtrlPhase
  stop : StopPhase
  /-- the shutdown event (104) is in the IOCP queue -/
  shutDownPosted : Bool
  state : ServerState
  ctrlThreadRun : Bool
  dbThreadRun : Bool
  /-- producers between `Enqueue` and `notify_one` -/
  toNotify : Nat
  /-- references a worker has fetched for an update or a message it has still to run -/
  fetched : List FightHandle
  /-- references a `Release` has fetched for its `OnLeave` -/
  leaving : List (SessionID × FightHandle)
  /-- references whose handler is over, still to be dropped -/
  done : List FightHandle

/-- The fight of an entry of `_contentsMap`. -/
def Contents.handle? : Contents → Option FightHandle
  | .match_ => none
  | .fight handle => some handle

namespace Threads

/-- The references the workers hold. -/
def refs (s : Threads) : List FightHandle :=
  s.fetched ++ s.server.entering.filterMap (fun event => event.2.handle?) ++
    s.leaving.map Prod.snd ++ s.done

/-- Some `shared_ptr` to the fight is left. -/
def Alive (s : Threads) (handle : FightHandle) : Prop :=
  s.server.Registered (.fight handle) ∨ handle ∈ s.refs

instance (s : Threads) (handle : FightHandle) : Decidable (s.Alive handle) :=
  inferInstanceAs (Decidable (_ ∨ _))

/-- `_fightPool.GetUseCount` between two requests: the deleter of the last reference
gives the object back. -/
def useCount (s : Threads) : Nat :=
  ((List.range s.server.created).filter fun handle => s.Alive handle).length

def shouldStopControlThread (s : Threads) : Bool :=
  s.useCount = 0 && !s.ctrlThreadRun && s.state = .matchDeregistered

/-- `notify_one`. -/
def notifyOne (s : Threads) : Threads :=
  if s.ctrl = .waiting then { s with ctrl := .woken } else s

/-! ## The control thread -/

/-- The next action of `CtrlThread`; the pooled object and the match ID are for a
FIGHTALLOC. -/
def ctrlStep (s : Threads) (pooled : FightContents) (matchID : Int) : Option Threads :=
  match s.ctrl with
  | .unlocked => some { s with ctrl := .locked }
  | .locked => some { s with ctrl := .waiting }
  | .waiting => none
  | .woken => some { s with ctrl := .draining }
  | .draining =>
      match s.server.posting, s.server.ctrlQ with
      | some _, _ => (systemStep s.server .post).map fun server => { s with server := server }
      | none, [] => some { s with ctrl := .checking }
      | none, .matchDeregister :: _ =>
          (systemStep s.server (.control pooled matchID)).map fun server =>
            { s with server := server, state := .matchDeregistered }
      | none, _ :: _ =>
          (systemStep s.server (.control pooled matchID)).map fun server =>
            { s with server := server }
  | .checking =>
      if s.shouldStopControlThread then
        some { s with ctrl := .returned, state := .controlStopped }
      else
        some { s with ctrl := .unlocking }
  | .unlocking => some { s with ctrl := .unlocked }
  | .returned => none

/-! ## Stop -/

/-- The next action of `Stop`. -/
def stopStep (s : Threads) : Option Threads :=
  match s.stop with
  | .running =>
      (systemStep s.server .stopAccept).map fun server =>
        { s with server := server, stop := .acceptStopped, state := .acceptStopped }
  | .acceptStopped => some { s with stop := .polling, shutDownPosted := true }
  | .polling => if s.state.beforeDeregistered then none else some { s with stop := .stopping }
  | .stopping =>
      if s.ctrl.free then some { s with stop := .notifying, ctrlThreadRun := false } else none
  | .notifying => some { s.notifyOne with stop := .joining }
  | .joining =>
      if s.ctrl = .returned then some { s with stop := .joined, state := .controlStopped } else none
  | .joined => some { s with stop := .dbCleared, dbThreadRun := false }
  | .dbCleared => none

/-! ## The workers and the accept thread -/

/-- A handler runs, and what it enqueued is to be notified. -/
def handled (s : Threads) (server : Server) : Threads :=
  { s with
      server := server
      toNotify := s.toNotify + (server.ctrlQ.length - s.server.ctrlQ.length) }

/-- A handler of a fight on a reference fetched before, which is then over. -/
def useFetched (s : Threads) (handle : FightHandle) : Option Threads :=
  if handle ∈ s.fetched then
    some { s with fetched := s.fetched.erase handle, done := handle :: s.done }
  else none

/-- The reference that `Release` keeps from its lookup to its end. -/
def keepLeaving (s : Threads) (id : SessionID) : Threads :=
  match s.server.leaveTarget id with
  | some (.fight handle) => { s with leaving := (id, handle) :: s.leaving }
  | _ => s

/-- `Release` returns. -/
def endLeaving (s : Threads) (id : SessionID) : Threads :=
  { s with
      leaving := s.leaving.filter fun entry => entry.1 ≠ id
      done := (s.leaving.filter fun entry => entry.1 = id).map Prod.snd ++ s.done }

/-- What a step of the server takes from the threads and leaves them, before the handler
itself; `none` for what the control thread and `Stop` do, and for what nobody can. -/
def prepare (s : Threads) : Step → Option Threads
  | .control _ _ => none
  | .post => none
  | .stopAccept => none
  | .shutDown => if s.shutDownPosted then some { s with shutDownPosted := false } else none
  | .update handle _ => s.useFetched handle
  | .message handle _ _ _ => s.useFetched handle
  | .runEnter _ contents => some { s with done := contents.handle?.toList ++ s.done }
  | .releaseFetch id => some (s.keepLeaving id)
  | .onRelease id => some (s.endLeaving id)
  | _ => some s

end Threads

/-! ## Steps -/

/-- What happens next. -/
inductive ThreadStep where
  | ctrl (pooled : FightContents) (matchID : Int)
  | stop
  /-- a worker, the accept thread or a client -/
  | server (step : Step)
  /-- a worker looks up a fight for an update or a message -/
  | fetch (handle : FightHandle)
  /-- a worker drops a reference -/
  | drop (handle : FightHandle)
  /-- a producer notifies the control thread -/
  | notify

/-- One step; `none` where it is not enabled. -/
def threadStep (s : Threads) : ThreadStep → Option Threads
  | .ctrl pooled matchID => s.ctrlStep pooled matchID
  | .stop => s.stopStep
  | .server step =>
      (s.prepare step).bind fun prepared =>
        (systemStep s.server step).map fun server => prepared.handled server
  | .fetch handle =>
      if handle < s.server.created ∧ s.server.Registered (.fight handle) then
        some { s with fetched := handle :: s.fetched }
      else none
  | .drop handle =>
      if handle ∈ s.done then some { s with done := s.done.erase handle } else none
  | .notify =>
      if s.toNotify = 0 then none
      else some { s.notifyOne with toNotify := s.toNotify - 1 }

/-- The threads once the server is started. -/
def initialThreads (pooled : FightContents) : Threads where
  server := initialServer pooled
  ctrl := .unlocked
  stop := .running
  shutDownPosted := false
  state := .serverRunning
  ctrlThreadRun := true
  dbThreadRun := true
  toNotify := 0
  fetched := []
  leaving := []
  done := []

end SessionServer.Battle
