/-
  ContentLib/ContentsServer.lean --- the session slots, one atomic operation a step.

  Every thread is a stack of frames, the innermost call first, and a frame stands at a
  program point of its function.  A step runs the frame on top of one stack up to and
  including its next access to shared memory: an Interlocked operation, a read or a
  write of a `SESSION` field, an operation of `_sendQ` or `_indexArray`, an I/O call or
  a post to the IOCP.  Thread 0 is `AcceptThread`, thread 1 is `TimeOutThread`; the
  others are workers and whatever calls the server.

  `_indexArray` is taken as a stack whose operations are atomic.  Of `_sendQ` the linking
  and unlinking of a node are steps of their own, and so are the changes of `_size` before
  and after them.  A session ID is kept as the pair it packs: the slot index above bit 48
  and the key.
-/
import SessionServer.Foundation.Run

set_option autoImplicit false

namespace SessionServer.ContentLib

/-! ## State -/

/-- The slot index and the key of a session ID. -/
structure SessionID where
  index : Nat
  key : Nat
  deriving DecidableEq

/-- `FindSession`. -/
def findSession (id : SessionID) : Nat := id.index

/-- One `Enqueue` on the send queue of a slot, counted from 0: the reference the queue
holds on the buffer. -/
abbrev Tag := Nat

/-- An I/O that has been posted and whose completion no worker has taken. -/
structure Io where
  /-- `_type`: false for a receive -/
  send : Bool
  /-- the buffers `WSASend` was given -/
  buffers : List Tag
  /-- not finished when the call returned -/
  pending : Bool
  cancelled : Bool
  deriving DecidableEq

/-- What an I/O call returns; also whether an `Enqueue` finds room. -/
inductive Outcome where
  | done
  | pending
  | failed
  deriving DecidableEq

/-- `SESSION`, with the I/O outstanding on its socket.  The last four fields are recorded
for the statements; nothing reads them. -/
structure Session where
  sessionID : SessionID
  /-- the bit `RELEASEFLAG` of `_ioCount` -/
  releaseFlag : Bool
  /-- the other bits of `_ioCount` -/
  ioCount : Nat
  dFlag : Bool
  sendFlag : Bool
  firstRecv : Bool
  time : UInt64
  contentsNum : Int
  /-- the nodes linked in `_sendQ` -/
  sendQ : List Tag
  /-- `_sendQ._size` -/
  size : Int
  /-- `_packetBox._SBufferArray` -/
  sBufferArray : Nat → Tag
  /-- `_packetBox._count` -/
  count : Nat
  io : List Io
  /-- the slot has been accepted: `AcceptThread` has cleared its `RELEASEFLAG` -/
  armed : Bool
  /-- the number of `Enqueue`s -/
  enqueued : Nat
  /-- taken off the queue, with its reference not dropped yet -/
  held : List Tag
  /-- `DecRefcnt` -/
  dropped : List Tag

/-- The events of a session the statements are about. -/
inductive Event where
  | onAccept
  /-- the compare-exchange of `Release` succeeds -/
  | release
  | onRelease
  /-- the index goes back on the stack -/
  | push
  deriving DecidableEq

/-- A message in the IOCP queue. -/
inductive Message where
  | release (i : Nat)
  | sendPost (i : Nat)
  deriving DecidableEq

def Message.slot : Message → Nat
  | .release i => i
  | .sendPost i => i

/-! ## Program points -/

inductive DisconnectPc where
  | inc | check | mark | cancel
  deriving DecidableEq

/-- `enqueue` and `size` are inside `Enqueue`. -/
inductive SendPacketPc where
  | inc | check | dFlag | enqueue | size | post
  deriving DecidableEq

inductive TryMovePc where
  | inc | check | dFlag | store
  deriving DecidableEq

/-- `WorkerThread` on a receive that has completed; `user` is inside `RecvCompletion`. -/
inductive RecvPc where
  | firstRecv | time | user
  deriving DecidableEq

/-- `RecvPost` and the end of `WorkerThread` after it. -/
inductive RecvPostPc where
  | dFlag | inc | wsaRecv | recheck | cancel
  deriving DecidableEq

/-- `WorkerThread` on a send that has completed; `drop` and `zero` are `SendCompletion`. -/
inductive SentPc where
  | drop (k : Nat)
  | zero | sendFlag
  deriving DecidableEq

/-- `dequeue`, `take` and `restore` are inside `Dequeue`: it has counted the node it is to
take, or found none. -/
inductive SendPostPc where
  | dFlag | size | exchange | inc
  | dequeue (k : Nat)
  | take (k : Nat)
  | restore (k : Nat)
  | count (k : Nat)
  | reset | resize
  | wsaSend (k : Nat)
  | recheck | cancel
  deriving DecidableEq

/-- `Release`; `clear` to `clearRestore` are `ClearSendQ`, `leave` is inside `OnLeave`, `push`
is inside `OnRelease` up to the push. -/
inductive ReleasePc where
  | cas
  | drop (k : Nat)
  | zero | clear | clearTake
  | clearDrop (tag : Tag)
  | clearRestore
  | sessionCount | leave | onRelease | push
  deriving DecidableEq

/-- `AcceptThread` with an index; `enter` is inside `OnAccept` and `OnEnter`. -/
inductive AcceptPc where
  | sessionCount | clear | clearTake
  | clearDrop (tag : Tag)
  | clearRestore
  | sessionID | time | firstRecv | sendFlag | inc | and | contentsNum | dFlag | sessionKey
  | onAccept | enter | wsaRecv
  deriving DecidableEq

/-- `TimeOutThread` at a slot, with the session ID it has read. -/
inductive SweepPc where
  | sessionID
  | dFlag (session : SessionID)
  | firstRecv (session : SessionID)
  | time (session : SessionID)
  deriving DecidableEq

/-- A call in progress.  `drop`, `dead` and `postRelease` are the end every function with a
reference shares: decrement `_ioCount`, and at 0 set `_dFlag` and have the slot released,
by a message or, with `direct`, by a call. -/
inductive Frame where
  | disconnect (id : SessionID) (pc : DisconnectPc)
  | sendPacket (id : SessionID) (pc : SendPacketPc)
  | tryMove (id : SessionID) (contentsNum : Int) (pc : TryMovePc)
  | drop (i : Nat) (direct : Bool)
  | dead (i : Nat) (direct : Bool)
  | postRelease (i : Nat)
  | recv (i : Nat) (pc : RecvPc)
  | recvPost (i : Nat) (pc : RecvPostPc)
  | sent (i : Nat) (pc : SentPc)
  | sendPost (i : Nat) (pc : SendPostPc)
  | release (i : Nat) (pc : ReleasePc)
  | pop
  | accept (i : Nat) (pc : AcceptPc)
  | sweep (regular : Bool) (now : UInt64) (i : Nat) (pc : SweepPc)
  deriving DecidableEq

/-- `_initialTime` and `_regularTime` are in seconds, from 0 to 2147483: there `int`, in which the
source multiplies them by 1000, holds the product. -/
structure Config where
  maxUser : Nat
  initialTime : UInt64
  regularTime : UInt64
  defaultContents : Int

/-- `ContentsServer`.  `issued` and `history` are what the callbacks have seen. -/
structure ContentsServer where
  sessionArray : Nat → Session
  indexArray : List Nat
  sessionCount : Int
  sessionKey : Nat
  queue : List Message
  threads : List (List Frame)
  /-- the sessions `OnAccept` was called for -/
  issued : List SessionID
  history : SessionID → List Event

namespace ContentsServer

/-! ## Operations -/

def modify (s : ContentsServer) (i : Nat) (write : Session → Session) : ContentsServer :=
  { s with sessionArray := Function.update s.sessionArray i (write (s.sessionArray i)) }

def record (s : ContentsServer) (id : SessionID) (event : Event) : ContentsServer :=
  { s with history := Function.update s.history id (s.history id ++ [event]) }

def increment (s : ContentsServer) (i : Nat) : ContentsServer :=
  s.modify i fun x => { x with ioCount := x.ioCount + 1 }

def decrement (s : ContentsServer) (i : Nat) : ContentsServer :=
  s.modify i fun x => { x with ioCount := x.ioCount - 1 }

/-- The word `_ioCount` is 0. -/
def isZero (s : ContentsServer) (i : Nat) : Bool :=
  !(s.sessionArray i).releaseFlag && (s.sessionArray i).ioCount == 0

def post (s : ContentsServer) (message : Message) : ContentsServer :=
  { s with queue := s.queue ++ [message] }

def setDFlag (s : ContentsServer) (i : Nat) (value : Bool) : ContentsServer :=
  s.modify i fun x => { x with dFlag := value }

def setSendFlag (s : ContentsServer) (i : Nat) (value : Bool) : ContentsServer :=
  s.modify i fun x => { x with sendFlag := value }

/-- `CancelIoEx` on the socket of the slot. -/
def cancelIoEx (s : ContentsServer) (i : Nat) : ContentsServer :=
  s.modify i fun x => { x with io := x.io.map fun io => { io with cancelled := true } }

/-- An I/O call that does not fail. -/
def postIo (s : ContentsServer) (i : Nat) (send : Bool) (buffers : List Tag) (pending : Bool) :
    ContentsServer :=
  s.modify i fun x => { x with io := ⟨send, buffers, pending, false⟩ :: x.io }

/-- `DecRefcnt` on a buffer taken off the queue. -/
def dropBuffer (s : ContentsServer) (i : Nat) (tag : Tag) : ContentsServer :=
  s.modify i fun x => { x with held := x.held.erase tag, dropped := tag :: x.dropped }

/-- `_sendQ._size` changes. -/
def addSize (s : ContentsServer) (i : Nat) (n : Int) : ContentsServer :=
  s.modify i fun x => { x with size := x.size + n }

/-- `Dequeue` unlinks a node. -/
def dequeued (s : ContentsServer) (i : Nat) (tag : Tag) (rest : List Tag) : ContentsServer :=
  s.modify i fun x => { x with sendQ := rest, held := tag :: x.held }

end ContentsServer

def CPACKET_BOX_MAX : Nat := 500

namespace ContentsServer

/-! ## Functions -/

/-- The three calls of the interface begin alike: increment `_ioCount` and look at the
flag in the result. -/
def enterCall (s : ContentsServer) (i : Nat) (next : Frame) : ContentsServer × List Frame :=
  (s.increment i, if (s.sessionArray i).releaseFlag then [.drop i false] else [next])

/-- `Disconnect`. -/
def disconnectStep (s : ContentsServer) (id : SessionID) :
    DisconnectPc → ContentsServer × List Frame
  | .inc => enterCall s (findSession id) (.disconnect id .check)
  | .check =>
      if (s.sessionArray (findSession id)).sessionID = id then (s, [.disconnect id .mark])
      else (s, [.drop (findSession id) false])
  | .mark => (s.setDFlag (findSession id) true, [.disconnect id .cancel])
  | .cancel => (s.cancelIoEx (findSession id), [.drop (findSession id) false])

/-- `SendPacket`; the buffer is prepared before it is shared. -/
def sendPacketStep (s : ContentsServer) (id : SessionID) (outcome : Outcome) :
    SendPacketPc → ContentsServer × List Frame
  | .inc => enterCall s (findSession id) (.sendPacket id .check)
  | .check =>
      if (s.sessionArray (findSession id)).sessionID = id then (s, [.sendPacket id .dFlag])
      else (s, [.drop (findSession id) false])
  | .dFlag =>
      if (s.sessionArray (findSession id)).dFlag then (s, [.drop (findSession id) false])
      else (s, [.sendPacket id .enqueue])
  | .enqueue =>
      if outcome = .failed then (s, [.disconnect id .inc, .drop (findSession id) false])
      else
        (s.modify (findSession id) fun x =>
          { x with sendQ := x.sendQ ++ [x.enqueued], enqueued := x.enqueued + 1 },
          [.sendPacket id .size])
  | .size => (s.addSize (findSession id) 1, [.sendPacket id .post])
  | .post => (s.post (.sendPost (findSession id)), [.drop (findSession id) false])

/-- `TryMoveSessionToContents`. -/
def tryMoveStep (s : ContentsServer) (id : SessionID) (contentsNum : Int) :
    TryMovePc → ContentsServer × List Frame
  | .inc => enterCall s (findSession id) (.tryMove id contentsNum .check)
  | .check =>
      if (s.sessionArray (findSession id)).sessionID = id then
        (s, [.tryMove id contentsNum .dFlag])
      else (s, [.drop (findSession id) false])
  | .dFlag =>
      if (s.sessionArray (findSession id)).dFlag then (s, [.drop (findSession id) false])
      else (s, [.tryMove id contentsNum .store])
  | .store =>
      (s.modify (findSession id) fun x => { x with contentsNum := contentsNum },
        [.drop (findSession id) false])

/-- The decrement, and what follows when it returns 0. -/
def dropStep (s : ContentsServer) (i : Nat) (direct : Bool) : ContentsServer × List Frame :=
  (s.decrement i, if (s.decrement i).isZero i then [.dead i direct] else [])

def deadStep (s : ContentsServer) (i : Nat) (direct : Bool) : ContentsServer × List Frame :=
  (s.setDFlag i true, if direct then [.release i .cas] else [.postRelease i])

/-- `WorkerThread` on a receive. -/
def recvStep (s : ContentsServer) (i : Nat) (now : UInt64) : RecvPc → ContentsServer × List Frame
  | .firstRecv => (s.modify i fun x => { x with firstRecv := true }, [.recv i .time])
  | .time => (s.modify i fun x => { x with time := now }, [.recv i .user])
  | .user => (s, [.recvPost i .dFlag])

/-- `RecvPost`, and the decrement for the receive that has completed. -/
def recvPostStep (s : ContentsServer) (i : Nat) (outcome : Outcome) :
    RecvPostPc → ContentsServer × List Frame
  | .dFlag => if (s.sessionArray i).dFlag then (s, [.drop i false]) else (s, [.recvPost i .inc])
  | .inc => (s.increment i, [.recvPost i .wsaRecv])
  | .wsaRecv =>
      match outcome with
      | .done => (s.postIo i false [] false, [.drop i false])
      | .pending => (s.postIo i false [] true, [.recvPost i .recheck])
      | .failed => (s, [.drop i false, .drop i false])
  | .recheck =>
      if (s.sessionArray i).dFlag then (s, [.recvPost i .cancel]) else (s, [.drop i false])
  | .cancel => (s.cancelIoEx i, [.drop i false])

/-- `WorkerThread` on a send: `SendCompletion`, the send flag, `SendPost`. -/
def sentStep (s : ContentsServer) (i : Nat) : SentPc → ContentsServer × List Frame
  | .drop k =>
      if k < (s.sessionArray i).count then
        (s.dropBuffer i ((s.sessionArray i).sBufferArray k), [.sent i (.drop (k + 1))])
      else (s, [.sent i .zero])
  | .zero => (s.modify i fun x => { x with count := 0 }, [.sent i .sendFlag])
  | .sendFlag => (s.setSendFlag i false, [.sendPost i .dFlag, .drop i false])

/-- `SendPost`. -/
def sendPostStep (s : ContentsServer) (i : Nat) (outcome : Outcome) :
    SendPostPc → ContentsServer × List Frame
  | .dFlag => if (s.sessionArray i).dFlag then (s, []) else (s, [.sendPost i .size])
  | .size => if 0 < (s.sessionArray i).size then (s, [.sendPost i .exchange]) else (s, [])
  | .exchange =>
      (s.setSendFlag i true, if (s.sessionArray i).sendFlag then [] else [.sendPost i .inc])
  | .inc =>
      (s.increment i,
        if (s.sessionArray i).releaseFlag then [.drop i true] else [.sendPost i (.dequeue 0)])
  | .dequeue k =>
      if k < CPACKET_BOX_MAX then
        (s.addSize i (-1),
          if (s.sessionArray i).size - 1 < 0 then [.sendPost i (.restore k)]
          else [.sendPost i (.take k)])
      else (s, [.sendPost i (.count k)])
  | .take k =>
      match (s.sessionArray i).sendQ with
      | [] => (s, [.sendPost i (.take k)])
      | tag :: rest =>
          ((s.dequeued i tag rest).modify i fun x =>
            { x with sBufferArray := Function.update x.sBufferArray k tag },
            [.sendPost i (.dequeue (k + 1))])
  | .restore k => (s.addSize i 1, [.sendPost i (.count k)])
  | .count k =>
      (s.modify i fun x => { x with count := k },
        if k = 0 then [.sendPost i .reset] else [.sendPost i (.wsaSend k)])
  | .reset => (s.setSendFlag i false, [.sendPost i .resize])
  | .resize =>
      if 0 < (s.sessionArray i).size then (s, [.sendPost i .dFlag, .drop i true])
      else (s, [.drop i true])
  | .wsaSend k =>
      let buffers := (List.range k).map (s.sessionArray i).sBufferArray
      match outcome with
      | .done => (s.postIo i true buffers false, [])
      | .pending => (s.postIo i true buffers true, [.sendPost i .recheck])
      | .failed => (s, [.drop i true])
  | .recheck => if (s.sessionArray i).dFlag then (s, [.sendPost i .cancel]) else (s, [])
  | .cancel => (s.cancelIoEx i, [])

/-- `Release`. -/
def releaseStep (s : ContentsServer) (i : Nat) : ReleasePc → ContentsServer × List Frame
  | .cas =>
      if s.isZero i then
        ((s.modify i fun x => { x with releaseFlag := true }).record
          (s.sessionArray i).sessionID .release, [.release i (.drop 0)])
      else (s, [])
  | .drop k =>
      if k < (s.sessionArray i).count then
        (s.dropBuffer i ((s.sessionArray i).sBufferArray k), [.release i (.drop (k + 1))])
      else (s, [.release i .zero])
  | .zero => (s.modify i fun x => { x with count := 0 }, [.release i .clear])
  | .clear =>
      (s.addSize i (-1),
        if (s.sessionArray i).size - 1 < 0 then [.release i .clearRestore]
        else [.release i .clearTake])
  | .clearTake =>
      match (s.sessionArray i).sendQ with
      | [] => (s, [.release i .clearTake])
      | tag :: rest => (s.dequeued i tag rest, [.release i (.clearDrop tag)])
  | .clearDrop tag => (s.dropBuffer i tag, [.release i .clear])
  | .clearRestore => (s.addSize i 1, [.release i .sessionCount])
  | .sessionCount => ({ s with sessionCount := s.sessionCount - 1 }, [.release i .leave])
  | .leave => (s, [.release i .onRelease])
  | .onRelease => (s.record (s.sessionArray i).sessionID .onRelease, [.release i .push])
  | .push =>
      ({ s with indexArray := findSession (s.sessionArray i).sessionID :: s.indexArray }.record
        (s.sessionArray i).sessionID .push, [])

/-- The first step of `AcceptThread` with a client. -/
def popStep (s : ContentsServer) : ContentsServer × List Frame :=
  match s.indexArray with
  | [] => (s, [])
  | i :: rest => ({ s with indexArray := rest }, [.accept i .sessionCount])

/-- `AcceptThread`. -/
def acceptStep (cfg : Config) (s : ContentsServer) (i : Nat) (now : UInt64) (outcome : Outcome) :
    AcceptPc → ContentsServer × List Frame
  | .sessionCount => ({ s with sessionCount := s.sessionCount + 1 }, [.accept i .clear])
  | .clear =>
      (s.addSize i (-1),
        if (s.sessionArray i).size - 1 < 0 then [.accept i .clearRestore]
        else [.accept i .clearTake])
  | .clearTake =>
      match (s.sessionArray i).sendQ with
      | [] => (s, [.accept i .clearTake])
      | tag :: rest => (s.dequeued i tag rest, [.accept i (.clearDrop tag)])
  | .clearDrop tag => (s.dropBuffer i tag, [.accept i .clear])
  | .clearRestore => (s.addSize i 1, [.accept i .sessionID])
  | .sessionID =>
      (s.modify i fun x => { x with sessionID := ⟨i, s.sessionKey⟩ }, [.accept i .time])
  | .time => (s.modify i fun x => { x with time := now }, [.accept i .firstRecv])
  | .firstRecv => (s.modify i fun x => { x with firstRecv := false }, [.accept i .sendFlag])
  | .sendFlag => (s.setSendFlag i false, [.accept i .inc])
  | .inc => (s.increment i, [.accept i .and])
  | .and =>
      (s.modify i fun x => { x with releaseFlag := false, armed := true }, [.accept i .contentsNum])
  | .contentsNum =>
      (s.modify i fun x => { x with contentsNum := cfg.defaultContents }, [.accept i .dFlag])
  | .dFlag => (s.setDFlag i false, [.accept i .sessionKey])
  | .sessionKey => ({ s with sessionKey := s.sessionKey + 1 }, [.accept i .onAccept])
  | .onAccept =>
      ({ s with issued := (s.sessionArray i).sessionID :: s.issued }.record
        (s.sessionArray i).sessionID .onAccept, [.accept i .enter])
  | .enter => (s, [.accept i .wsaRecv])
  | .wsaRecv =>
      match outcome with
      | .done => (s.postIo i false [] false, [])
      | .pending => (s.postIo i false [] true, [])
      | .failed => (s, [.drop i false])

/-- The test of a sweep: the time since the slot was accepted or has received. -/
def expired (cfg : Config) (s : ContentsServer) (regular : Bool) (now : UInt64) (i : Nat) : Bool :=
  now - (s.sessionArray i).time > (if regular then cfg.regularTime else cfg.initialTime) * 1000

/-- One slot of a sweep of `TimeOutThread`: of those that have not received yet, or of
those that have (`regular`). -/
def sweepStep (cfg : Config) (s : ContentsServer) (regular : Bool) (now : UInt64) (i : Nat) :
    SweepPc → ContentsServer × List Frame
  | .sessionID =>
      if i < cfg.maxUser then
        (s, [.sweep regular now i (.dFlag (s.sessionArray i).sessionID)])
      else (s, [])
  | .dFlag session =>
      if (s.sessionArray i).dFlag then (s, [.sweep regular now (i + 1) .sessionID])
      else (s, [.sweep regular now i (.firstRecv session)])
  | .firstRecv session =>
      if (s.sessionArray i).firstRecv = regular then (s, [.sweep regular now i (.time session)])
      else (s, [.sweep regular now (i + 1) .sessionID])
  | .time session =>
      if expired cfg s regular now i then
        (s, [.disconnect session .inc, .sweep regular now (i + 1) .sessionID])
      else (s, [.sweep regular now (i + 1) .sessionID])

/-- One step of a frame: the new state, and the frames that take its place. -/
def runFrame (cfg : Config) (s : ContentsServer) (now : UInt64) (outcome : Outcome) :
    Frame → ContentsServer × List Frame
  | .disconnect id pc => disconnectStep s id pc
  | .sendPacket id pc => sendPacketStep s id outcome pc
  | .tryMove id contentsNum pc => tryMoveStep s id contentsNum pc
  | .drop i direct => dropStep s i direct
  | .dead i direct => deadStep s i direct
  | .postRelease i => (s.post (.release i), [])
  | .recv i pc => recvStep s i now pc
  | .recvPost i pc => recvPostStep s i outcome pc
  | .sent i pc => sentStep s i pc
  | .sendPost i pc => sendPostStep s i outcome pc
  | .release i pc => releaseStep s i pc
  | .pop => popStep s
  | .accept i pc => acceptStep cfg s i now outcome pc
  | .sweep regular now i pc => sweepStep cfg s regular now i pc

end ContentsServer

open ContentsServer

/-! ## Steps -/

/-- The callbacks: code that may call the interface runs there. -/
def Frame.isCallback : Frame → Bool
  | .recv _ .user => true
  | .release _ .leave => true
  | .release _ .push => true
  | .accept _ .enter => true
  | _ => false

/-- A call of the interface. -/
inductive Call where
  | disconnect (id : SessionID)
  | sendPacket (id : SessionID)
  | tryMove (id : SessionID) (contentsNum : Int)

def Call.id : Call → SessionID
  | .disconnect id => id
  | .sendPacket id => id
  | .tryMove id _ => id

def Call.frame : Call → Frame
  | .disconnect id => .disconnect id .inc
  | .sendPacket id => .sendPacket id .inc
  | .tryMove id contentsNum => .tryMove id contentsNum .inc

/-- What happens next. -/
inductive Step where
  /-- the frame on top of a stack runs -/
  | run (t : Nat) (now : UInt64) (outcome : Outcome)
  /-- `accept` returns a client -/
  | accept
  /-- a worker takes a message -/
  | take (t : Nat) (n : Nat)
  /-- a worker takes the completion of an I/O -/
  | complete (t : Nat) (i : Nat) (n : Nat) (success : Bool)
  /-- code outside the library calls it with a session ID it was given -/
  | call (t : Nat) (call : Call)
  /-- `RecvCompletion` disconnects its own session -/
  | kick (t : Nat)
  /-- a sweep of `TimeOutThread` begins -/
  | sweep (regular : Bool) (now : UInt64)

/-- The frame a message starts. -/
def Message.frame : Message → Frame
  | .release i => .release i .cas
  | .sendPost i => .sendPost i .dFlag

/-- The frame a completion starts. -/
def completionFrame (i : Nat) (io : Io) (success : Bool) : Frame :=
  if success then (if io.send then .sent i (.drop 0) else .recv i .firstRecv) else .drop i false

/-- Put frames on a stack. -/
def ContentsServer.start (s : ContentsServer) (t : Nat) (stack : List Frame) : ContentsServer :=
  { s with threads := s.threads.set t stack }

/-- One step of the server; `none` where it is not enabled. -/
def serverStep (cfg : Config) (s : ContentsServer) : Step → Option ContentsServer
  | .run t now outcome =>
      match s.threads[t]? with
      | some (frame :: rest) =>
          let out := runFrame cfg s now outcome frame
          some (out.1.start t (out.2 ++ rest))
      | _ => none
  | .accept =>
      match s.threads[0]? with
      | some [] => some (s.start 0 [.pop])
      | _ => none
  | .take t n =>
      match s.threads[t]?, s.queue[n]? with
      | some [], some message =>
          if 2 ≤ t then some ({ s with queue := s.queue.eraseIdx n }.start t [message.frame])
          else none
      | _, _ => none
  | .complete t i n success =>
      match s.threads[t]?, (s.sessionArray i).io[n]? with
      | some [], some io =>
          if 2 ≤ t then
            some ((s.modify i fun x => { x with io := x.io.eraseIdx n }).start t
              [completionFrame i io success])
          else none
      | _, _ => none
  | .call t call =>
      if call.id ∈ s.issued then
        match s.threads[t]? with
        | some [] => if 2 ≤ t then some (s.start t [call.frame]) else none
        | some (frame :: rest) =>
            if frame.isCallback then some (s.start t (call.frame :: frame :: rest)) else none
        | none => none
      else none
  | .kick t =>
      match s.threads[t]? with
      | some (.recv i .user :: rest) =>
          some (s.start t
            (.disconnect (s.sessionArray i).sessionID .inc :: .recv i .user :: rest))
      | _ => none
  | .sweep regular now =>
      match s.threads[1]? with
      | some [] => some (s.start 1 [.sweep regular now 0 .sessionID])
      | _ => none

/-- A slot as `Setting` leaves it. -/
def emptySession : Session where
  sessionID := ⟨0, 0⟩
  releaseFlag := false
  ioCount := 0
  dFlag := false
  sendFlag := false
  firstRecv := false
  time := 0
  contentsNum := 0
  sendQ := []
  size := 0
  sBufferArray := fun _ => 0
  count := 0
  io := []
  armed := false
  enqueued := 0
  held := []
  dropped := []

/-- The server after `Setting`, with any number of threads. -/
def startedServer (cfg : Config) (others : Nat) : ContentsServer where
  sessionArray := fun _ => emptySession
  indexArray := List.range cfg.maxUser
  sessionCount := 0
  sessionKey := 1
  queue := []
  threads := List.replicate (2 + others) []
  issued := []
  history := fun _ => []

end SessionServer.ContentLib
