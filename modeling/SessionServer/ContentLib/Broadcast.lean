/-
  ContentLib/Broadcast.lean --- one packet, sent to many sessions at the same time.

  Every `SendPacket` of a packet works on the one `SBuffer` behind it.  The first one writes
  the header and encodes the payload in place, behind a flag that is read twice and a lock;
  the entries of the queues hold the buffer, not a copy, and `SendPost` reads position and
  size when it comes to them.  A step is one access to what the threads share.
-/
import SessionServer.ContentLib.LanFrame
import SessionServer.Foundation.Run

set_option autoImplicit false

namespace SessionServer.ContentLib

open SessionServer.Foundation

/-! ## Framing -/

/-- `_type`. -/
inductive ServerType where
  | lanServer
  | netServer
  deriving DecidableEq

/-- The fields of a server that `SetBufferHeader` and `Encode` read. -/
structure WireConfig where
  type : ServerType
  code : UInt8
  fixedKey : UInt8

/-- The local `header` of `SetBufferHeader`. -/
inductive Header where
  | lan (header : LanHEADER)
  | net (header : NetHEADER)

namespace Header

/-- The header for a buffer; `rand` is the answer of `rand()`. -/
def make (cfg : WireConfig) (rand : Nat) (msg : SBuffer) : Header :=
  match cfg.type with
  | .lanServer => lan { code := 0x89, len := UInt8.ofNat msg.dataSize - 1 }
  | .netServer =>
      let len := UInt16.ofNat msg.dataSize
      net { code := cfg.code, len := len, randKey := UInt8.ofNat rand,
            checksum := msg.checksum len.toNat }

/-- Where it is written. -/
def start : Header → Nat
  | lan _ => 3
  | net _ => 0

/-- `sizeof(header)`. -/
def size : Header → Nat
  | lan _ => 2
  | net _ => 5

/-- `*temp = header`. -/
def store (msg : SBuffer) : Header → SBuffer
  | lan header =>
      { msg with
          buffer := (msg.buffer.setIfInBounds 3 header.code.toInt8).setIfInBounds 4
            header.len.toInt8 }
  | net header => msg.writeHeader header

end Header

/-- A sender that frames the packet. -/
inductive FramePc where
  /-- `msgbuf->read = ...` -/
  | read (header : Header)
  /-- `msgbuf->DataSize += ...` -/
  | size (header : Header)
  | store (header : Header)
  /-- round `i` of `Encode`, with `(P1, E1)` -/
  | encode (len : Nat) (randkey : UInt8) (i : Nat) (state : Int8 × Int8)
  /-- `InterlockedExchange8(&eFlag, 1)` -/
  | exchange

/-- One access to the buffer.  Behind its end there is no round. -/
def FramePc.next (cfg : WireConfig) (msg : SBuffer) : FramePc → SBuffer × FramePc
  | .read header => ({ msg with read := header.start }, .size header)
  | .size header => ({ msg with dataSize := msg.dataSize + header.size }, .store header)
  | .store header =>
      let msg := header.store msg
      (msg, if cfg.type = .netServer then .encode msg.len.toNat msg.randKey 0 (0, 0)
        else .exchange)
  | .encode len randkey i state =>
      if i < len + 1 then
        match msg.buffer[4 + i]? with
        | none => (msg, .exchange)
        | some D =>
            let round := encodeRound cfg.fixedKey randkey (4 + i) state D
            ({ msg with buffer := msg.buffer.setIfInBounds (4 + i) round.1 },
              .encode len randkey (i + 1) round.2)
      else (msg, .exchange)
  | .exchange => (msg, .exchange)

/-- The buffer once it has been framed. -/
def framed (cfg : WireConfig) (rand : Nat) (msg : SBuffer) : SBuffer :=
  match cfg.type with
  | .lanServer => ContentsServer.setLanHeader msg
  | .netServer =>
      ContentsServer.encode cfg.fixedKey (ContentsServer.setBufferHeader cfg.code rand msg)

/-! ## Senders and receivers of the buffer -/

/-- A call of `SendPacket`.  What it does before `addRef` and after `leave` is not about the
packet. -/
inductive SendPc where
  | find
  | addRef
  | check
  | acquire
  | recheck
  | header
  | framing (pc : FramePc)
  | release
  | addQueue
  | enqueue
  | decQueue
  | decRef
  /-- the destructor of the parameter -/
  | leave
  | done

/-- The references a call has taken. -/
def SendPc.refs : SendPc → Nat
  | find => 1
  | addRef => 1
  | check => 2
  | acquire => 2
  | recheck => 2
  | header => 2
  | framing _ => 2
  | release => 2
  | addQueue => 2
  | enqueue => 3
  | decQueue => 3
  | decRef => 2
  | leave => 1
  | done => 0

/-- An entry of a `_sendQ`, on its way through `SendPost`. -/
inductive Entry where
  | queued
  | taken
  /-- `wsabuf.buf` has been read -/
  | pointed (buf : Nat)
  /-- both have been read: the socket sends from the buffer -/
  | posted (buf len : Nat)
  /-- `DecRefcnt` of `SendCompletion` or `Release` -/
  | dropped

namespace Entry

/-- The reference an entry holds. -/
def refs : Entry → Nat
  | dropped => 0
  | _ => 1

/-- The bytes an entry stands for. -/
def bytes (msg : SBuffer) : Entry → List UInt8
  | queued => msg.wire
  | taken => msg.wire
  | pointed buf => { msg with read := buf }.wire
  | posted buf len => { msg with read := buf, dataSize := len }.wire
  | dropped => []

end Entry

/-- The buffer of the packet, with its lock and who holds it.  `headers` and `encodings`
record what has been done to it: the answers of `rand()` the headers were made with, and how
often `Encode` was entered. -/
structure Msgbuf where
  msg : SBuffer
  eFlag : Bool
  eKey : Option Nat
  headers : List Nat
  encodings : Nat

structure Broadcast where
  buf : Msgbuf
  refcnt : Int
  /-- `BufPool` has the buffer back -/
  freed : Bool
  /-- the `CPacket`s outside the calls -/
  handles : Nat
  calls : List SendPc
  entries : List Entry

namespace Broadcast

def goto (s : Broadcast) (i : Nat) (pc : SendPc) : Broadcast :=
  { s with calls := s.calls.set i pc }

def addRefcnt (s : Broadcast) : Broadcast := { s with refcnt := s.refcnt + 1 }

def decRefcnt (s : Broadcast) : Broadcast :=
  { s with refcnt := s.refcnt - 1, freed := s.freed || decide (s.refcnt - 1 = 0) }

end Broadcast

/-- What the environment answers a call: whether the session is there, what `rand()` gives,
whether the queue takes the packet. -/
structure SendAnswer where
  found : Bool
  rand : Nat
  enqueued : Bool

/-- One step of the call `i`. -/
def sendStep (cfg : WireConfig) (s : Broadcast) (i : Nat) (answer : SendAnswer) :
    SendPc → Option Broadcast
  | .find => some (s.goto i (if answer.found then .addRef else .leave))
  | .addRef => some (s.addRefcnt.goto i .check)
  | .check => some (s.goto i (if s.buf.eFlag then .addQueue else .acquire))
  | .acquire =>
      if s.buf.eKey = none then
        some ({ s with buf := { s.buf with eKey := some i } }.goto i .recheck)
      else none
  | .recheck => some (s.goto i (if s.buf.eFlag then .release else .header))
  | .header =>
      some ({ s with buf := { s.buf with headers := s.buf.headers ++ [answer.rand] } }.goto i
        (.framing (.read (Header.make cfg answer.rand s.buf.msg))))
  | .framing .exchange =>
      some ({ s with buf := { s.buf with eFlag := true } }.goto i .release)
  | .framing (.store header) =>
      let next := FramePc.next cfg s.buf.msg (.store header)
      let encodings := if cfg.type = .netServer then s.buf.encodings + 1 else s.buf.encodings
      some ({ s with buf := { s.buf with msg := next.1, encodings := encodings } }.goto i
        (.framing next.2))
  | .framing pc =>
      let next := FramePc.next cfg s.buf.msg pc
      some ({ s with buf := { s.buf with msg := next.1 } }.goto i (.framing next.2))
  | .release => some ({ s with buf := { s.buf with eKey := none } }.goto i .addQueue)
  | .addQueue => some (s.addRefcnt.goto i .enqueue)
  | .enqueue =>
      if answer.enqueued then
        some ({ s with entries := s.entries ++ [Entry.queued] }.goto i .decRef)
      else some (s.goto i .decQueue)
  | .decQueue => some (s.decRefcnt.goto i .decRef)
  | .decRef => some (s.decRefcnt.goto i .leave)
  | .leave => some (s.decRefcnt.goto i .done)
  | .done => none

/-- One step of `SendPost` on an entry. -/
def Entry.post (msg : SBuffer) : Entry → Option Entry
  | queued => some taken
  | taken => some (pointed msg.read)
  | pointed buf => some (posted buf msg.dataSize)
  | posted _ _ => none
  | dropped => none

/-- Who moves. -/
inductive BroadcastLabel where
  /-- a `CPacket` is copied -/
  | copy
  /-- a `CPacket` is destroyed -/
  | destroy
  /-- `SendPacket` is called -/
  | call
  | sender (i : Nat) (answer : SendAnswer)
  | sendPost (j : Nat)
  | drop (j : Nat)
  /-- the pool hands the buffer out again -/
  | reuse (msg : SBuffer) (eFlag : Bool) (refcnt : Int)

def Broadcast.step (cfg : WireConfig) (s : Broadcast) : BroadcastLabel → Option Broadcast
  | .copy => if 0 < s.handles then some { s.addRefcnt with handles := s.handles + 1 } else none
  | .destroy =>
      if 0 < s.handles then some { s.decRefcnt with handles := s.handles - 1 } else none
  | .call =>
      if 0 < s.handles then some { s.addRefcnt with calls := s.calls ++ [.find] } else none
  | .sender i answer => s.calls[i]?.bind fun pc => sendStep cfg s i answer pc
  | .sendPost j =>
      (s.entries[j]?.bind (Entry.post s.buf.msg)).map fun entry =>
        { s with entries := s.entries.set j entry }
  | .drop j =>
      match s.entries[j]? with
      | none => none
      | some .dropped => none
      | some _ => some { s.decRefcnt with entries := s.entries.set j .dropped }
  | .reuse msg eFlag refcnt =>
      if s.freed then
        some { s with buf := { s.buf with msg := msg, eFlag := eFlag }, refcnt := refcnt }
      else none

/-- A packet that has not been sent yet, in the hands of its maker. -/
def Broadcast.start (msg : SBuffer) : Broadcast where
  buf := { msg := msg, eFlag := false, eKey := none, headers := [], encodings := 0 }
  refcnt := 1
  freed := false
  handles := 1
  calls := []
  entries := []

end SessionServer.ContentLib
