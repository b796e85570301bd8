/-
  MonitorClient/CoreClient.lean --- what the monitor client sends.

  `SendPacket` puts the bytes of a packet into the ring `SendQ`, and `DoSend` posts the part
  of the ring that lies in one piece.  The flag `sendflag` is taken by the thread that posts
  and given back by the worker once the send has completed, so that the threads that send
  and the worker may run at any time.

  The socket reads the posted bytes where they lie, at any time until the completion, and
  may complete a send with a part of them.
-/
import SessionServer.Common.RingQueue
import SessionServer.ContentLib.LanFrame

set_option autoImplicit false

namespace SessionServer.Common

/-- The bytes from the front on that lie in one piece; the ring is not empty where it is
called. -/
def RingBuffer.directDequeueSize (rb : RingBuffer) : Int :=
  if rb.front < rb.rear then rb.rear - rb.front else rb.size - rb.front

end SessionServer.Common

namespace SessionServer.MonitorClient

open SessionServer.Common SessionServer.ContentLib

def LANCLIENT : UInt8 := 2
def NETCLIENT : UInt8 := 5

/-! ## Frames -/

/-- `_type`, `_code` and `_fixedKey`. -/
structure Config where
  type : UInt8
  code : UInt8
  fixedKey : UInt8

/-- `SetBufferHeader` of a LAN client: two bytes of length at position 3. -/
def setLanHeader (msg : ContentLib.SBuffer) : ContentLib.SBuffer :=
  let len := UInt16.ofNat msg.dataSize
  { buffer := (msg.buffer.setIfInBounds 3 (UInt8.ofNat len.toNat).toInt8).setIfInBounds 4
      (UInt8.ofNat (len.toNat / 256)).toInt8
    read := 3
    dataSize := msg.dataSize + 2 }

/-- `SetBufferHeader` and, for a NET client, `Encode`; `rand` is the answer of `rand()`. -/
def prepare (cfg : Config) (rand : Nat) (msg : ContentLib.SBuffer) : ContentLib.SBuffer :=
  let msg := if cfg.type = LANCLIENT then setLanHeader msg else msg
  if cfg.type = NETCLIENT then
    CoreClient.encode cfg.fixedKey (CoreClient.setBufferHeader cfg.code rand msg)
  else msg

/-- The bytes `SendPacket` passes to `Enqueue`: a packet that has been prepared before is
taken as it is. -/
def frame (cfg : Config) (rand : Nat) (packet : Common.SBuffer) : List UInt8 :=
  let msg := SBuffer.ofPacket packet
  (if packet.eFlag = false then prepare cfg rand msg else msg).wire

/-! ## The client -/

/-- A `WSASend` that has not completed: where the buffer starts in the ring, its length, and
the bytes the socket has taken. -/
structure Post where
  start : Int
  len : Int
  taken : Nat

/-- The sending side of a client, with the frames that have been enqueued and the bytes the
socket has taken. -/
structure Client where
  sendQ : RingBuffer
  sendflag : Bool
  /-- threads in `DoSend`, before the exchange of `sendflag` -/
  starting : Nat
  /-- threads in `DoSend` that have taken `sendflag` -/
  holding : Nat
  /-- sends posted and not completed -/
  posts : List Post
  /-- workers after `SendCompletion`, before `sendflag` is cleared -/
  completing : Nat
  enqueued : List (List UInt8)
  wire : List UInt8

/-- A connected client. -/
def Client.start (memory : Int → UInt8) : Client where
  sendQ := RingBuffer.new memory
  sendflag := false
  starting := 0
  holding := 0
  posts := []
  completing := 0
  enqueued := []
  wire := []

inductive SendStep where
  /-- `SendPacket` up to its call of `DoSend` -/
  | sendPacket (rand : Nat) (packet : Common.SBuffer)
  /-- a call of `DoSend`, and its first look at the ring -/
  | doSend
  /-- the exchange of `sendflag` -/
  | exchange
  /-- the rest of `DoSend`, with the answer of `WSASend` -/
  | post (ok : Bool)
  /-- the socket takes bytes of a post -/
  | transfer (i n : Nat)
  /-- `SendCompletion` with the bytes the socket has taken -/
  | sendCompletion (i : Nat)
  /-- the worker clears `sendflag` -/
  | clear

namespace Client

/-- `SendPacket`: the frame is enqueued as a whole, or not at all. -/
def sendPacket (cfg : Config) (c : Client) (rand : Nat) (packet : Common.SBuffer) : Client :=
  let bytes := frame cfg rand packet
  let out := c.sendQ.enqueue bytes
  { c with
      sendQ := out.1
      enqueued := if out.2 = bytes.length then c.enqueued ++ [bytes] else c.enqueued }

/-- `DoSend` with `sendflag` taken.  Without bytes in the ring the flag is given back; the
call of `DoSend` that may follow is a step of its own.  A `WSASend` that fails leaves the
flag set on a closed socket. -/
def postSend (c : Client) (ok : Bool) : Client :=
  let c := { c with holding := c.holding - 1 }
  if c.sendQ.getUsedSize = 0 then
    { c with sendflag := false }
  else if ok then
    { c with posts := c.posts ++ [⟨c.sendQ.front, c.sendQ.directDequeueSize, 0⟩] }
  else c

/-- The bytes a post still has to give, at most `n`, as they lie in the ring now. -/
def transfer (c : Client) (i n : Nat) (post : Post) : Client :=
  { c with
      posts := c.posts.set i { post with taken := post.taken + n }
      wire := c.wire ++ readBytes c.sendQ.buffer (post.start + post.taken) n }

/-- `SendCompletion` with `cbTransferred`. -/
def sendCompletion (c : Client) (i cbTransferred : Nat) : Client :=
  { c with
      sendQ := c.sendQ.moveFront cbTransferred
      posts := c.posts.eraseIdx i
      completing := c.completing + 1 }

end Client

def clientStep (cfg : Config) (c : Client) : SendStep → Option Client
  | .sendPacket rand packet => some (c.sendPacket cfg rand packet)
  | .doSend => some (if c.sendQ.getUsedSize > 0 then { c with starting := c.starting + 1 } else c)
  | .exchange =>
      if c.starting = 0 then none
      else if c.sendflag then some { c with starting := c.starting - 1 }
      else some { c with
        starting := c.starting - 1, sendflag := true, holding := c.holding + 1 }
  | .post ok => if c.holding = 0 then none else some (c.postSend ok)
  | .transfer i n =>
      match c.posts[i]? with
      | none => none
      | some post => if post.taken + n ≤ post.len then some (c.transfer i n post) else none
  | .sendCompletion i =>
      match c.posts[i]? with
      | none => none
      | some post => if post.taken = 0 then none else some (c.sendCompletion i post.taken)
  | .clear =>
      if c.completing = 0 then none
      else some { c with sendflag := false, completing := c.completing - 1 }

end SessionServer.MonitorClient
