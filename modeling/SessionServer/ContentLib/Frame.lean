/-
  ContentLib/Frame.lean --- frames on the receive ring of a LAN session.

  `SetBufferHeader`, the segments of `RecvPost` and the three parsing loops of
  `RecvCompletion`, as a `LANSERVER` runs them.  A loop is one definition with the
  branch as its parameter: the branches differ in the size they give a frame and in
  what they do with its bytes.

  The loop runs on fuel; `recvLoop_stops` says that the bytes in the ring are fuel
  enough.  The `DebugBreak` guards compare the number of bytes copied with the number
  asked for, which `RingBuffer.Valid.peek_eq` and `dequeue_spec` settle.
-/
import SessionServer.Common.RingBuffer
import SessionServer.Foundation.Run

set_option autoImplicit false

namespace SessionServer.ContentLib

open SessionServer.Common SessionServer.Foundation

/-! ## The header -/

/-- `struct LanHEADER`. -/
structure LanHEADER where
  code : UInt8
  len : UInt8
  deriving DecidableEq

/-- `sizeof(LanHEADER)`. -/
def LanHEADER.size : Nat := 2

/-- The header that `Peek` copies out of the ring. -/
def LanHEADER.ofBytes (bytes : List UInt8) : LanHEADER where
  code := bytes.getD 0 0
  len := bytes.getD 1 0

/-- `SetBufferHeader` of a LAN server: the length byte is the payload size less one,
as a byte. -/
def setBufferHeader (payload : List UInt8) : List UInt8 :=
  0x89 :: (UInt8.ofNat payload.length - 1) :: payload

/-- The concatenation of the frames of the payloads. -/
def stream (payloads : List (List UInt8)) : List UInt8 :=
  payloads.flatMap setBufferHeader

/-! ## Receiving -/

/-- The memory `RecvPost` passes to `WSARecv`, as `(start, length)` pairs.  The test
for one segment is the source's own. -/
def recvSegments (rb : RingBuffer) : List (Int × Int) :=
  if rb.getUsedSize = rb.directEnqueueSize then
    [(rb.rear, rb.directEnqueueSize)]
  else
    [(rb.rear, rb.directEnqueueSize), (0, rb.getFreeSize - rb.directEnqueueSize)]

/-- The number of bytes `RecvPost` can receive. -/
def recvSpace (rb : RingBuffer) : Int :=
  ((recvSegments rb).map Prod.snd).sum

/-- The ring once the socket has filled in the bytes. -/
def deliver (rb : RingBuffer) (chunk : List UInt8) : RingBuffer :=
  { rb with buffer := scatter rb.buffer (recvSegments rb) chunk }

/-- The branches of `RecvCompletion`. -/
inductive RecvBranch where
  /-- `_contentsNum == 0` -/
  | noContents
  /-- `_contentsNum` names a registered contents -/
  | contents
  /-- `_contentsNum == -1` -/
  | moving
  deriving DecidableEq

/-- The bytes a branch takes for a frame with the given header. -/
def RecvBranch.frameSize : RecvBranch → LanHEADER → Nat
  | .noContents, header => header.len.toNat + LanHEADER.size
  | .contents, header => header.len.toNat + 1 + LanHEADER.size
  | .moving, header => header.len.toNat + LanHEADER.size

/-- What a branch does with a complete frame: hand its payload to a stub, or skip it. -/
def RecvBranch.consume (branch : RecvBranch) (rb : RingBuffer) (n : Nat) :
    RingBuffer × List (List UInt8) :=
  match branch with
  | .noContents => ((rb.dequeue n).1, [(rb.dequeue n).2.drop LanHEADER.size])
  | .contents => ((rb.dequeue n).1, [(rb.dequeue n).2.drop LanHEADER.size])
  | .moving => (rb.moveFront n, [])

/-- The `while (1)` of a branch, with the payloads handed to its stub. -/
def recvLoop (branch : RecvBranch) : Nat → RingBuffer → RingBuffer × List (List UInt8)
  | 0, rb => (rb, [])
  | fuel + 1, rb =>
      if rb.getUsedSize < LanHEADER.size then (rb, [])
      else
        let header := LanHEADER.ofBytes (rb.peek LanHEADER.size)
        if rb.getUsedSize < branch.frameSize header then (rb, [])
        else
          let consumed := branch.consume rb (branch.frameSize header)
          let rest := recvLoop branch fuel consumed.1
          (rest.1, consumed.2 ++ rest.2)

/-- The loop with the bytes in the ring as fuel. -/
def recvAll (branch : RecvBranch) (rb : RingBuffer) : RingBuffer × List (List UInt8) :=
  recvLoop branch rb.getUsedSize.toNat rb

/-- The contents number of a session on its way between two contents. -/
def CONMOV : Int := -1

/-- `RecvCompletion`; a number without a contents leaves the ring as it is. -/
def recvCompletion (registered : Int → Bool) (contentsNum : Int) (cbTransferred : Nat)
    (recvQ : RingBuffer) : RingBuffer × List (List UInt8) :=
  let recvQ := recvQ.moveRear cbTransferred
  if contentsNum = 0 then recvAll .noContents recvQ
  else if contentsNum ≠ CONMOV then
    if registered contentsNum then recvAll .contents recvQ else (recvQ, [])
  else recvAll .moving recvQ

/-! ## A session -/

/-- A session that receives: its ring, the bytes of the stream still to arrive and
the payloads handed to the stubs so far. -/
structure Receiver where
  recvQ : RingBuffer
  incoming : List UInt8
  handed : List (List UInt8)

/-- One completion: how many bytes it brings, and the `_contentsNum` it finds. -/
structure RecvCall where
  cbTransferred : Nat
  contentsNum : Int
  deriving DecidableEq

/-- A completion brings bytes of the stream, no more than `RecvPost` had space for, to
a session without contents, between contents or in a registered one. -/
def recvStep (registered : Int → Bool) (r : Receiver) (call : RecvCall) : Option Receiver :=
  if call.cbTransferred ≤ r.incoming.length ∧ (call.cbTransferred : Int) ≤ recvSpace r.recvQ ∧
      (call.contentsNum = 0 ∨ call.contentsNum = CONMOV ∨ registered call.contentsNum) then
    let chunk := r.incoming.take call.cbTransferred
    let after := recvCompletion registered call.contentsNum call.cbTransferred
      (deliver r.recvQ chunk)
    some ⟨after.1, r.incoming.drop call.cbTransferred, r.handed ++ after.2⟩
  else
    none

/-- A session just accepted, with the stream its peer is going to send. -/
def Receiver.accepted (memory : Int → UInt8) (payloads : List (List UInt8)) : Receiver :=
  ⟨(RingBuffer.new memory).clearBuffer, stream payloads, []⟩

/-- The bytes left in the ring begin at a frame boundary: with what is still to
arrive they are the frames of the last payloads. -/
def AtBoundary (payloads : List (List UInt8)) (r : Receiver) : Prop :=
  ∃ left ∈ payloads.tails, r.recvQ.content ++ r.incoming = stream left

instance (payloads : List (List UInt8)) (r : Receiver) : Decidable (AtBoundary payloads r) :=
  inferInstanceAs (Decidable (∃ left ∈ payloads.tails, _))

/-- Fewer bytes than a header and the length it declares. -/
def Incomplete (bytes : List UInt8) : Prop :=
  bytes.length < LanHEADER.size ∨
    bytes.length < (LanHEADER.ofBytes bytes).len.toNat + LanHEADER.size

instance (bytes : List UInt8) : Decidable (Incomplete bytes) :=
  inferInstanceAs (Decidable (_ ∨ _))

/-- A completion that finds the session outside a contents finds no more than an
incomplete frame. -/
def IdleOutside (r : Receiver) (call : RecvCall) : Prop :=
  call.contentsNum = 0 ∨ call.contentsNum = CONMOV →
    Incomplete (r.recvQ.content ++ r.incoming.take call.cbTransferred)

instance (r : Receiver) (call : RecvCall) : Decidable (IdleOutside r call) :=
  inferInstanceAs (Decidable (_ → _))

end SessionServer.ContentLib
