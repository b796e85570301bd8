/-
  ContentLib/Codec.lean --- the encrypted packets of the NET types.

  `SetBufferHeader`, `Encode` and `Decode` of `ContentsServer` (type NETSERVER) and of
  `CoreClient` (type NETCLIENT), two copies of one text, and the checks of their receivers
  on a packet that has arrived whole.  A `char` is an `Int8`; it is promoted to `int` in
  arithmetic and cut back to a byte where it is stored.
-/
import SessionServer.Foundation.Scan

set_option autoImplicit false

namespace SessionServer.ContentLib

open SessionServer.Foundation

/-! ## Buffers -/

def BUFFER_DEFAULT : Nat := 300

/-- The fields of `SBuffer` the codec uses. -/
structure SBuffer where
  buffer : Vector Int8 BUFFER_DEFAULT
  read : Nat
  dataSize : Nat

/-- `struct NetHEADER`, packed to five bytes. -/
structure NetHEADER where
  code : UInt8
  len : UInt16
  randKey : UInt8
  checksum : UInt8

namespace SBuffer

def byte (msg : SBuffer) (i : Nat) : Int8 := msg.buffer[i]?.getD 0

/-- `*(short*)&buffer[1]`. -/
def len (msg : SBuffer) : UInt16 :=
  UInt16.ofNat ((msg.byte 1).toUInt8.toNat + 256 * (msg.byte 2).toUInt8.toNat)

/-- `*(char*)&buffer[3]`. -/
def randKey (msg : SBuffer) : UInt8 := (msg.byte 3).toUInt8

/-- The sum of `len` bytes from position 5 on, in an `unsigned char`. -/
def checksum (msg : SBuffer) (len : Nat) : UInt8 :=
  (List.range len).foldl (fun sum i => sum + (msg.byte (5 + i)).toUInt8) 0

/-- A header written at position 0. -/
def writeHeader (msg : SBuffer) (header : NetHEADER) : SBuffer :=
  { msg with
      buffer := ((((msg.buffer.setIfInBounds 0 header.code.toInt8).setIfInBounds 1
        (UInt8.ofNat header.len.toNat).toInt8).setIfInBounds 2
        (UInt8.ofNat (header.len.toNat / 256)).toInt8).setIfInBounds 3
        header.randKey.toInt8).setIfInBounds 4 header.checksum.toInt8 }

end SBuffer

/-! ## The codec -/

/-- `c ^ (state + key + i + 1)`, stored in a `char`. -/
def mix (c state : Int8) (key : UInt8) (i : Nat) : Int8 :=
  (c.toInt32 ^^^ (state.toInt32 + Int32.ofNat key.toNat + Int32.ofNat i + 1)).toInt8

/-- The loop body of `Encode` at the cell `4 + i`, with the state `(P1, E1)`. -/
def encodeRound (fixedKey randkey : UInt8) (cell : Nat) (state : Int8 × Int8) (D : Int8) :
    Int8 × (Int8 × Int8) :=
  let P2 := mix D state.1 randkey (cell - 4)
  let E2 := mix P2 state.2 fixedKey (cell - 4)
  (E2, (P2, E2))

/-- The loop body of `Decode` at the cell `4 + i`, with the state `(P1, E1)`. -/
def decodeRound (fixedKey randkey : UInt8) (cell : Nat) (state : Int8 × Int8) (E2 : Int8) :
    Int8 × (Int8 × Int8) :=
  let P2 := mix E2 state.2 fixedKey (cell - 4)
  (mix P2 state.1 randkey (cell - 4), (P2, E2))

/-- The common body of `Encode`. -/
def encodeNet (fixedKey : UInt8) (msg : SBuffer) : SBuffer :=
  { msg with
      buffer :=
        scan (encodeRound fixedKey msg.randKey) (msg.len.toNat + 1) 4 (0, 0) msg.buffer }

/-- The common body of `Decode`: the message after the loop, and the answer. -/
def decodeNet (fixedKey : UInt8) (msg : SBuffer) : SBuffer × Bool :=
  let decoded : SBuffer := { msg with
    buffer := scan (decodeRound fixedKey msg.randKey) (msg.len.toNat + 1) 4 (0, 0) msg.buffer }
  (decoded, (decoded.byte 4).toUInt8 == decoded.checksum msg.len.toNat)

/-- The common body of `SetBufferHeader`; `rand` is the answer of `rand()`. -/
def setNetHeader (code : UInt8) (rand : Nat) (msg : SBuffer) : SBuffer :=
  let len := UInt16.ofNat msg.dataSize
  let header : NetHEADER :=
    { code := code, len := len, randKey := UInt8.ofNat rand, checksum := msg.checksum len.toNat }
  { msg.writeHeader header with read := 0, dataSize := msg.dataSize + 5 }

/-! ## The two copies -/

namespace ContentsServer

def setBufferHeader (code : UInt8) (rand : Nat) (msg : SBuffer) : SBuffer :=
  setNetHeader code rand msg

def encode (fixedKey : UInt8) (msg : SBuffer) : SBuffer := encodeNet fixedKey msg

def decode (fixedKey : UInt8) (msg : SBuffer) : SBuffer × Bool := decodeNet fixedKey msg

/-- What `RecvCompletion` hands on of a packet: `none` where it disconnects. -/
def received (code fixedKey : UInt8) (msg : SBuffer) : Option SBuffer :=
  if msg.len.toNat + 5 ≥ BUFFER_DEFAULT then none
  else if (msg.byte 0).toUInt8 ≠ code then none
  else if (decode fixedKey msg).2 then some (decode fixedKey msg).1 else none

end ContentsServer

namespace CoreClient

def setBufferHeader (code : UInt8) (rand : Nat) (msg : SBuffer) : SBuffer :=
  setNetHeader code rand msg

def encode (fixedKey : UInt8) (msg : SBuffer) : SBuffer := encodeNet fixedKey msg

def decode (fixedKey : UInt8) (msg : SBuffer) : SBuffer × Bool := decodeNet fixedKey msg

/-- What `RecvCompletion` hands on of a packet; the client does not check the length. -/
def received (code fixedKey : UInt8) (msg : SBuffer) : Option SBuffer :=
  if (msg.byte 0).toUInt8 ≠ code then none
  else if (decode fixedKey msg).2 then some (decode fixedKey msg).1 else none

end CoreClient

/-- An end of a connection. -/
inductive NetEnd where
  | server
  | client
  deriving DecidableEq

namespace NetEnd

def setBufferHeader : NetEnd → UInt8 → Nat → SBuffer → SBuffer
  | .server => ContentsServer.setBufferHeader
  | .client => CoreClient.setBufferHeader

def encode : NetEnd → UInt8 → SBuffer → SBuffer
  | .server => ContentsServer.encode
  | .client => CoreClient.encode

def decode : NetEnd → UInt8 → SBuffer → SBuffer × Bool
  | .server => ContentsServer.decode
  | .client => CoreClient.decode

def received : NetEnd → UInt8 → UInt8 → SBuffer → Option SBuffer
  | .server => ContentsServer.received
  | .client => CoreClient.received

end NetEnd

/-! ## Rounds -/

/-- Only the low byte of the key counts, and mixing twice takes it back. -/
theorem mix_mix (c state : Int8) (key : UInt8) (i : Nat) :
    mix (mix c state key i) state key i = c := by
  have hbyte : ∀ d : Int8, mix d state key i =
      d ^^^ (state.toInt32 + Int32.ofNat key.toNat + Int32.ofNat i + 1).toInt8 := by
    intro d
    rw [mix, Int32.toInt8_xor, Int8.toInt8_toInt32]
  rw [hbyte, hbyte, Int8.xor_assoc, Int8.xor_self, Int8.xor_zero]

theorem decodeRound_encodeRound (fixedKey randkey : UInt8) (cell : Nat) (state : Int8 × Int8)
    (D : Int8) :
    decodeRound fixedKey randkey cell state (encodeRound fixedKey randkey cell state D).1 =
      (D, (encodeRound fixedKey randkey cell state D).2) := by
  simp only [decodeRound, encodeRound, mix_mix]

theorem encodeRound_decodeRound (fixedKey randkey : UInt8) (cell : Nat) (state : Int8 × Int8)
    (E2 : Int8) :
    encodeRound fixedKey randkey cell state (decodeRound fixedKey randkey cell state E2).1 =
      (E2, (decodeRound fixedKey randkey cell state E2).2) := by
  simp only [decodeRound, encodeRound, mix_mix]

/-! ## Whole messages -/

theorem encodeNet_byte {fixedKey : UInt8} {msg : SBuffer} {j : Nat}
    (h : j < 4 ∨ 4 + msg.len.toNat < j) : (encodeNet fixedKey msg).byte j = msg.byte j := by
  simp only [SBuffer.byte, encodeNet]
  rw [scan_getElem?_of_outside (by omega)]

theorem decodeNet_byte {fixedKey : UInt8} {msg : SBuffer} {j : Nat}
    (h : j < 4 ∨ 4 + msg.len.toNat < j) : (decodeNet fixedKey msg).1.byte j = msg.byte j := by
  simp only [SBuffer.byte, decodeNet]
  rw [scan_getElem?_of_outside (by omega)]

theorem encodeNet_len (fixedKey : UInt8) (msg : SBuffer) :
    (encodeNet fixedKey msg).len = msg.len := by
  rw [SBuffer.len, encodeNet_byte (by omega), encodeNet_byte (by omega), SBuffer.len]

theorem decodeNet_len (fixedKey : UInt8) (msg : SBuffer) :
    (decodeNet fixedKey msg).1.len = msg.len := by
  rw [SBuffer.len, decodeNet_byte (by omega), decodeNet_byte (by omega), SBuffer.len]

theorem encodeNet_randKey (fixedKey : UInt8) (msg : SBuffer) :
    (encodeNet fixedKey msg).randKey = msg.randKey := by
  rw [SBuffer.randKey, encodeNet_byte (by omega), SBuffer.randKey]

theorem decodeNet_randKey (fixedKey : UInt8) (msg : SBuffer) :
    (decodeNet fixedKey msg).1.randKey = msg.randKey := by
  rw [SBuffer.randKey, decodeNet_byte (by omega), SBuffer.randKey]

/-- **`Decode` takes back `Encode`.** -/
theorem decodeNet_encodeNet (fixedKey : UInt8) (msg : SBuffer) :
    (decodeNet fixedKey (encodeNet fixedKey msg)).1 = msg := by
  rw [decodeNet, encodeNet_len, encodeNet_randKey]
  simp only [encodeNet]
  rw [scan_scan (decodeRound_encodeRound fixedKey msg.randKey)]

/-- **`Encode` takes back `Decode`.** -/
theorem encodeNet_decodeNet (fixedKey : UInt8) (msg : SBuffer) :
    encodeNet fixedKey (decodeNet fixedKey msg).1 = msg := by
  rw [encodeNet, decodeNet_len, decodeNet_randKey]
  simp only [decodeNet]
  rw [scan_scan (encodeRound_decodeRound fixedKey msg.randKey)]

/-! ## The checksum -/

theorem checksum_toNat (msg : SBuffer) (len : Nat) :
    (msg.checksum len).toNat =
      (∑ i ∈ Finset.range len, (msg.byte (5 + i)).toUInt8.toNat) % 256 := by
  induction len with
  | zero => rfl
  | succ len ih =>
      have hlast : msg.checksum (len + 1) =
          msg.checksum len + (msg.byte (5 + len)).toUInt8 := by
        simp only [SBuffer.checksum, List.range_succ, List.foldl_append, List.foldl_cons,
          List.foldl_nil]
      rw [hlast, UInt8.toNat_add, ih, Finset.sum_range_succ]
      omega

/-- The answer of `Decode`. -/
theorem decodeNet_snd_iff (fixedKey : UInt8) (msg : SBuffer) :
    (decodeNet fixedKey msg).2 = true ↔
      ((decodeNet fixedKey msg).1.byte 4).toUInt8.toNat =
        (∑ i ∈ Finset.range msg.len.toNat,
          ((decodeNet fixedKey msg).1.byte (5 + i)).toUInt8.toNat) % 256 := by
  rw [← checksum_toNat, UInt8.toNat_inj]
  exact beq_iff_eq

/-! ## Fresh packets -/

section

variable (code : UInt8) (rand : Nat) (msg : SBuffer)

theorem setNetHeader_byte {i : Nat} (h : 5 ≤ i) :
    (setNetHeader code rand msg).byte i = msg.byte i := by
  simp only [SBuffer.byte, setNetHeader, SBuffer.writeHeader]
  rw [Vector.getElem?_setIfInBounds_ne (by omega), Vector.getElem?_setIfInBounds_ne (by omega),
    Vector.getElem?_setIfInBounds_ne (by omega), Vector.getElem?_setIfInBounds_ne (by omega),
    Vector.getElem?_setIfInBounds_ne (by omega)]

theorem setNetHeader_code : ((setNetHeader code rand msg).byte 0).toUInt8 = code := by
  simp only [SBuffer.byte, setNetHeader, SBuffer.writeHeader]
  rw [Vector.getElem?_setIfInBounds_ne (by decide), Vector.getElem?_setIfInBounds_ne (by decide),
    Vector.getElem?_setIfInBounds_ne (by decide), Vector.getElem?_setIfInBounds_ne (by decide),
    Vector.getElem?_setIfInBounds_self_of_lt (by decide)]
  rfl

theorem setNetHeader_len : (setNetHeader code rand msg).len = UInt16.ofNat msg.dataSize := by
  have hlow : ((setNetHeader code rand msg).byte 1).toUInt8 =
      UInt8.ofNat (UInt16.ofNat msg.dataSize).toNat := by
    simp only [SBuffer.byte, setNetHeader, SBuffer.writeHeader]
    rw [Vector.getElem?_setIfInBounds_ne (by decide), Vector.getElem?_setIfInBounds_ne (by decide),
      Vector.getElem?_setIfInBounds_ne (by decide),
      Vector.getElem?_setIfInBounds_self_of_lt (by decide)]
    rfl
  have hhigh : ((setNetHeader code rand msg).byte 2).toUInt8 =
      UInt8.ofNat ((UInt16.ofNat msg.dataSize).toNat / 256) := by
    simp only [SBuffer.byte, setNetHeader, SBuffer.writeHeader]
    rw [Vector.getElem?_setIfInBounds_ne (by decide), Vector.getElem?_setIfInBounds_ne (by decide),
      Vector.getElem?_setIfInBounds_self_of_lt (by decide)]
    rfl
  rw [SBuffer.len, hlow, hhigh]
  refine UInt16.toNat_inj.mp ?_
  have hlt := (UInt16.ofNat msg.dataSize).toNat_lt
  rw [UInt16.toNat_ofNat', UInt8.toNat_ofNat', UInt8.toNat_ofNat']
  omega

theorem setNetHeader_checksum :
    ((setNetHeader code rand msg).byte 4).toUInt8 =
      msg.checksum (UInt16.ofNat msg.dataSize).toNat := by
  simp only [SBuffer.byte, setNetHeader, SBuffer.writeHeader]
  rw [Vector.getElem?_setIfInBounds_self_of_lt (by decide)]
  rfl

/-- A fresh packet carries the checksum of its payload. -/
theorem setNetHeader_valid :
    ((setNetHeader code rand msg).byte 4).toUInt8 =
      (setNetHeader code rand msg).checksum (setNetHeader code rand msg).len.toNat := by
  have hsame : ∀ len : Nat, (setNetHeader code rand msg).checksum len = msg.checksum len := by
    intro len
    have hbyte : ∀ i, (setNetHeader code rand msg).byte (5 + i) = msg.byte (5 + i) :=
      fun i => setNetHeader_byte code rand msg (by omega)
    simp only [SBuffer.checksum, hbyte]
  rw [setNetHeader_checksum, setNetHeader_len, hsame]

/-- **A fresh packet comes through**: `Decode` accepts it and gives it back. -/
theorem decodeNet_fresh (fixedKey : UInt8) :
    decodeNet fixedKey (encodeNet fixedKey (setNetHeader code rand msg)) =
      (setNetHeader code rand msg, true) := by
  have hback := decodeNet_encodeNet fixedKey (setNetHeader code rand msg)
  refine Prod.ext hback ((decodeNet_snd_iff _ _).mpr ?_)
  rw [hback, encodeNet_len, ← checksum_toNat, setNetHeader_valid]

end

/-! ## Between the ends -/

namespace NetEnd

theorem setBufferHeader_eq (e : NetEnd) : e.setBufferHeader = setNetHeader := by
  cases e <;> rfl

theorem encode_eq (e : NetEnd) : e.encode = encodeNet := by
  cases e <;> rfl

theorem decode_eq (e : NetEnd) : e.decode = decodeNet := by
  cases e <;> rfl

/-- A packet that passes the checks of `Decode` and fits the buffer is received. -/
theorem received_of_decode {e : NetEnd} {code fixedKey : UInt8} {msg packet : SBuffer}
    (hlen : msg.len.toNat + 5 < BUFFER_DEFAULT) (hcode : (msg.byte 0).toUInt8 = code)
    (h : decodeNet fixedKey msg = (packet, true)) :
    e.received code fixedKey msg = some packet := by
  cases e with
  | server =>
      simp only [received, ContentsServer.received, ContentsServer.decode, h, hcode,
        if_neg (Nat.not_le.mpr hlen), ne_eq, not_true_eq_false, if_false, if_true]
  | client =>
      simp only [received, CoreClient.received, CoreClient.decode, h, hcode, ne_eq,
        not_true_eq_false, if_false, if_true]

end NetEnd

/-- **The codec is a bijection its receiver accepts**, whichever of the two copies is at
either end. -/
theorem codec_bijection (sender receiver : NetEnd) (fixedKey : UInt8) :
    (∀ msg : SBuffer, msg.len.toNat + 5 < BUFFER_DEFAULT →
      (receiver.decode fixedKey (sender.encode fixedKey msg)).1 = msg ∧
      sender.encode fixedKey (receiver.decode fixedKey msg).1 = msg ∧
      (∀ j, j < 4 ∨ 4 + msg.len.toNat < j →
        (sender.encode fixedKey msg).byte j = msg.byte j ∧
          (receiver.decode fixedKey msg).1.byte j = msg.byte j) ∧
      ((receiver.decode fixedKey msg).2 = true ↔
        ((receiver.decode fixedKey msg).1.byte 4).toUInt8.toNat =
          (∑ i ∈ Finset.range msg.len.toNat,
            ((receiver.decode fixedKey msg).1.byte (5 + i)).toUInt8.toNat) % 256)) ∧
    ∀ (code : UInt8) (rand : Nat) (msg : SBuffer), msg.dataSize + 5 < BUFFER_DEFAULT →
      let packet := sender.setBufferHeader code rand msg
      receiver.decode fixedKey (sender.encode fixedKey packet) = (packet, true) ∧
      receiver.received code fixedKey (sender.encode fixedKey packet) = some packet ∧
      packet.len.toNat = msg.dataSize ∧
      ∀ i < msg.dataSize, packet.byte (5 + i) = msg.byte (5 + i) := by
  rw [sender.encode_eq, receiver.decode_eq, sender.setBufferHeader_eq]
  constructor
  · intro msg _
    exact ⟨decodeNet_encodeNet fixedKey msg, encodeNet_decodeNet fixedKey msg,
      fun j hj => ⟨encodeNet_byte hj, decodeNet_byte hj⟩, decodeNet_snd_iff fixedKey msg⟩
  · intro code rand msg hsize packet
    have hfresh := decodeNet_fresh code rand msg fixedKey
    have hlen : packet.len.toNat = msg.dataSize := by
      rw [setNetHeader_len, UInt16.toNat_ofNat']
      simp only [BUFFER_DEFAULT] at hsize
      omega
    have hcode : ((encodeNet fixedKey packet).byte 0).toUInt8 = code := by
      rw [encodeNet_byte (by omega)]
      exact setNetHeader_code code rand msg
    refine ⟨hfresh, NetEnd.received_of_decode ?_ hcode hfresh, hlen, fun i _ => ?_⟩
    · rw [encodeNet_len, hlen]
      exact hsize
    · exact setNetHeader_byte code rand msg (by omega)

/-- A packet with three bytes of payload. -/
def threeBytes : SBuffer := ⟨Vector.ofFn fun i => Int8.ofNat i, 5, 3⟩

/-- The server sends it and the client reads it. -/
theorem threeBytes_restored :
    let packet := NetEnd.server.setBufferHeader 0x77 41 threeBytes
    packet.len.toNat = 3 ∧
      NetEnd.client.decode 0x32 (NetEnd.server.encode 0x32 packet) = (packet, true) ∧
      NetEnd.server.encode 0x32 (NetEnd.client.decode 0x32 packet).1 = packet ∧
      NetEnd.client.received 0x77 0x32 (NetEnd.server.encode 0x32 packet) = some packet := by
  obtain ⟨hinverse, hfresh⟩ := codec_bijection .server .client 0x32
  obtain ⟨hdecoded, hreceived, hlen, -⟩ := hfresh 0x77 41 threeBytes (by decide)
  have hlen : (NetEnd.server.setBufferHeader 0x77 41 threeBytes).len.toNat = 3 := hlen
  have hroom : (NetEnd.server.setBufferHeader 0x77 41 threeBytes).len.toNat + 5 <
      BUFFER_DEFAULT := by
    rw [hlen]
    decide
  exact ⟨hlen, hdecoded, (hinverse _ hroom).2.1, hreceived⟩

end SessionServer.ContentLib
