/-
  ContentLib/LanFrame.lean --- the length a LAN server declares for a packet.

  `SetBufferHeader` of type LANSERVER on the buffer of a packet.  The length byte is the
  payload size less one, cut to a byte, so that the receiver's `+ 1` gives the size back for
  1 to 256 bytes; `SendPacket` sends packets of every size.
-/
import SessionServer.Common.PacketBounds
import SessionServer.ContentLib.Codec
import SessionServer.ContentLib.Frame

set_option autoImplicit false

namespace SessionServer.ContentLib

open SessionServer.Common SessionServer.Foundation

/-! ## Headers and buffers -/

/-- `SetBufferHeader` of a LAN server: a header written at position 3. -/
def ContentsServer.setLanHeader (msg : SBuffer) : SBuffer :=
  let header : LanHEADER := { code := 0x89, len := UInt8.ofNat msg.dataSize - 1 }
  { buffer := (msg.buffer.setIfInBounds 3 header.code.toInt8).setIfInBounds 4 header.len.toInt8
    read := 3
    dataSize := msg.dataSize + 2 }

namespace SBuffer

/-- `DataSize` bytes from the read position on: what `SendPost` passes to `WSASend`. -/
def wire (msg : SBuffer) : List UInt8 :=
  (List.range msg.dataSize).map fun i => (msg.byte (msg.read + i)).toUInt8

/-- As many bytes behind the room kept for a header. -/
def payload (msg : SBuffer) : List UInt8 :=
  (List.range msg.dataSize).map fun i => (msg.byte (5 + i)).toUInt8

@[simp] theorem payload_length (msg : SBuffer) : msg.payload.length = msg.dataSize := by
  rw [payload, List.length_map, List.length_range]

/-- The buffer of a packet whose positions are in it. -/
def ofPacket (packet : Common.SBuffer) : SBuffer where
  buffer := Vector.ofFn fun i => (packet.buffer i).toInt8
  read := packet.read.toNat
  dataSize := packet.dataSize.toNat

end SBuffer

theorem setLanHeader_byte {msg : SBuffer} {i : Nat} (h : 5 ≤ i) :
    (ContentsServer.setLanHeader msg).byte i = msg.byte i := by
  simp only [SBuffer.byte, ContentsServer.setLanHeader]
  rw [Vector.getElem?_setIfInBounds_ne (by omega), Vector.getElem?_setIfInBounds_ne (by omega)]

theorem setLanHeader_code (msg : SBuffer) :
    ((ContentsServer.setLanHeader msg).byte 3).toUInt8 = 0x89 := by
  simp only [SBuffer.byte, ContentsServer.setLanHeader]
  rw [Vector.getElem?_setIfInBounds_ne (by decide),
    Vector.getElem?_setIfInBounds_self_of_lt (by decide)]
  rfl

theorem setLanHeader_len (msg : SBuffer) :
    ((ContentsServer.setLanHeader msg).byte 4).toUInt8 = UInt8.ofNat msg.dataSize - 1 := by
  simp only [SBuffer.byte, ContentsServer.setLanHeader]
  rw [Vector.getElem?_setIfInBounds_self_of_lt (by decide)]
  rfl

/-- The header stands right before the payload. -/
theorem wire_setLanHeader (msg : SBuffer) :
    (ContentsServer.setLanHeader msg).wire = setBufferHeader msg.payload := by
  have hsize : (ContentsServer.setLanHeader msg).dataSize = msg.dataSize + 1 + 1 := rfl
  have hread : (ContentsServer.setLanHeader msg).read = 3 := rfl
  rw [SBuffer.wire, hsize, hread, List.range_succ_eq_map, List.range_succ_eq_map]
  simp only [List.map_cons, List.map_map]
  rw [setBufferHeader, SBuffer.payload_length, setLanHeader_code, setLanHeader_len]
  refine congrArg₂ List.cons rfl (congrArg₂ List.cons rfl (List.map_congr_left fun i _ => ?_))
  have hposition : 3 + (i + 1 + 1) = 5 + i := by omega
  show ((ContentsServer.setLanHeader msg).byte (3 + (i + 1 + 1))).toUInt8 = _
  rw [hposition, setLanHeader_byte (by omega)]

/-! ## What is sent -/

/-- `SendPacket` of a LAN server, to a session that is there: the buffer it enqueues. -/
def ContentsServer.sendLan (packet : Common.SBuffer) : SBuffer :=
  if packet.eFlag = false then setLanHeader (SBuffer.ofPacket packet)
  else SBuffer.ofPacket packet

/-- A frame is as long as a receiver takes it to be. -/
def Declared (frame : List UInt8) : Prop :=
  RecvBranch.contents.frameSize (LanHEADER.ofBytes frame) = frame.length

instance (frame : List UInt8) : Decidable (Declared frame) :=
  inferInstanceAs (Decidable (_ = _))

theorem declared_setBufferHeader_iff (payload : List UInt8) :
    Declared (setBufferHeader payload) ↔ 1 ≤ payload.length ∧ payload.length ≤ 256 := by
  have hlen : (LanHEADER.ofBytes (setBufferHeader payload)).len =
      UInt8.ofNat payload.length - 1 := rfl
  have hbyte : (UInt8.ofNat payload.length - 1).toNat = (256 - 1 + payload.length % 256) % 256 := by
    rw [UInt8.toNat_sub, UInt8.toNat_ofNat']
    rfl
  rw [Declared, RecvBranch.frameSize, hlen, hbyte, LanHEADER.size, setBufferHeader,
    List.length_cons, List.length_cons]
  omega

theorem call_eFlag (sb : Common.SBuffer) (op : PacketOp) :
    (sb.call op).1.eFlag = sb.eFlag := by
  cases op with
  | put value =>
      rw [SBuffer.call, Scalar.put_eq, SBuffer.store]
      split <;> rfl
  | get into =>
      rw [SBuffer.call, Scalar.get_eq]
      split <;> rfl
  | putData src =>
      rw [SBuffer.call, SBuffer.putData]
      split_ifs <;> rfl
  | getData size =>
      rw [SBuffer.call, SBuffer.getData]
      split_ifs <;> rfl

/-- **The declared and the actual length agree** exactly for 1 to 256 bytes of payload. -/
theorem lan_frame_declared_iff (memory : Int → UInt8) (ops : List PacketOp) :
    let packet := after SBuffer.call (SBuffer.new memory).clear ops
    Declared (ContentsServer.sendLan packet).wire ↔
      1 ≤ packet.dataSize ∧ packet.dataSize ≤ 256 := by
  intro packet
  have hflag : packet.eFlag = false :=
    after_invariant (fun sb op h => (call_eFlag sb op).trans h) rfl ops
  have hplaced : packet.Placed :=
    after_invariant (fun _ op h => (h.call op).1) (SBuffer.clear_placed memory) ops
  have hdata := hplaced.data_nonneg
  rw [ContentsServer.sendLan, if_pos hflag, wire_setLanHeader, declared_setBufferHeader_iff,
    SBuffer.payload_length]
  show 1 ≤ packet.dataSize.toNat ∧ packet.dataSize.toNat ≤ 256 ↔ _
  omega

/-- A packet without a payload declares 256 bytes. -/
theorem emptyPacket_misdeclared :
    ¬ ∀ (memory : Int → UInt8) (ops : List PacketOp),
      (∀ done op rest, ops = done ++ op :: rest →
        (after SBuffer.call (SBuffer.new memory).clear done).Fits op) →
      Declared
        (ContentsServer.sendLan (after SBuffer.call (SBuffer.new memory).clear ops)).wire := by
  intro h
  have hempty := h (fun _ => 0) [] fun done op rest heq =>
    absurd heq.symm (List.append_ne_nil_of_right_ne_nil _ (List.cons_ne_nil _ _))
  revert hempty
  decide +kernel

end SessionServer.ContentLib
