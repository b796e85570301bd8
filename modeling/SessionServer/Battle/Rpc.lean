/-
  Battle/Rpc.lean --- the packets of `RPC_Fighter`.

  `FightProxy` and `FightStub` are generated from one table of messages: a type and the
  fields behind it, written and read with the operators of `CPacket`.  A stub reads what is
  there; a field that has not come whole keeps the value its variable was declared with, and
  bytes behind the last field are not looked at.
-/
import SessionServer.Battle.Fight
import SessionServer.Common.PacketReads
import SessionServer.ContentLib.FrameStream
import SessionServer.ContentLib.RecvBounds

set_option autoImplicit false

namespace SessionServer.Battle

open SessionServer.Common SessionServer.ContentLib SessionServer.Foundation

/-! ## Types -/

def SCCREATEME : UInt8 := 0
def SCCREATEOTHER : UInt8 := 1
def SCDELETE : UInt8 := 2
def CSMOVESTART : UInt8 := 10
def SCMOVESTART : UInt8 := 11
def CSMOVESTOP : UInt8 := 12
def SCMOVESTOP : UInt8 := 13
def CSATTACK1 : UInt8 := 20
def SCATTACK1 : UInt8 := 21
def CSATTACK2 : UInt8 := 22
def SCATTACK2 : UInt8 := 23
def CSATTACK3 : UInt8 := 24
def SCATTACK3 : UInt8 := 25
def SCDAMAGE : UInt8 := 30

/-! ## The proxy -/

namespace FightProxy

/-- The common body: a cleared packet, the type and the fields. -/
def proxy (memory : Int → UInt8) (type : UInt8) (fields : List Scalar) : Common.SBuffer :=
  (.unsignedChar type :: fields).foldl (fun packet value => value.put packet)
    (Common.SBuffer.new memory).clear

variable (memory : Int → UInt8)

def proxySCCreateMe (id : UInt32) (dir : UInt8) (x y : UInt16) (hp : UInt8) : Common.SBuffer :=
  proxy memory SCCREATEME
    [.unsignedInt id, .unsignedChar dir, .unsignedShort x, .unsignedShort y, .unsignedChar hp]

def proxySCCreateOther (id : UInt32) (dir : UInt8) (x y : UInt16) (hp : UInt8) :
    Common.SBuffer :=
  proxy memory SCCREATEOTHER
    [.unsignedInt id, .unsignedChar dir, .unsignedShort x, .unsignedShort y, .unsignedChar hp]

def proxySCDelete (id : UInt32) : Common.SBuffer :=
  proxy memory SCDELETE [.unsignedInt id]

def proxySCMoveStart (id : UInt32) (dir : UInt8) (x y : UInt16) : Common.SBuffer :=
  proxy memory SCMOVESTART
    [.unsignedInt id, .unsignedChar dir, .unsignedShort x, .unsignedShort y]

def proxySCMoveStop (id : UInt32) (dir : UInt8) (x y : UInt16) : Common.SBuffer :=
  proxy memory SCMOVESTOP
    [.unsignedInt id, .unsignedChar dir, .unsignedShort x, .unsignedShort y]

def proxySCAttack1 (id : UInt32) (dir : UInt8) (x y : UInt16) : Common.SBuffer :=
  proxy memory SCATTACK1
    [.unsignedInt id, .unsignedChar dir, .unsignedShort x, .unsignedShort y]

def proxySCAttack2 (id : UInt32) (dir : UInt8) (x y : UInt16) : Common.SBuffer :=
  proxy memory SCATTACK2
    [.unsignedInt id, .unsignedChar dir, .unsignedShort x, .unsignedShort y]

def proxySCAttack3 (id : UInt32) (dir : UInt8) (x y : UInt16) : Common.SBuffer :=
  proxy memory SCATTACK3
    [.unsignedInt id, .unsignedChar dir, .unsignedShort x, .unsignedShort y]

def proxySCDamage (atk tgt : UInt32) (hp : UInt8) : Common.SBuffer :=
  proxy memory SCDAMAGE [.unsignedInt atk, .unsignedInt tgt, .unsignedChar hp]

end FightProxy

open FightProxy in
/-- The packet of a message, in a buffer of the pool. -/
def SCMessage.packet (memory : Int → UInt8) : SCMessage → Common.SBuffer
  | .createMe id dir x y hp => proxySCCreateMe memory id dir x y hp
  | .createOther id dir x y hp => proxySCCreateOther memory id dir x y hp
  | .delete id => proxySCDelete memory id
  | .moveStart id dir x y => proxySCMoveStart memory id dir x y
  | .moveStop id dir x y => proxySCMoveStop memory id dir x y
  | .attack .attack1 id dir x y => proxySCAttack1 memory id dir x y
  | .attack .attack2 id dir x y => proxySCAttack2 memory id dir x y
  | .attack .attack3 id dir x y => proxySCAttack3 memory id dir x y
  | .damage atk tgt hp => proxySCDamage memory atk tgt hp

/-! ## The stub -/

namespace FightStub

/-- `packet>>dir_>>x_>>y_`, with all three declared as 0. -/
def readFields (packet : Common.SBuffer) : UInt8 × UInt16 × UInt16 :=
  let dir_ := CPacket.getUnsignedChar packet 0
  let x_ := CPacket.getUnsignedShort dir_.1 0
  let y_ := CPacket.getUnsignedShort x_.1 0
  (dir_.2, x_.2, y_.2)

/-- The handler of a type, with the fields. -/
def call (type dir_ : UInt8) (x_ y_ : UInt16) : CSMessage :=
  if type = CSMOVESTART then .moveStart dir_ x_ y_
  else if type = CSMOVESTOP then .moveStop dir_ x_ y_
  else if type = CSATTACK1 then .attack .attack1 dir_ x_ y_
  else if type = CSATTACK2 then .attack .attack2 dir_ x_ y_
  else if type = CSATTACK3 then .attack .attack3 dir_ x_ y_
  else .other

/-- `ProcMessage` up to the call of a handler; `unset` is what `type` holds before it is
read. -/
def procMessage (unset : UInt8) (packet : Common.SBuffer) : CSMessage :=
  let type := CPacket.getUnsignedChar packet unset
  let fields := readFields type.1
  call type.2 fields.1 fields.2.1 fields.2.2

end FightStub

/-- The packet of the contents branch for a frame, in a buffer of the pool. -/
def framePacket (msgbuf : PooledBuffer) (frame : List UInt8) : Common.SBuffer :=
  ((RecvLoop.lan .contents).text.copied msgbuf frame).moveReadPos LanHEADER.size

/-! ## Requests on the wire -/

/-- **What a payload asks for.**  Only the fields that have come whole count. -/
def CSMessage.ofPayload : List UInt8 → CSMessage
  | type :: dir :: x₀ :: x₁ :: y₀ :: y₁ :: _ =>
      FightStub.call type dir (uint16 x₀ x₁) (uint16 y₀ y₁)
  | type :: dir :: x₀ :: x₁ :: _ => FightStub.call type dir (uint16 x₀ x₁) 0
  | type :: dir :: _ => FightStub.call type dir 0 0
  | [type] => FightStub.call type 0 0 0
  | [] => .other

/-- A request as the message table has it. -/
def CSMessage.fields : CSMessage → List Scalar
  | .moveStart dir x y =>
      [.unsignedChar CSMOVESTART, .unsignedChar dir, .unsignedShort x, .unsignedShort y]
  | .moveStop dir x y =>
      [.unsignedChar CSMOVESTOP, .unsignedChar dir, .unsignedShort x, .unsignedShort y]
  | .attack .attack1 dir x y =>
      [.unsignedChar CSATTACK1, .unsignedChar dir, .unsignedShort x, .unsignedShort y]
  | .attack .attack2 dir x y =>
      [.unsignedChar CSATTACK2, .unsignedChar dir, .unsignedShort x, .unsignedShort y]
  | .attack .attack3 dir x y =>
      [.unsignedChar CSATTACK3, .unsignedChar dir, .unsignedShort x, .unsignedShort y]
  | .other => [.unsignedChar SCCREATEME]

def CSMessage.payload (message : CSMessage) : List UInt8 := message.fields.flatMap Scalar.bytes

section

variable {packet : Common.SBuffer}

/-- The fields of a payload, behind its type. -/
theorem readFields_eq {rest : List UInt8} (h : Pending packet rest) (type : UInt8) :
    FightStub.call type (FightStub.readFields packet).1 (FightStub.readFields packet).2.1
      (FightStub.readFields packet).2.2 = CSMessage.ofPayload (type :: rest) := by
  match rest, h with
  | [], h =>
      have hdir : CPacket.getUnsignedChar packet 0 = (packet, 0) :=
        h.load_short (by decide) UInt8.ofNat 0
      have hshort := h.getUnsignedShort_short (by decide) 0
      simp only [FightStub.readFields, hdir, hshort, CSMessage.ofPayload]
  | [dir], h =>
      obtain ⟨hdir, hrest⟩ := h.getUnsignedChar 0
      have hshort := hrest.getUnsignedShort_short (by decide) 0
      simp only [FightStub.readFields, hdir, hshort, CSMessage.ofPayload]
  | [dir, x₀], h =>
      obtain ⟨hdir, hrest⟩ := h.getUnsignedChar 0
      have hshort := hrest.getUnsignedShort_short Nat.one_lt_two 0
      simp only [FightStub.readFields, hdir, hshort, CSMessage.ofPayload]
  | [dir, x₀, x₁], h =>
      obtain ⟨hdir, hrest⟩ := h.getUnsignedChar 0
      obtain ⟨hx, hlast⟩ := hrest.getUnsignedShort 0
      have hshort := hlast.getUnsignedShort_short (by decide) 0
      simp only [FightStub.readFields, hdir, hx, hshort, CSMessage.ofPayload]
  | [dir, x₀, x₁, y₀], h =>
      obtain ⟨hdir, hrest⟩ := h.getUnsignedChar 0
      obtain ⟨hx, hlast⟩ := hrest.getUnsignedShort 0
      have hshort := hlast.getUnsignedShort_short Nat.one_lt_two 0
      simp only [FightStub.readFields, hdir, hx, hshort, CSMessage.ofPayload]
  | dir :: x₀ :: x₁ :: y₀ :: y₁ :: more, h =>
      obtain ⟨hdir, hrest⟩ := h.getUnsignedChar 0
      obtain ⟨hx, hlast⟩ := hrest.getUnsignedShort 0
      obtain ⟨hy, _⟩ := hlast.getUnsignedShort 0
      simp only [FightStub.readFields, hdir, hx, hy, CSMessage.ofPayload]

/-- **The stub reads a payload as it is to be read**, whatever the buffer held before. -/
theorem procMessage_eq {payload : List UInt8} (h : Pending packet payload) (hne : payload ≠ [])
    (unset : UInt8) : FightStub.procMessage unset packet = CSMessage.ofPayload payload := by
  obtain ⟨type, rest, rfl⟩ := List.exists_cons_of_ne_nil hne
  obtain ⟨htype, hrest⟩ := h.getUnsignedChar unset
  rw [FightStub.procMessage, htype]
  exact readFields_eq hrest type

end

/-- The frame of a payload leaves the payload in the packet. -/
theorem framePacket_pending (msgbuf : PooledBuffer) {payload : List UInt8}
    (hsize : payload.length ≤ 256) :
    Pending (framePacket msgbuf (setBufferHeader payload)) payload := by
  have hlength : (setBufferHeader payload).length = payload.length + 2 := rfl
  have hbuffer := msgbuf.property
  refine ⟨⟨hbuffer, ?_, ?_, ?_, ?_⟩, ?_⟩
  all_goals
    simp only [framePacket, FrameLoop.copied, RecvLoop.text, serverLan,
      Common.SBuffer.clearAtLServer, Common.SBuffer.moveWritePos, Common.SBuffer.moveReadPos,
      Common.SBuffer.unread, LanHEADER.size, hlength]
  · omega
  · omega
  · have hroom : (ContentLib.BUFFER_DEFAULT : Int) = 300 := rfl
    omega
  · omega
  · have hwhole := readBytes_writeBytes msgbuf.1.buffer 3 (setBufferHeader payload)
    rw [hlength, show ((payload.length + 2 : Nat) : Int) = 2 + payload.length by omega,
      readBytes_append _ _ (by omega) (by omega)] at hwhole
    have hparts : setBufferHeader payload =
        [0x89, UInt8.ofNat payload.length - 1] ++ payload := rfl
    rw [hparts] at hwhole
    rw [show 0 + ((payload.length + 2 : Nat) : Int) - ((2 : Nat) : Int) = payload.length by omega]
    exact (List.append_inj hwhole (by rw [readBytes_length]; rfl)).2

/-- **A request of the message table is read back**, whatever comes behind it. -/
theorem ofPayload_payload (message : CSMessage) (more : List UInt8) :
    CSMessage.ofPayload (message.payload ++ more) = message := by
  have hfields : ∀ (type dir : UInt8) (x y : UInt16),
      CSMessage.ofPayload ([Scalar.unsignedChar type, .unsignedChar dir, .unsignedShort x,
        .unsignedShort y].flatMap Scalar.bytes ++ more) = FightStub.call type dir x y := by
    intro type dir x y
    obtain ⟨x₀, x₁, hx, hxvalue⟩ := unsignedShort_bytes x
    obtain ⟨y₀, y₁, hy, hyvalue⟩ := unsignedShort_bytes y
    simp only [List.flatMap_cons, List.flatMap_nil, unsignedChar_bytes, hx, hy, List.cons_append,
      List.nil_append, CSMessage.ofPayload, hxvalue, hyvalue]
  cases message with
  | moveStart dir x y => exact hfields CSMOVESTART dir x y
  | moveStop dir x y => exact hfields CSMOVESTOP dir x y
  | attack type dir x y =>
      cases type with
      | attack1 => exact hfields CSATTACK1 dir x y
      | attack2 => exact hfields CSATTACK2 dir x y
      | attack3 => exact hfields CSATTACK3 dir x y
  | other =>
      have hother : ∀ dir x y, FightStub.call SCCREATEME dir x y = .other := fun _ _ _ => rfl
      simp only [CSMessage.payload, CSMessage.fields, List.flatMap_cons, List.flatMap_nil,
        unsignedChar_bytes, List.cons_append, List.nil_append]
      unfold CSMessage.ofPayload
      split <;> simp_all

/-! ## Packets on the wire -/

/-- A packet as the message table has it. -/
def SCMessage.fields : SCMessage → List Scalar
  | .createMe id dir x y hp =>
      [.unsignedChar SCCREATEME, .unsignedInt id, .unsignedChar dir, .unsignedShort x,
        .unsignedShort y, .unsignedChar hp]
  | .createOther id dir x y hp =>
      [.unsignedChar SCCREATEOTHER, .unsignedInt id, .unsignedChar dir, .unsignedShort x,
        .unsignedShort y, .unsignedChar hp]
  | .delete id => [.unsignedChar SCDELETE, .unsignedInt id]
  | .moveStart id dir x y =>
      [.unsignedChar SCMOVESTART, .unsignedInt id, .unsignedChar dir, .unsignedShort x,
        .unsignedShort y]
  | .moveStop id dir x y =>
      [.unsignedChar SCMOVESTOP, .unsignedInt id, .unsignedChar dir, .unsignedShort x,
        .unsignedShort y]
  | .attack .attack1 id dir x y =>
      [.unsignedChar SCATTACK1, .unsignedInt id, .unsignedChar dir, .unsignedShort x,
        .unsignedShort y]
  | .attack .attack2 id dir x y =>
      [.unsignedChar SCATTACK2, .unsignedInt id, .unsignedChar dir, .unsignedShort x,
        .unsignedShort y]
  | .attack .attack3 id dir x y =>
      [.unsignedChar SCATTACK3, .unsignedInt id, .unsignedChar dir, .unsignedShort x,
        .unsignedShort y]
  | .damage atk tgt hp =>
      [.unsignedChar SCDAMAGE, .unsignedInt atk, .unsignedInt tgt, .unsignedChar hp]

def SCMessage.payload (message : SCMessage) : List UInt8 := message.fields.flatMap Scalar.bytes

/-- What a client can read off a payload. -/
def SCMessage.ofPayload : List UInt8 → Option SCMessage
  | [type, i₀, i₁, i₂, i₃] =>
      if type = SCDELETE then some (.delete (uint32 i₀ i₁ i₂ i₃)) else none
  | [type, i₀, i₁, i₂, i₃, b₀, b₁, b₂, b₃, b₄] =>
      let id := uint32 i₀ i₁ i₂ i₃
      if type = SCMOVESTART then some (.moveStart id b₀ (uint16 b₁ b₂) (uint16 b₃ b₄))
      else if type = SCMOVESTOP then some (.moveStop id b₀ (uint16 b₁ b₂) (uint16 b₃ b₄))
      else if type = SCATTACK1 then some (.attack .attack1 id b₀ (uint16 b₁ b₂) (uint16 b₃ b₄))
      else if type = SCATTACK2 then some (.attack .attack2 id b₀ (uint16 b₁ b₂) (uint16 b₃ b₄))
      else if type = SCATTACK3 then some (.attack .attack3 id b₀ (uint16 b₁ b₂) (uint16 b₃ b₄))
      else if type = SCDAMAGE then some (.damage id (uint32 b₀ b₁ b₂ b₃) b₄)
      else none
  | [type, i₀, i₁, i₂, i₃, dir, x₀, x₁, y₀, y₁, hp] =>
      let id := uint32 i₀ i₁ i₂ i₃
      if type = SCCREATEME then some (.createMe id dir (uint16 x₀ x₁) (uint16 y₀ y₁) hp)
      else if type = SCCREATEOTHER then
        some (.createOther id dir (uint16 x₀ x₁) (uint16 y₀ y₁) hp)
      else none
  | _ => none

namespace SCMessage

theorem packet_eq (memory : Int → UInt8) (message : SCMessage) :
    message.packet memory = message.fields.foldl (fun packet value => value.put packet)
      (Common.SBuffer.new memory).clear := by
  cases message with
  | attack type id dir x y => cases type <;> rfl
  | _ => rfl

theorem fields_size (message : SCMessage) :
    1 ≤ (message.fields.map Scalar.size).sum ∧ (message.fields.map Scalar.size).sum ≤ 11 := by
  cases message with
  | attack type id dir x y =>
      cases type <;> exact ⟨by simp [fields, Scalar.size], by simp [fields, Scalar.size]⟩
  | _ => exact ⟨by simp [fields, Scalar.size], by simp [fields, Scalar.size]⟩

theorem payload_size (message : SCMessage) : PayloadSize message.payload := by
  have hlength : message.payload.length = (message.fields.map Scalar.size).sum := by
    simp only [payload, List.length_flatMap, Scalar.bytes_length]
  obtain ⟨hone, hfit⟩ := message.fields_size
  exact ⟨by omega, by omega⟩

/-- The packet holds its payload. -/
theorem packet_pending (memory : Int → UInt8) (message : SCMessage) :
    Pending (message.packet memory) message.payload := by
  rw [packet_eq]
  have hfit := message.payload_size.2
  exact (clear_pending memory).puts (by
    show 0 + message.payload.length ≤ 300
    omega)

/-- **A packet can be read back.** -/
theorem ofPayload_payload (message : SCMessage) : ofPayload message.payload = some message := by
  have hcreate : ∀ (type : UInt8) (id : UInt32) (dir : UInt8) (x y : UInt16) (hp : UInt8),
      ofPayload ([Scalar.unsignedChar type, .unsignedInt id, .unsignedChar dir, .unsignedShort x,
        .unsignedShort y, .unsignedChar hp].flatMap Scalar.bytes) =
          if type = SCCREATEME then some (.createMe id dir x y hp)
          else if type = SCCREATEOTHER then some (.createOther id dir x y hp) else none := by
    intro type id dir x y hp
    obtain ⟨i₀, i₁, i₂, i₃, hid, hvalue⟩ := unsignedInt_bytes id
    obtain ⟨x₀, x₁, hx, hxvalue⟩ := unsignedShort_bytes x
    obtain ⟨y₀, y₁, hy, hyvalue⟩ := unsignedShort_bytes y
    simp only [List.flatMap_cons, List.flatMap_nil, unsignedChar_bytes, hid, hx, hy,
      List.cons_append, List.nil_append, ofPayload, hvalue, hxvalue, hyvalue]
  have hplace : ∀ (type : UInt8) (id : UInt32) (dir : UInt8) (x y : UInt16),
      type ≠ SCDAMAGE →
      ofPayload ([Scalar.unsignedChar type, .unsignedInt id, .unsignedChar dir, .unsignedShort x,
        .unsignedShort y].flatMap Scalar.bytes) =
          if type = SCMOVESTART then some (.moveStart id dir x y)
          else if type = SCMOVESTOP then some (.moveStop id dir x y)
          else if type = SCATTACK1 then some (.attack .attack1 id dir x y)
          else if type = SCATTACK2 then some (.attack .attack2 id dir x y)
          else if type = SCATTACK3 then some (.attack .attack3 id dir x y)
          else none := by
    intro type id dir x y hne
    obtain ⟨i₀, i₁, i₂, i₃, hid, hvalue⟩ := unsignedInt_bytes id
    obtain ⟨x₀, x₁, hx, hxvalue⟩ := unsignedShort_bytes x
    obtain ⟨y₀, y₁, hy, hyvalue⟩ := unsignedShort_bytes y
    simp only [List.flatMap_cons, List.flatMap_nil, unsignedChar_bytes, hid, hx, hy,
      List.cons_append, List.nil_append, ofPayload, hvalue, hxvalue, hyvalue, if_neg hne]
  cases message with
  | createMe id dir x y hp => exact hcreate SCCREATEME id dir x y hp
  | createOther id dir x y hp => exact hcreate SCCREATEOTHER id dir x y hp
  | delete id =>
      obtain ⟨i₀, i₁, i₂, i₃, hid, hvalue⟩ := unsignedInt_bytes id
      simp only [payload, fields, List.flatMap_cons, List.flatMap_nil, unsignedChar_bytes, hid,
        List.cons_append, List.nil_append, ofPayload, hvalue, if_true]
  | moveStart id dir x y => exact hplace SCMOVESTART id dir x y (by decide)
  | moveStop id dir x y => exact hplace SCMOVESTOP id dir x y (by decide)
  | attack type id dir x y =>
      cases type with
      | attack1 => exact hplace SCATTACK1 id dir x y (by decide)
      | attack2 => exact hplace SCATTACK2 id dir x y (by decide)
      | attack3 => exact hplace SCATTACK3 id dir x y (by decide)
  | damage atk tgt hp =>
      obtain ⟨a₀, a₁, a₂, a₃, hatk, hatkValue⟩ := unsignedInt_bytes atk
      obtain ⟨t₀, t₁, t₂, t₃, htgt, htgtValue⟩ := unsignedInt_bytes tgt
      simp only [payload, fields, List.flatMap_cons, List.flatMap_nil, unsignedChar_bytes, hatk,
        htgt, List.cons_append, List.nil_append, ofPayload, hatkValue, htgtValue]
      rfl

/-- `<<` leaves the read position and the flag alone. -/
theorem puts_frame (values : List Scalar) (sb : Common.SBuffer) :
    (values.foldl (fun packet value => value.put packet) sb).read = sb.read ∧
      (values.foldl (fun packet value => value.put packet) sb).eFlag = sb.eFlag := by
  induction values generalizing sb with
  | nil => exact ⟨rfl, rfl⟩
  | cons value values ih =>
      have hput : (value.put sb).read = sb.read ∧ (value.put sb).eFlag = sb.eFlag := by
        rw [Scalar.put_eq, Common.SBuffer.store]
        split <;> exact ⟨rfl, rfl⟩
      rw [List.foldl_cons, (ih _).1, (ih _).2]
      exact hput

/-- The buffer that is framed holds the payload behind the room for the header. -/
theorem ofPacket_payload {packet : Common.SBuffer} {bytes : List UInt8}
    (h : Pending packet bytes) (hread : packet.read = 5) (hfit : bytes.length ≤ 295) :
    (SBuffer.ofPacket packet).payload = bytes := by
  have hdata := h.dataSize
  rw [← h.unread, Common.SBuffer.unread, readBytes, hread, SBuffer.payload]
  refine List.map_congr_left fun i hi => ?_
  rw [List.mem_range] at hi
  have hin : 5 + i < ContentLib.BUFFER_DEFAULT := by
    have hsize : (SBuffer.ofPacket packet).dataSize = packet.dataSize.toNat := rfl
    rw [hsize] at hi
    show 5 + i < 300
    omega
  simp only [SBuffer.byte, SBuffer.ofPacket, Vector.getElem?_ofFn, hin, dif_pos,
    Option.getD_some]
  show packet.buffer ↑(5 + i) = packet.buffer (5 + ↑i)
  congr 1

/-- What `SendPacket` passes on for the packet: the frame of its payload. -/
theorem wire_packet (memory : Int → UInt8) (message : SCMessage) :
    (ContentsServer.sendLan (message.packet memory)).wire = setBufferHeader message.payload := by
  have hpending := message.packet_pending memory
  have hframe := puts_frame message.fields (Common.SBuffer.new memory).clear
  rw [← packet_eq] at hframe
  have hfit := message.payload_size.2
  have hflag : (message.packet memory).eFlag = false := hframe.2
  rw [ContentsServer.sendLan, if_pos hflag, wire_setLanHeader,
    ofPacket_payload hpending hframe.1 (by omega)]

end SCMessage

/-- **The packets of a fight are a framing**: a client takes LAN frames and reads them. -/
def scFraming : Framing SCMessage UInt8 where
  encode message := setBufferHeader message.payload
  decode bytes := (lanFraming.decode bytes).bind fun taken =>
    (SCMessage.ofPayload taken.1.val).map fun message => (message, taken.2)
  decode_encode message rest := by
    have htaken := lanFraming.decode_encode ⟨message.payload, message.payload_size⟩ rest
    change lanFraming.decode (setBufferHeader message.payload ++ rest) = _ at htaken
    rw [htaken, Option.bind_some, SCMessage.ofPayload_payload, Option.map_some]
  decode_partial message part hpre hne := by
    have hwaits := lanFraming.decode_partial ⟨message.payload, message.payload_size⟩ part hpre hne
    rw [hwaits, Option.bind_none]
  decode_nil := by rw [lanFraming.decode_nil, Option.bind_none]

/-- What `SendPacket` passes on for packets, each in a buffer with the memory it has got. -/
def scWire (sent : List ((Int → UInt8) × SCMessage)) : List UInt8 :=
  sent.flatMap fun packet => (ContentsServer.sendLan (packet.2.packet packet.1)).wire

theorem scWire_eq (sent : List ((Int → UInt8) × SCMessage)) :
    scWire sent = scFraming.stream (sent.map Prod.snd) := by
  rw [scWire, Framing.stream, List.flatMap_map]
  simp only [SCMessage.wire_packet, scFraming]

/-- **A client reads what the proxy was told to send.**  Wherever the bytes of the packets
are cut, taking frames off what has come gives the first packets with all their fields, in
order and each once; what is left over is less than the next one, and nothing once all has
come. -/
theorem packets_read_back (sent : List ((Int → UInt8) × SCMessage)) (bytes incoming : List UInt8)
    (hcut : bytes ++ incoming = scWire sent) :
    (∃ taken last, scFraming.Parses bytes taken last) ∧
      ∀ taken last, scFraming.Parses bytes taken last →
        ∃ later, sent.map Prod.snd = taken ++ later ∧ scFraming.Unfinished last later ∧
          (incoming = [] → later = [] ∧ last = []) := by
  rw [scWire_eq] at hcut
  refine ⟨Framing.exists_parses hcut, fun taken last hparses => ?_⟩
  obtain ⟨later, hlater, hrest, hunfinished⟩ := hparses.split hcut
  refine ⟨later, hlater, hunfinished, fun hend => hunfinished.nil_of_eq ?_⟩
  rw [hend, List.append_nil] at hrest
  exact hrest

/-- Two packets, in buffers that held something else. -/
theorem twoPackets_read :
    ∃ last, scFraming.Parses
      [0x89, 4, 2, 5, 0, 0, 0, 0x89, 9, 30, 1, 0, 0, 0, 2, 1, 0, 0, 50]
      [.delete 5, .damage 1 258 50] last := by
  have hcut : [0x89, 4, 2, 5, 0, 0, 0, 0x89, 9, 30, 1, 0, 0, 0, 2, 1, 0, 0, 50] ++ [] =
      scWire [(fun _ => 7, .delete 5), (fun _ => 255, .damage 1 258 50)] := by decide +kernel
  obtain ⟨⟨taken, last, hparses⟩, hall⟩ := packets_read_back _ _ _ hcut
  obtain ⟨later, hlater, _, hend⟩ := hall taken last hparses
  rw [(hend rfl).1, List.append_nil] at hlater
  subst hlater
  exact ⟨last, hparses⟩

end SessionServer.Battle
