/-
  Common/PacketReads.lean --- operators on the bytes of a packet.

  What a sequence of operators does is a matter of the bytes between the positions alone:
  `<<` appends the bytes of its value, `>>` takes as many as its variable has, and leaves
  variable and bytes alone where there are fewer.
-/
import SessionServer.Common.PacketBounds
import SessionServer.Common.PacketData

set_option autoImplicit false

namespace SessionServer.Common

/-- The positions are in order, and the bytes between them are given. -/
structure Pending (sb : SBuffer) (bytes : List UInt8) : Prop where
  placed : sb.Placed
  unread : sb.unread = bytes

theorem Pending.dataSize {sb : SBuffer} {bytes : List UInt8} (h : Pending sb bytes) :
    sb.dataSize = bytes.length := by
  have hnonneg := h.placed.data_nonneg
  have hlength := congrArg List.length h.unread
  rw [SBuffer.unread, readBytes_length] at hlength
  omega

theorem clear_pending (memory : Int → UInt8) : Pending (SBuffer.new memory).clear [] :=
  ⟨SBuffer.clear_placed memory, rfl⟩

/-- `<<` appends the bytes of the value. -/
theorem Pending.put {sb : SBuffer} {bytes : List UInt8} (h : Pending sb bytes) (value : Scalar)
    (hfit : bytes.length + value.size ≤ 300) : Pending (value.put sb) (bytes ++ value.bytes) := by
  have hdata := h.dataSize
  have hsize := h.placed.size
  have hwrite := h.placed.write_eq
  have hroom : sb.HasRoom value.bytes.length := by
    rw [h.placed.hasRoom, value.bytes_length, hsize, BUFFER_DEFAULT]
    omega
  refine ⟨(h.placed.call (.put value)).1, ?_⟩
  rw [Scalar.put_eq, SBuffer.store, if_pos hroom]
  simp only [SBuffer.unread, SBuffer.moveWritePos]
  have hbelow : readBytes (writeBytes sb.buffer sb.write value.bytes) sb.read sb.dataSize =
      readBytes sb.buffer sb.read sb.dataSize :=
    readBytes_congr fun x _ hx => writeBytes_of_notMem (Or.inl (by omega))
  rw [readBytes_append _ _ h.placed.data_nonneg (by omega), hbelow, hwrite, readBytes_writeBytes]
  exact congrArg (· ++ value.bytes) h.unread

/-- Several values, one after the other. -/
theorem Pending.puts {values : List Scalar} : ∀ {sb : SBuffer} {bytes : List UInt8},
    Pending sb bytes → bytes.length + (values.flatMap Scalar.bytes).length ≤ 300 →
      Pending (values.foldl (fun packet value => value.put packet) sb)
        (bytes ++ values.flatMap Scalar.bytes) := by
  induction values with
  | nil =>
      intro sb bytes h _
      rw [List.flatMap_nil, List.append_nil]
      exact h
  | cons value values ih =>
      intro sb bytes h hfit
      rw [List.flatMap_cons, List.length_append, value.bytes_length] at hfit
      have hput := h.put value (by omega)
      rw [List.foldl_cons, List.flatMap_cons, ← List.append_assoc]
      refine ih hput ?_
      rw [List.length_append, value.bytes_length]
      omega

/-- `>>` takes the bytes of its variable. -/
theorem Pending.load {α : Type} {sb : SBuffer} {bytes more : List UInt8}
    (h : Pending sb (bytes ++ more)) (cast : Nat → α) (value : α) :
    (sb.load bytes.length cast value).2 = cast (leNat bytes) ∧
      Pending (sb.load bytes.length cast value).1 more := by
  have hdata := h.dataSize
  have hwrite := h.placed.write_eq
  have hread := h.placed.read_nonneg
  have hle := h.placed.data_le
  rw [List.length_append] at hdata
  have hhas : sb.HasData bytes.length := by
    rw [h.placed.hasData]
    omega
  have hsplit : readBytes sb.buffer sb.read bytes.length ++
      readBytes sb.buffer (sb.read + bytes.length) (sb.dataSize - bytes.length) =
        bytes ++ more := by
    rw [← readBytes_append _ _ (by omega) (by omega), ← h.unread, SBuffer.unread]
    congr 1
    omega
  obtain ⟨hfront, hback⟩ := List.append_inj hsplit (by rw [readBytes_length]; omega)
  rw [SBuffer.load, if_pos hhas, hfront]
  refine ⟨rfl, ⟨h.placed.size, ?_, ?_, ?_, ?_⟩, hback⟩
  all_goals
    simp only [SBuffer.moveReadPos]
    omega

/-- With fewer bytes than the variable has, `>>` does nothing. -/
theorem Pending.load_short {α : Type} {sb : SBuffer} {bytes : List UInt8} (h : Pending sb bytes)
    {n : Nat} (hshort : bytes.length < n) (cast : Nat → α) (value : α) :
    sb.load n cast value = (sb, value) := by
  have hdata := h.dataSize
  have hhas : ¬ sb.HasData n := by
    rw [h.placed.hasData]
    omega
  rw [SBuffer.load, if_neg hhas]

section

variable {sb : SBuffer} {more : List UInt8}

theorem Pending.getUnsignedChar {byte : UInt8} (h : Pending sb (byte :: more)) (value : UInt8) :
    (CPacket.getUnsignedChar sb value).2 = byte ∧
      Pending (CPacket.getUnsignedChar sb value).1 more := by
  have hload := @Pending.load _ sb [byte] more h UInt8.ofNat value
  refine ⟨hload.1.trans ?_, hload.2⟩
  simp [leNat]

/-- A number of two bytes in memory. -/
def uint16 (low high : UInt8) : UInt16 := UInt16.ofNat (leNat [low, high])

/-- A number of four bytes in memory. -/
def uint32 (b₀ b₁ b₂ b₃ : UInt8) : UInt32 := UInt32.ofNat (leNat [b₀, b₁, b₂, b₃])

theorem Pending.getUnsignedShort {low high : UInt8} (h : Pending sb (low :: high :: more))
    (value : UInt16) :
    (CPacket.getUnsignedShort sb value).2 = uint16 low high ∧
      Pending (CPacket.getUnsignedShort sb value).1 more :=
  @Pending.load _ sb [low, high] more h UInt16.ofNat value

theorem Pending.getUnsignedShort_short {bytes : List UInt8} (h : Pending sb bytes)
    (hshort : bytes.length < 2) (value : UInt16) :
    CPacket.getUnsignedShort sb value = (sb, value) :=
  h.load_short hshort UInt16.ofNat value

end

/-! ## The bytes of a value -/

theorem unsignedChar_bytes (value : UInt8) : (Scalar.unsignedChar value).bytes = [value] := by
  simp [Scalar.bytes, Scalar.size, Scalar.bits, leBytes]

theorem unsignedShort_bytes (value : UInt16) :
    ∃ low high, (Scalar.unsignedShort value).bytes = [low, high] ∧ uint16 low high = value := by
  refine ⟨_, _, rfl, ?_⟩
  have hlt : value.toNat < 256 ^ 2 := value.toNat_lt
  show UInt16.ofNat (leNat (leBytes 2 value.toNat)) = value
  rw [leNat_leBytes hlt, UInt16.ofNat_toNat]

theorem unsignedInt_bytes (value : UInt32) :
    ∃ b₀ b₁ b₂ b₃, (Scalar.unsignedInt value).bytes = [b₀, b₁, b₂, b₃] ∧
      uint32 b₀ b₁ b₂ b₃ = value := by
  refine ⟨_, _, _, _, rfl, ?_⟩
  have hlt : value.toInt32.toUInt32.toNat < 256 ^ 4 := value.toInt32.toUInt32.toNat_lt
  show UInt32.ofNat (leNat (leBytes 4 value.toInt32.toUInt32.toNat)) = value
  rw [leNat_leBytes hlt, UInt32.ofNat_toNat]
  simp

end SessionServer.Common
