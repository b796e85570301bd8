/-
  Common/PacketBounds.lean --- where the writes of a packet end.

  The room test compares the unread bytes, not the write position, with the size of the
  buffer.  Between the two lie the five bytes kept for the header and everything that has been
  read, so a write can pass the test and end behind the buffer.  Which writes do can be told
  from the sizes of the operations alone: they add up to the bytes put and the bytes got.
-/
import SessionServer.Common.SerialBuffer
import SessionServer.Foundation.Run
import SessionServer.Foundation.Simulation

set_option autoImplicit false

namespace SessionServer.Common

open SessionServer.Foundation

/-! ## The bytes of a call -/

/-- A load, for the value that is made of what it loads. -/
theorem SBuffer.load_map {α β : Type} (sb : SBuffer) (n : Nat) (cast : Nat → α) (value : α)
    (make : α → β) : (sb.load n cast value).map id make = if sb.HasData n then
      (sb.moveReadPos n, make (cast (leNat (readBytes sb.buffer sb.read n))))
    else (sb, make value) := by
  unfold SBuffer.load
  split <;> rfl

namespace Scalar

/-- The number an overload stores. -/
def bits : Scalar → Nat
  | unsignedChar value => value.toNat
  | signedChar value => value.toUInt8.toNat
  | char value => value.toUInt8.toNat
  | short value => value.toUInt16.toNat
  | unsignedShort value => value.toNat
  | unsignedInt value => value.toInt32.toUInt32.toNat
  | int value => value.toUInt32.toNat
  | long value => value.toUInt32.toNat
  | float bits => bits.toNat
  | int64 value => value.toUInt64.toNat
  | double bits => bits.toNat

/-- The value an overload makes of the number it loads. -/
def ofBits : ScalarType → Nat → Scalar
  | .unsignedChar, n => unsignedChar (UInt8.ofNat n)
  | .signedChar, n => signedChar (UInt8.ofNat n).toInt8
  | .char, n => char (UInt8.ofNat n).toInt8
  | .short, n => short (UInt16.ofNat n).toInt16
  | .unsignedShort, n => unsignedShort (UInt16.ofNat n)
  | .unsignedInt, n => unsignedInt (UInt32.ofNat n).toInt32.toUInt32
  | .int, n => int (UInt32.ofNat n).toInt32
  | .long, n => long (UInt32.ofNat n).toInt32
  | .float, n => float (UInt32.ofNat n)
  | .int64, n => int64 (UInt64.ofNat n).toInt64
  | .double, n => double (UInt64.ofNat n)

/-- The bytes an overload stores. -/
def bytes (value : Scalar) : List UInt8 := leBytes value.size value.bits

@[simp] theorem bytes_length (value : Scalar) : value.bytes.length = value.size :=
  leBytes_length _ _

theorem put_eq (value : Scalar) (sb : SBuffer) : value.put sb = sb.store value.bytes := by
  cases value <;> rfl

theorem get_eq (into : Scalar) (sb : SBuffer) :
    into.get sb = if sb.HasData into.size then
      (sb.moveReadPos into.size, ofBits into.type (leNat (readBytes sb.buffer sb.read into.size)))
    else (sb, into) := by
  cases into with
  | unsignedChar v => exact sb.load_map 1 UInt8.ofNat v unsignedChar
  | signedChar v => exact sb.load_map 1 (fun n => (UInt8.ofNat n).toInt8) v signedChar
  | char v => exact sb.load_map 1 (fun n => (UInt8.ofNat n).toInt8) v char
  | short v => exact sb.load_map 2 (fun n => (UInt16.ofNat n).toInt16) v short
  | unsignedShort v => exact sb.load_map 2 UInt16.ofNat v unsignedShort
  | unsignedInt v => exact sb.load_map 4 (fun n => (UInt32.ofNat n).toInt32.toUInt32) v unsignedInt
  | int v => exact sb.load_map 4 (fun n => (UInt32.ofNat n).toInt32) v int
  | long v => exact sb.load_map 4 (fun n => (UInt32.ofNat n).toInt32) v long
  | float v => exact sb.load_map 4 UInt32.ofNat v float
  | int64 v => exact sb.load_map 8 (fun n => (UInt64.ofNat n).toInt64) v int64
  | double v => exact sb.load_map 8 UInt64.ofNat v double

end Scalar

namespace SBuffer

/-- How many bytes a call stores. -/
def stored (sb : SBuffer) : PacketOp → Int
  | .put value => if sb.HasRoom value.size then value.size else 0
  | .putData src => min src.length (sb.bufferSize - sb.dataSize)
  | _ => 0

/-- How many bytes a call loads. -/
def loaded (sb : SBuffer) : PacketOp → Int
  | .get into => if sb.HasData into.size then into.size else 0
  | .getData size => min size sb.dataSize
  | _ => 0

/-- A call keeps the write position within the buffer and the data between the positions,
every byte it stores or loads is one of the buffer, and no other byte changes. -/
structure Safe (sb : SBuffer) (op : PacketOp) : Prop where
  write_le : (sb.call op).1.write ≤ sb.bufferSize
  write_eq : (sb.call op).1.read + (sb.call op).1.dataSize = (sb.call op).1.write
  stores : 0 ≤ sb.write ∧ sb.write + sb.stored op ≤ sb.bufferSize
  loads : 0 ≤ sb.read ∧ sb.read + sb.loaded op ≤ sb.bufferSize
  outside : ∀ x, x < 0 ∨ sb.bufferSize ≤ x → (sb.call op).1.buffer x = sb.buffer x

/-- What a call stores ends within the buffer. -/
def Fits (sb : SBuffer) (op : PacketOp) : Prop := sb.write + sb.stored op ≤ sb.bufferSize

instance (sb : SBuffer) (op : PacketOp) : Decidable (sb.Fits op) :=
  inferInstanceAs (Decidable (_ ≤ _))

/-! ## One call -/

/-- **What a call does to the positions.** -/
theorem Placed.call {sb : SBuffer} (h : sb.Placed) (op : PacketOp) :
    (sb.call op).1.Placed ∧ (sb.call op).1.bufferSize = sb.bufferSize ∧
      (sb.call op).1.write = sb.write + sb.stored op ∧
      (sb.call op).1.read = sb.read + sb.loaded op ∧ sb.loaded op ≤ sb.dataSize := by
  have hroom := h.hasRoom
  have hhas := h.hasData
  obtain ⟨hsize, hread, hdata, hle, heq⟩ := h
  cases op with
  | put value =>
      simp only [SBuffer.call, Scalar.put_eq, store, Scalar.bytes_length, stored, loaded]
      split
      · rename_i hfits
        rw [hroom] at hfits
        refine ⟨⟨hsize, hread, ?_, hfits, ?_⟩, rfl, rfl, (Int.add_zero _).symm, hdata⟩
        · show 0 ≤ sb.dataSize + (value.size : Int)
          omega
        · show sb.read + (sb.dataSize + (value.size : Int)) = sb.write + value.size
          omega
      · exact ⟨⟨hsize, hread, hdata, hle, heq⟩, rfl, (Int.add_zero _).symm,
          (Int.add_zero _).symm, hdata⟩
  | get into =>
      simp only [SBuffer.call, Scalar.get_eq, stored, loaded]
      split
      · rename_i hfits
        rw [hhas] at hfits
        refine ⟨⟨hsize, ?_, ?_, ?_, ?_⟩, rfl, (Int.add_zero _).symm, rfl, hfits⟩
        · show 0 ≤ sb.read + (into.size : Int)
          omega
        · show 0 ≤ sb.dataSize - (into.size : Int)
          omega
        · show sb.dataSize - (into.size : Int) ≤ sb.bufferSize
          omega
        · show sb.read + (into.size : Int) + (sb.dataSize - into.size) = sb.write
          omega
      · exact ⟨⟨hsize, hread, hdata, hle, heq⟩, rfl, (Int.add_zero _).symm,
          (Int.add_zero _).symm, hdata⟩
  | putData src =>
      simp only [SBuffer.call, putData, stored, loaded]
      split_ifs with hfull hfits
      · refine ⟨⟨hsize, hread, hdata, hle, heq⟩, rfl, ?_, (Int.add_zero _).symm, hdata⟩
        show sb.write = sb.write + min (src.length : Int) (sb.bufferSize - sb.dataSize)
        omega
      · refine ⟨⟨hsize, hread, ?_, ?_, ?_⟩, rfl, ?_, (Int.add_zero _).symm, hdata⟩ <;>
          dsimp only <;> omega
      · refine ⟨⟨hsize, hread, ?_, ?_, ?_⟩, rfl, ?_, (Int.add_zero _).symm, hdata⟩ <;>
          dsimp only <;> omega
  | getData size =>
      simp only [SBuffer.call, getData, stored, loaded]
      split_ifs with hnone hfits
      · refine ⟨⟨hsize, hread, hdata, hle, heq⟩, rfl, (Int.add_zero _).symm, ?_, by omega⟩
        show sb.read = sb.read + min (size : Int) sb.dataSize
        omega
      · refine ⟨⟨hsize, ?_, ?_, ?_, ?_⟩, rfl, (Int.add_zero _).symm, ?_, by omega⟩ <;>
          dsimp only <;> omega
      · refine ⟨⟨hsize, ?_, ?_, ?_, ?_⟩, rfl, (Int.add_zero _).symm, ?_, by omega⟩ <;>
          dsimp only <;> omega

/-- A call writes to the bytes it stores only. -/
theorem Placed.call_outside {sb : SBuffer} (h : sb.Placed) (op : PacketOp) {x : Int}
    (hx : x < sb.write ∨ sb.write + sb.stored op ≤ x) :
    (sb.call op).1.buffer x = sb.buffer x := by
  have hle := h.data_le
  cases op with
  | put value =>
      simp only [SBuffer.call, Scalar.put_eq, store, Scalar.bytes_length]
      simp only [stored] at hx
      split
      · rename_i hroom
        rw [if_pos hroom] at hx
        exact writeBytes_of_notMem (by rwa [Scalar.bytes_length])
      · rfl
  | get into =>
      simp only [SBuffer.call, Scalar.get_eq]
      split <;> rfl
  | putData src =>
      simp only [SBuffer.call, putData]
      simp only [stored] at hx
      split_ifs with hfull hfits
      · rfl
      · exact writeBytes_of_notMem (by omega)
      · exact writeBytes_of_notMem (by rw [List.length_take]; omega)
  | getData size =>
      simp only [SBuffer.call, getData]
      split_ifs <;> rfl

end SBuffer

/-! ## Whole runs -/

/-- Positions within the buffer. -/
structure InBuffer (sb : SBuffer) : Prop where
  placed : sb.Placed
  write_le : sb.write ≤ sb.bufferSize

theorem InBuffer.safe_iff {sb : SBuffer} (h : InBuffer sb) (op : PacketOp) :
    sb.Safe op ↔ sb.Fits op := by
  obtain ⟨hplaced, hwrite⟩ := h
  obtain ⟨hnext, hsize, hstored, hloaded, hle⟩ := hplaced.call op
  have heq := hplaced.write_eq
  have hread := hplaced.read_nonneg
  have hdata := hplaced.data_nonneg
  constructor
  · intro hsafe
    exact hsafe.stores.2
  · intro hfits
    unfold SBuffer.Fits at hfits
    refine ⟨by omega, hnext.write_eq, ⟨by omega, hfits⟩, ⟨hread, by omega⟩, fun x hx => ?_⟩
    exact hplaced.call_outside op (by omega)

theorem InBuffer.next {sb : SBuffer} (h : InBuffer sb) {op : PacketOp} (hfits : sb.Fits op) :
    InBuffer (sb.call op).1 := by
  obtain ⟨hnext, hsize, hstored, _⟩ := h.placed.call op
  unfold SBuffer.Fits at hfits
  exact ⟨hnext, by omega⟩

theorem InBuffer.cleared (memory : Int → UInt8) : InBuffer (SBuffer.new memory).clear where
  placed := SBuffer.clear_placed memory
  write_le := by
    show (5 : Int) ≤ BUFFER_DEFAULT
    decide

/-- The bytes put into a packet and the bytes got from it, of the operations so far. -/
structure Amounts where
  put : Nat
  got : Nat

namespace Amounts

def next (a : Amounts) : PacketOp → Amounts
  | .put value =>
      { a with put := a.put + if a.put - a.got + value.size ≤ 300 then value.size else 0 }
  | .get into => { a with got := a.got + if into.size ≤ a.put - a.got then into.size else 0 }
  | .putData src => { a with put := a.put + src.length }
  | .getData size => { a with got := a.got + min size (a.put - a.got) }

/-- The operation puts more bytes than are left of 295; a value that the bytes not yet got
leave no room for among 300 is refused instead. -/
def Overruns (a : Amounts) : PacketOp → Prop
  | .put value => 295 < a.put + value.size ∧ a.put - a.got + value.size ≤ 300
  | .putData src => 295 < a.put + src.length
  | _ => False

instance (a : Amounts) : (op : PacketOp) → Decidable (a.Overruns op)
  | .put _ => inferInstanceAs (Decidable (_ ∧ _))
  | .putData _ => inferInstanceAs (Decidable (_ < _))
  | .get _ => inferInstanceAs (Decidable False)
  | .getData _ => inferInstanceAs (Decidable False)

end Amounts

/-- The positions of a packet in its buffer are those of the amounts. -/
structure Amounts.Of (sb : SBuffer) (a : Amounts) : Prop where
  inBuffer : InBuffer sb
  put : sb.write = 5 + a.put
  got : sb.read = 5 + a.got

namespace Amounts.Of

variable {sb : SBuffer} {a : Amounts}

theorem unread (h : Amounts.Of sb a) : sb.dataSize = (a.put : Int) - a.got := by
  have heq := h.inBuffer.placed.write_eq
  have hput := h.put
  have hgot := h.got
  omega

theorem got_le (h : Amounts.Of sb a) : a.got ≤ a.put := by
  have hunread := h.unread
  have hdata := h.inBuffer.placed.data_nonneg
  omega

theorem put_le (h : Amounts.Of sb a) : a.put ≤ 295 := by
  have hle := h.inBuffer.write_le
  rw [h.inBuffer.placed.size, h.put, BUFFER_DEFAULT] at hle
  omega

/-- In a safe packet the amounts tell which write ends behind the buffer. -/
theorem fits_iff (h : Amounts.Of sb a) (op : PacketOp) : sb.Fits op ↔ ¬ a.Overruns op := by
  have hsize : sb.bufferSize = 300 := h.inBuffer.placed.size
  have hroom := h.inBuffer.placed.hasRoom
  have hunread := h.unread
  have hgot := h.got_le
  have hput := h.put_le
  have hwrite := h.put
  unfold SBuffer.Fits
  cases op with
  | put value =>
      simp only [SBuffer.stored, hroom, Overruns]
      split <;> omega
  | get into => exact iff_of_true (by simp only [SBuffer.stored]; omega) not_false
  | putData src =>
      simp only [SBuffer.stored, Overruns]
      omega
  | getData size => exact iff_of_true (by simp only [SBuffer.stored]; omega) not_false

/-- A write that does not end behind the buffer adds up. -/
theorem step (h : Amounts.Of sb a) {op : PacketOp} (hfits : ¬ a.Overruns op) :
    Amounts.Of (sb.call op).1 (a.next op) := by
  have hsize : sb.bufferSize = 300 := h.inBuffer.placed.size
  have hroom := h.inBuffer.placed.hasRoom
  have hhas := h.inBuffer.placed.hasData
  have hunread := h.unread
  have hgot := h.got_le
  have hput := h.put_le
  obtain ⟨_, _, hwrite, hread, _⟩ := h.inBuffer.placed.call op
  rw [h.put] at hwrite
  rw [h.got] at hread
  refine ⟨h.inBuffer.next ((h.fits_iff op).mpr hfits), hwrite.trans ?_, hread.trans ?_⟩
  · cases op with
    | put value =>
        simp only [SBuffer.stored, hroom, Amounts.next]
        split_ifs <;> omega
    | get into =>
        simp only [SBuffer.stored, Amounts.next]
        omega
    | putData src =>
        simp only [SBuffer.stored, Amounts.next]
        simp only [Overruns] at hfits
        omega
    | getData size =>
        simp only [SBuffer.stored, Amounts.next]
        omega
  · cases op with
    | put value =>
        simp only [SBuffer.loaded, Amounts.next]
        omega
    | get into =>
        simp only [SBuffer.loaded, hhas, Amounts.next]
        split_ifs <;> omega
    | putData src =>
        simp only [SBuffer.loaded, Amounts.next]
        omega
    | getData size =>
        simp only [SBuffer.loaded, Amounts.next]
        omega

end Amounts.Of

/-- **Packet writes stay inside the buffer** exactly where no operation puts more than what the
operations before it have left of 295 bytes. -/
theorem packet_in_bounds_iff (memory : Int → UInt8) (ops : List PacketOp) :
    (∀ done op rest, ops = done ++ op :: rest →
      (after SBuffer.call (SBuffer.new memory).clear done).Safe op) ↔
      ∀ done op rest, ops = done ++ op :: rest →
        ¬ (done.foldl Amounts.next ⟨0, 0⟩).Overruns op := by
  have hstart : Amounts.Of (SBuffer.new memory).clear ⟨0, 0⟩ :=
    ⟨InBuffer.cleared memory, rfl, rfl⟩
  have hiff : ∀ (sb : SBuffer) (a : Amounts) (op : PacketOp), Amounts.Of sb a →
      (sb.Safe op ↔ ¬ a.Overruns op) :=
    fun _ _ op h => (h.inBuffer.safe_iff op).trans (h.fits_iff op)
  have hkeep : ∀ (sb : SBuffer) (a : Amounts) (op : PacketOp), Amounts.Of sb a →
      ¬ a.Overruns op → Amounts.Of (sb.call op).1 (a.next op) := fun _ _ _ h => h.step
  exact foldl_forall_iff_beside hiff hkeep hstart

/-- Thirty-seven eight-byte values: the last one passes the room test with 12 bytes unused
and ends one byte behind the buffer. -/
def thirtySevenWords : List PacketOp := List.replicate 37 (.put (.int64 0))

theorem thirtySevenWords_overrun :
    ¬ ∀ done op rest, thirtySevenWords = done ++ op :: rest →
      (after SBuffer.call (SBuffer.new fun _ => 0).clear done).Safe op := by
  intro h
  have hlast := h (List.replicate 36 (.put (.int64 0))) (.put (.int64 0)) [] (by decide)
  have hover : ¬ (after SBuffer.call (SBuffer.new fun _ => 0).clear
      (List.replicate 36 (.put (.int64 0)))).Fits (.put (.int64 0)) := by
    decide +kernel
  exact hover hlast.stores.2

/-- Seven bytes are left of 300 then, and a thirty-seventh value of eight bytes is refused. -/
example :
    ¬ (([.put (.int 0), .put (.char 0)] ++ List.replicate 36 (.put (.int64 0)) :
      List PacketOp).foldl Amounts.next ⟨0, 0⟩).Overruns (.put (.int64 0)) := by decide

end SessionServer.Common
