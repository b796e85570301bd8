/-
  Common/SerialBuffer.lean --- the buffer of a packet and the operators of `CPacket`.

  `SBuffer` of `SerialBuffer.h`, with its positions as the signed integers they are, and the
  overloads of `CPacket::operator<<` and `operator>>`.  An overload is the common body applied
  to the bytes its pointer type stores or loads; a `float` and a `double` are copied as the
  bits they are.
-/
import SessionServer.Common.Memory

set_option autoImplicit false

namespace SessionServer.Common

/-- `SBuffer::BUFFER_DEFAULT`. -/
def BUFFER_DEFAULT : Int := 300

structure SBuffer where
  bufferSize : Int
  buffer : Int → UInt8
  read : Int
  write : Int
  dataSize : Int
  eFlag : Bool

/-- An `int` compared with a `sizeof`: it is converted to `size_t`. -/
def toSizeT (n : Int) : Int := n % 2 ^ 64

namespace SBuffer

/-- The default constructor; `malloc` leaves the memory as it finds it. -/
def new (memory : Int → UInt8) : SBuffer where
  bufferSize := BUFFER_DEFAULT
  buffer := memory
  read := 0
  write := 0
  dataSize := 0
  eFlag := false

def clear (sb : SBuffer) : SBuffer :=
  { sb with read := 5, write := 5, dataSize := 0, eFlag := false }

def clearAtLServer (sb : SBuffer) : SBuffer :=
  { sb with read := 3, write := 3, dataSize := 0, eFlag := false }

def clearAtNServer (sb : SBuffer) : SBuffer :=
  { sb with read := 0, write := 0, dataSize := 0, eFlag := false }

def moveWritePos (sb : SBuffer) (size : Int) : SBuffer :=
  { sb with write := sb.write + size, dataSize := sb.dataSize + size }

def moveReadPos (sb : SBuffer) (size : Int) : SBuffer :=
  { sb with read := sb.read + size, dataSize := sb.dataSize - size }

/-- The test of `operator<<` for a value of `n` bytes. -/
def HasRoom (sb : SBuffer) (n : Nat) : Prop := toSizeT (sb.bufferSize - sb.dataSize) ≥ n

/-- The test of `operator>>` for a value of `n` bytes. -/
def HasData (sb : SBuffer) (n : Nat) : Prop := toSizeT sb.dataSize ≥ n

instance (sb : SBuffer) (n : Nat) : Decidable (sb.HasRoom n) :=
  inferInstanceAs (Decidable (_ ≥ _))

instance (sb : SBuffer) (n : Nat) : Decidable (sb.HasData n) :=
  inferInstanceAs (Decidable (_ ≥ _))

/-- The common body of the overloads of `operator<<`, for the bytes that are stored. -/
def store (sb : SBuffer) (bytes : List UInt8) : SBuffer :=
  if sb.HasRoom bytes.length then
    { sb with buffer := writeBytes sb.buffer sb.write bytes }.moveWritePos bytes.length
  else sb

/-- The common body of the overloads of `operator>>` into a variable with the value `value`;
`cast` makes a value of the `n` bytes loaded. -/
def load {α : Type} (sb : SBuffer) (n : Nat) (cast : Nat → α) (value : α) : SBuffer × α :=
  if sb.HasData n then
    (sb.moveReadPos n, cast (leNat (readBytes sb.buffer sb.read n)))
  else (sb, value)

/-- `GetData`: what it returns and the bytes it copies.  Where it takes all there is, it
returns `DataSize` once that is 0. -/
def getData (sb : SBuffer) (size : Int) : SBuffer × Int × List UInt8 :=
  if sb.dataSize = 0 then (sb, 0, [])
  else if sb.dataSize ≥ size then
    ({ sb with read := sb.read + size, dataSize := sb.dataSize - size }, size,
      readBytes sb.buffer sb.read size)
  else
    ({ sb with read := sb.read + sb.dataSize, dataSize := 0 }, 0,
      readBytes sb.buffer sb.read sb.dataSize)

/-- `PutData` of the bytes `src`, and what it returns. -/
def putData (sb : SBuffer) (src : List UInt8) : SBuffer × Int :=
  if sb.dataSize = sb.bufferSize then (sb, 0)
  else if sb.bufferSize - sb.dataSize ≥ src.length then
    ({ sb with
        buffer := writeBytes sb.buffer sb.write src
        write := sb.write + src.length
        dataSize := sb.dataSize + src.length }, src.length)
  else
    let size := sb.bufferSize - sb.dataSize
    ({ sb with
        buffer := writeBytes sb.buffer sb.write (src.take size.toNat)
        write := sb.write + size
        dataSize := sb.dataSize + size }, size)

end SBuffer

/-! ## The overloads -/

namespace CPacket

def putUnsignedChar (sb : SBuffer) (value : UInt8) : SBuffer :=
  sb.store (leBytes 1 value.toNat)

/-- Stored through an `unsigned char*`. -/
def putSignedChar (sb : SBuffer) (value : Int8) : SBuffer :=
  sb.store (leBytes 1 value.toUInt8.toNat)

def putChar (sb : SBuffer) (value : Int8) : SBuffer :=
  sb.store (leBytes 1 value.toUInt8.toNat)

def putShort (sb : SBuffer) (value : Int16) : SBuffer :=
  sb.store (leBytes 2 value.toUInt16.toNat)

def putUnsignedShort (sb : SBuffer) (value : UInt16) : SBuffer :=
  sb.store (leBytes 2 value.toNat)

/-- Stored through an `int*`. -/
def putUnsignedInt (sb : SBuffer) (value : UInt32) : SBuffer :=
  sb.store (leBytes 4 value.toInt32.toUInt32.toNat)

def putInt (sb : SBuffer) (value : Int32) : SBuffer :=
  sb.store (leBytes 4 value.toUInt32.toNat)

/-- A `long` has four bytes here. -/
def putLong (sb : SBuffer) (value : Int32) : SBuffer :=
  sb.store (leBytes 4 value.toUInt32.toNat)

def putFloat (sb : SBuffer) (bits : UInt32) : SBuffer :=
  sb.store (leBytes 4 bits.toNat)

def putInt64 (sb : SBuffer) (value : Int64) : SBuffer :=
  sb.store (leBytes 8 value.toUInt64.toNat)

def putDouble (sb : SBuffer) (bits : UInt64) : SBuffer :=
  sb.store (leBytes 8 bits.toNat)

def getUnsignedChar (sb : SBuffer) (value : UInt8) : SBuffer × UInt8 :=
  sb.load 1 UInt8.ofNat value

/-- Loaded through a `char*`. -/
def getSignedChar (sb : SBuffer) (value : Int8) : SBuffer × Int8 :=
  sb.load 1 (fun n => (UInt8.ofNat n).toInt8) value

def getChar (sb : SBuffer) (value : Int8) : SBuffer × Int8 :=
  sb.load 1 (fun n => (UInt8.ofNat n).toInt8) value

def getShort (sb : SBuffer) (value : Int16) : SBuffer × Int16 :=
  sb.load 2 (fun n => (UInt16.ofNat n).toInt16) value

def getUnsignedShort (sb : SBuffer) (value : UInt16) : SBuffer × UInt16 :=
  sb.load 2 UInt16.ofNat value

/-- Loaded through an `int*`. -/
def getUnsignedInt (sb : SBuffer) (value : UInt32) : SBuffer × UInt32 :=
  sb.load 4 (fun n => (UInt32.ofNat n).toInt32.toUInt32) value

def getInt (sb : SBuffer) (value : Int32) : SBuffer × Int32 :=
  sb.load 4 (fun n => (UInt32.ofNat n).toInt32) value

def getLong (sb : SBuffer) (value : Int32) : SBuffer × Int32 :=
  sb.load 4 (fun n => (UInt32.ofNat n).toInt32) value

def getFloat (sb : SBuffer) (bits : UInt32) : SBuffer × UInt32 :=
  sb.load 4 UInt32.ofNat bits

def getInt64 (sb : SBuffer) (value : Int64) : SBuffer × Int64 :=
  sb.load 8 (fun n => (UInt64.ofNat n).toInt64) value

def getDouble (sb : SBuffer) (bits : UInt64) : SBuffer × UInt64 :=
  sb.load 8 UInt64.ofNat bits

end CPacket

/-! ## Values of the operators' types -/

/-- The types `operator<<` and `operator>>` are overloaded for. -/
inductive ScalarType where
  | unsignedChar
  | signedChar
  | char
  | short
  | unsignedShort
  | unsignedInt
  | int
  | long
  | float
  | int64
  | double
  deriving DecidableEq

/-- A value, under the type its overload is chosen by. -/
inductive Scalar where
  | unsignedChar (value : UInt8)
  | signedChar (value : Int8)
  | char (value : Int8)
  | short (value : Int16)
  | unsignedShort (value : UInt16)
  | unsignedInt (value : UInt32)
  | int (value : Int32)
  | long (value : Int32)
  | float (bits : UInt32)
  | int64 (value : Int64)
  | double (bits : UInt64)
  deriving DecidableEq

namespace Scalar

def type : Scalar → ScalarType
  | unsignedChar _ => .unsignedChar
  | signedChar _ => .signedChar
  | char _ => .char
  | short _ => .short
  | unsignedShort _ => .unsignedShort
  | unsignedInt _ => .unsignedInt
  | int _ => .int
  | long _ => .long
  | float _ => .float
  | int64 _ => .int64
  | double _ => .double

/-- `sizeof`. -/
def size : Scalar → Nat
  | unsignedChar _ => 1
  | signedChar _ => 1
  | char _ => 1
  | short _ => 2
  | unsignedShort _ => 2
  | unsignedInt _ => 4
  | int _ => 4
  | long _ => 4
  | float _ => 4
  | int64 _ => 8
  | double _ => 8

/-- `packet << value`. -/
def put (sb : SBuffer) : Scalar → SBuffer
  | unsignedChar value => CPacket.putUnsignedChar sb value
  | signedChar value => CPacket.putSignedChar sb value
  | char value => CPacket.putChar sb value
  | short value => CPacket.putShort sb value
  | unsignedShort value => CPacket.putUnsignedShort sb value
  | unsignedInt value => CPacket.putUnsignedInt sb value
  | int value => CPacket.putInt sb value
  | long value => CPacket.putLong sb value
  | float bits => CPacket.putFloat sb bits
  | int64 value => CPacket.putInt64 sb value
  | double bits => CPacket.putDouble sb bits

/-- `packet >> variable`, and the value of the variable after it. -/
def get (sb : SBuffer) : Scalar → SBuffer × Scalar
  | unsignedChar value => (CPacket.getUnsignedChar sb value).map id unsignedChar
  | signedChar value => (CPacket.getSignedChar sb value).map id signedChar
  | char value => (CPacket.getChar sb value).map id char
  | short value => (CPacket.getShort sb value).map id short
  | unsignedShort value => (CPacket.getUnsignedShort sb value).map id unsignedShort
  | unsignedInt value => (CPacket.getUnsignedInt sb value).map id unsignedInt
  | int value => (CPacket.getInt sb value).map id int
  | long value => (CPacket.getLong sb value).map id long
  | float bits => (CPacket.getFloat sb bits).map id float
  | int64 value => (CPacket.getInt64 sb value).map id int64
  | double bits => (CPacket.getDouble sb bits).map id double

end Scalar

/-- A call on a packet: an operator with its value or variable, or a copy. -/
inductive PacketOp where
  | put (value : Scalar)
  | get (into : Scalar)
  | putData (src : List UInt8)
  | getData (size : Nat)
  deriving DecidableEq

/-- What a call leaves in the caller's variable, returns, and copies to the caller. -/
inductive PacketAnswer where
  | done
  | read (value : Scalar)
  | put (size : Int)
  | got (size : Int) (bytes : List UInt8)
  deriving DecidableEq

def SBuffer.call (sb : SBuffer) : PacketOp → SBuffer × PacketAnswer
  | .put value => (value.put sb, .done)
  | .get into => ((into.get sb).1, .read (into.get sb).2)
  | .putData src => ((sb.putData src).1, .put (sb.putData src).2)
  | .getData size => ((sb.getData size).1, .got (sb.getData size).2.1 (sb.getData size).2.2)

/-! ## Positions -/

namespace SBuffer

/-- What holds of the positions whatever is called: the data are between the two, and no
more than the buffer is long. -/
structure Placed (sb : SBuffer) : Prop where
  size : sb.bufferSize = BUFFER_DEFAULT
  read_nonneg : 0 ≤ sb.read
  data_nonneg : 0 ≤ sb.dataSize
  data_le : sb.dataSize ≤ sb.bufferSize
  write_eq : sb.read + sb.dataSize = sb.write

theorem toSizeT_of_nonneg {n : Int} (h : 0 ≤ n) (hle : n ≤ BUFFER_DEFAULT) : toSizeT n = n := by
  unfold BUFFER_DEFAULT at hle
  exact Int.emod_eq_of_lt h (by omega)

theorem Placed.hasRoom {sb : SBuffer} (h : sb.Placed) (n : Nat) :
    sb.HasRoom n ↔ sb.dataSize + n ≤ sb.bufferSize := by
  have hsize := h.size
  have hdata := h.data_nonneg
  have hle := h.data_le
  rw [HasRoom, toSizeT_of_nonneg (by omega) (by omega)]
  constructor <;> intro hn <;> omega

theorem Placed.hasData {sb : SBuffer} (h : sb.Placed) (n : Nat) :
    sb.HasData n ↔ n ≤ sb.dataSize := by
  have hsize := h.size
  have hle := h.data_le
  rw [HasData, toSizeT_of_nonneg h.data_nonneg (by omega)]

theorem clear_placed (memory : Int → UInt8) : (new memory).clear.Placed := by
  constructor <;> simp [new, clear, BUFFER_DEFAULT]

end SBuffer

end SessionServer.Common
