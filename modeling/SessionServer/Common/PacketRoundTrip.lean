/-
  Common/PacketRoundTrip.lean --- typed values through a packet.

  Values written with `operator<<` to a cleared packet come out of `operator>>` as they were
  put in, in whatever way the reads come between the writes.  Between the two positions lie
  the bytes of the values written and not yet read.
-/
import SessionServer.Common.PacketBounds

set_option autoImplicit false

namespace SessionServer.Common

open SessionServer.Foundation

/-- An operator on a packet: `<<` of a value or `>>` into a variable. -/
inductive ScalarOp where
  | put (value : Scalar)
  | get (into : Scalar)
  deriving DecidableEq

def ScalarOp.call : ScalarOp → PacketOp
  | put value => .put value
  | get into => .get into

/-- The values written. -/
def written (ops : List ScalarOp) : List Scalar :=
  ops.filterMap fun op => match op with
    | .put value => some value
    | .get _ => none

/-- The variables read into, with the values they have before. -/
def readInto (ops : List ScalarOp) : List Scalar :=
  ops.filterMap fun op => match op with
    | .put _ => none
    | .get into => some into

/-- The values the variables get. -/
def valuesRead (results : List PacketAnswer) : List Scalar :=
  results.filterMap fun result => match result with
    | .read value => some value
    | _ => none

/-- The reads ask for the types written, in their order, and never run ahead. -/
def InOrder (ops : List ScalarOp) : Prop :=
  ∀ done, done <+: ops → (readInto done).map Scalar.type <+: (written done).map Scalar.type

/-- The bytes between the positions are those of the values still to be read. -/
structure Carries (sb : SBuffer) (pending : List Scalar) : Prop where
  placed : sb.Placed
  size : sb.dataSize = ((pending.map Scalar.size).sum : Nat)
  bytes : readBytes sb.buffer sb.read sb.dataSize = pending.flatMap Scalar.bytes

/-! ## Values and their bytes -/

namespace Scalar

theorem bits_lt : (value : Scalar) → value.bits < 256 ^ value.size
  | unsignedChar value => value.toNat_lt
  | signedChar value => value.toUInt8.toNat_lt
  | char value => value.toUInt8.toNat_lt
  | short value => value.toUInt16.toNat_lt
  | unsignedShort value => value.toNat_lt
  | unsignedInt value => value.toInt32.toUInt32.toNat_lt
  | int value => value.toUInt32.toNat_lt
  | long value => value.toUInt32.toNat_lt
  | float bits => bits.toNat_lt
  | int64 value => value.toUInt64.toNat_lt
  | double bits => bits.toNat_lt

theorem ofBits_bits (value : Scalar) : ofBits value.type value.bits = value := by
  cases value <;> simp [ofBits, type, bits]

/-- The overloads of one type agree on width and sign. -/
theorem ofBits_bytes (value : Scalar) : ofBits value.type (leNat value.bytes) = value := by
  rw [bytes, leNat_leBytes value.bits_lt, ofBits_bits]

theorem size_of_type {value into : Scalar} (htype : into.type = value.type) :
    into.size = value.size := by
  cases value <;> cases into <;> first | rfl | cases htype

end Scalar

/-! ## One operator -/

theorem Carries.put {sb : SBuffer} {pending : List Scalar} (h : Carries sb pending)
    (value : Scalar) (hfit : (pending.map Scalar.size).sum + value.size ≤ 295) :
    Carries (value.put sb) (pending ++ [value]) := by
  obtain ⟨hplaced, hsize, hbytes⟩ := h
  have hbuffer := hplaced.size
  have hwrite := hplaced.write_eq
  have hdata := hplaced.data_nonneg
  have hroom : sb.HasRoom value.bytes.length := by
    rw [hplaced.hasRoom, Scalar.bytes_length, hbuffer, BUFFER_DEFAULT]
    omega
  have hnext := (hplaced.call (.put value)).1
  simp only [SBuffer.call] at hnext
  refine ⟨hnext, ?_, ?_⟩
  · rw [Scalar.put_eq, SBuffer.store, if_pos hroom, SBuffer.moveWritePos]
    simp only [Scalar.bytes_length, List.map_append, List.sum_append, List.map_cons, List.map_nil,
      List.sum_cons, List.sum_nil]
    omega
  · rw [Scalar.put_eq, SBuffer.store, if_pos hroom, SBuffer.moveWritePos]
    simp only
    rw [readBytes_append _ _ hdata (by omega), hwrite, readBytes_writeBytes, List.flatMap_append,
      ← hbytes, List.flatMap_singleton]
    refine congrArg₂ (· ++ ·) (readBytes_congr fun x _ hx => ?_) rfl
    exact writeBytes_of_notMem (Or.inl (by omega))

theorem Carries.get {sb : SBuffer} {pending : List Scalar} {value into : Scalar}
    (h : Carries sb (value :: pending)) (htype : into.type = value.type) :
    (into.get sb).2 = value ∧ Carries (into.get sb).1 pending := by
  obtain ⟨hplaced, hsize, hbytes⟩ := h
  rw [List.map_cons, List.sum_cons] at hsize
  have hhas : sb.HasData into.size := by
    rw [hplaced.hasData, Scalar.size_of_type htype]
    omega
  have hsplit := readBytes_append sb.buffer sb.read (m := value.size)
    (n := ((pending.map Scalar.size).sum : Nat)) (by omega) (by omega)
  rw [← Int.natCast_add, ← hsize, hbytes, List.flatMap_cons] at hsplit
  obtain ⟨hfirst, hrest⟩ := List.append_inj hsplit (by simp)
  have hnext := (hplaced.call (.get into)).1
  simp only [SBuffer.call] at hnext
  rw [Scalar.get_eq, if_pos hhas] at hnext ⊢
  rw [Scalar.size_of_type htype] at hnext ⊢
  refine ⟨?_, hnext, ?_, ?_⟩
  · show Scalar.ofBits into.type (leNat (readBytes sb.buffer sb.read value.size)) = value
    rw [← hfirst, htype, Scalar.ofBits_bytes]
  · show sb.dataSize - (value.size : Int) = _
    omega
  · show readBytes sb.buffer (sb.read + value.size) (sb.dataSize - value.size) = _
    rw [hrest, hsize]
    congr 1
    omega

/-! ## Whole runs -/

@[simp] theorem written_append (ops more : List ScalarOp) :
    written (ops ++ more) = written ops ++ written more := List.filterMap_append

@[simp] theorem readInto_append (ops more : List ScalarOp) :
    readInto (ops ++ more) = readInto ops ++ readInto more := List.filterMap_append

/-- The packet after the operators `ops`. -/
def packetAfter (memory : Int → UInt8) (ops : List ScalarOp) : SBuffer :=
  after SBuffer.call (SBuffer.new memory).clear (ops.map ScalarOp.call)

/-- What the reads among the operators `ops` give. -/
def packetReads (memory : Int → UInt8) (ops : List ScalarOp) : List Scalar :=
  valuesRead (answers SBuffer.call (SBuffer.new memory).clear (ops.map ScalarOp.call))

theorem packetAfter_concat (memory : Int → UInt8) (ops : List ScalarOp) (op : ScalarOp) :
    packetAfter memory (ops ++ [op]) = ((packetAfter memory ops).call op.call).1 := by
  rw [packetAfter, List.map_append, after_append]
  rfl

theorem packetReads_concat (memory : Int → UInt8) (ops : List ScalarOp) (op : ScalarOp) :
    packetReads memory (ops ++ [op]) =
      packetReads memory ops ++ valuesRead [((packetAfter memory ops).call op.call).2] := by
  rw [packetReads, List.map_append, answers_append]
  exact List.filterMap_append

theorem InOrder.init {ops : List ScalarOp} {op : ScalarOp} (h : InOrder (ops ++ [op])) :
    InOrder ops := fun _ hdone => h _ (hdone.trans (List.prefix_append _ _))

/-- A read that is in order finds a value of its type pending. -/
theorem InOrder.pending {ops : List ScalarOp} {into : Scalar}
    (h : InOrder (ops ++ [.get into])) : ∃ value,
      (written ops).drop (readInto ops).length =
        value :: (written ops).drop ((readInto ops).length + 1) ∧ into.type = value.type := by
  have horder := h _ (List.prefix_refl _)
  simp only [written_append, readInto_append, List.map_append] at horder
  change _ ++ [into.type] <+: _ ++ [] at horder
  rw [List.append_nil] at horder
  have hlength := horder.length_le
  simp only [List.length_append, List.length_map, List.length_singleton] at hlength
  have hlt : (readInto ops).length < (written ops).length := by omega
  refine ⟨(written ops)[(readInto ops).length], List.drop_eq_getElem_cons hlt, ?_⟩
  have hat := horder.getElem (i := (readInto ops).length) (by simp)
  simpa using hat

theorem InOrder.length_le {ops : List ScalarOp} (h : InOrder ops) :
    (readInto ops).length ≤ (written ops).length := by
  have hlength := (h _ (List.prefix_refl ops)).length_le
  rwa [List.length_map, List.length_map] at hlength

/-- The written values not yet read are in the packet, and the others have been returned. -/
theorem packet_carries (memory : Int → UInt8) (ops : List ScalarOp)
    (hsum : ((written ops).map Scalar.size).sum ≤ 295) (horder : InOrder ops) :
    Carries (packetAfter memory ops) ((written ops).drop (readInto ops).length) ∧
      packetReads memory ops = (written ops).take (readInto ops).length := by
  induction ops using List.reverseRecOn with
  | nil => exact ⟨⟨SBuffer.clear_placed memory, rfl, rfl⟩, rfl⟩
  | append_singleton ops op ih =>
      rw [packetAfter_concat, packetReads_concat]
      cases op with
      | put value =>
          have hwritten : written (ops ++ [.put value]) = written ops ++ [value] :=
            written_append _ _
          have hread : readInto (ops ++ [.put value]) = readInto ops :=
            (readInto_append _ _).trans (List.append_nil _)
          rw [hwritten] at hsum ⊢
          rw [hread]
          simp only [List.map_append, List.sum_append, List.map_cons, List.map_nil,
            List.sum_cons, List.sum_nil] at hsum
          obtain ⟨hcarries, hreads⟩ := ih (by omega) horder.init
          have hle := horder.init.length_le
          have hpending : (((written ops).drop (readInto ops).length).map Scalar.size).sum ≤
              ((written ops).map Scalar.size).sum :=
            ((List.drop_sublist _ _).map _).sum_le_sum fun _ _ => Nat.zero_le _
          rw [List.drop_append_of_le_length hle, List.take_append_of_le_length hle, hreads]
          exact ⟨hcarries.put value (by omega), List.append_nil _⟩
      | get into =>
          have hwritten : written (ops ++ [.get into]) = written ops :=
            (written_append _ _).trans (List.append_nil _)
          have hread : readInto (ops ++ [.get into]) = readInto ops ++ [into] :=
            readInto_append _ _
          rw [hwritten] at hsum ⊢
          rw [hread, List.length_append, List.length_singleton]
          obtain ⟨hcarries, hreads⟩ := ih hsum horder.init
          obtain ⟨value, hdrop, htype⟩ := horder.pending
          rw [hdrop] at hcarries
          obtain ⟨hvalue, hnext⟩ := hcarries.get htype
          refine ⟨hnext, ?_⟩
          rw [hreads, List.take_add_one, ← List.head?_drop, hdrop]
          show _ ++ [(into.get _).2] = _
          rw [hvalue]
          rfl

/-- **Typed values round-trip**: reads in the order of the writes return what was written,
and once everything has been read the packet is empty. -/
theorem packet_round_trips (memory : Int → UInt8) (ops : List ScalarOp)
    (hsum : ((written ops).map Scalar.size).sum ≤ 295) (horder : InOrder ops) :
    packetReads memory ops = (written ops).take (readInto ops).length ∧
      ((readInto ops).length = (written ops).length →
        (packetAfter memory ops).dataSize = 0 ∧
          (packetAfter memory ops).read = (packetAfter memory ops).write) := by
  obtain ⟨hcarries, hreads⟩ := packet_carries memory ops hsum horder
  refine ⟨hreads, fun hall => ?_⟩
  have hsize := hcarries.size
  have hwrite := hcarries.placed.write_eq
  rw [hall, List.drop_length] at hsize
  have hzero : (packetAfter memory ops).dataSize = 0 := hsize
  exact ⟨hzero, by omega⟩

/-- A negative number and one as large as its type allows, with a read in between. -/
def signedAndUnsigned : List ScalarOp :=
  [.put (.short (-2)), .put (.unsignedInt 4294967295), .get (.short 0), .put (.int64 (-1)),
    .get (.unsignedInt 0), .get (.int64 7)]

theorem signedAndUnsigned_returned :
    packetReads (fun _ => 0) signedAndUnsigned =
        [.short (-2), .unsignedInt 4294967295, .int64 (-1)] ∧
      (packetAfter (fun _ => 0) signedAndUnsigned).dataSize = 0 ∧
      (packetAfter (fun _ => 0) signedAndUnsigned).read =
        (packetAfter (fun _ => 0) signedAndUnsigned).write := by
  have horder : InOrder signedAndUnsigned := by
    have hinits : ∀ done ∈ signedAndUnsigned.inits,
        (readInto done).map Scalar.type <+: (written done).map Scalar.type := by decide
    exact fun done hdone => hinits done ((List.mem_inits _ _).2 hdone)
  obtain ⟨hreads, hempty⟩ :=
    packet_round_trips (fun _ => 0) signedAndUnsigned (by decide) horder
  exact ⟨hreads, hempty rfl⟩

end SessionServer.Common
