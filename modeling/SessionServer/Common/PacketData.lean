/-
  Common/PacketData.lean --- what `PutData` and `GetData` return.

  Both are to return how many bytes they have moved.  `GetData` returns `DataSize` after it
  has set it to 0 where it takes all there is, so a caller that asks for more than that is
  told it got nothing.
-/
import SessionServer.Common.SerialBuffer
import SessionServer.Foundation.Run
import SessionServer.Foundation.Simulation

set_option autoImplicit false

namespace SessionServer.Common

open SessionServer.Foundation

/-- A call of `PutData` or `GetData`. -/
def PacketOp.IsData : PacketOp → Prop
  | .putData _ => True
  | .getData _ => True
  | _ => False

instance : (op : PacketOp) → Decidable op.IsData
  | .put _ => instDecidableFalse
  | .get _ => instDecidableFalse
  | .putData _ => instDecidableTrue
  | .getData _ => instDecidableTrue

/-- What a caller counts as put into the buffer, less what it counts as taken out. -/
def PacketAnswer.gain : PacketAnswer → Int
  | .put size => size
  | .got size _ => -size
  | _ => 0

namespace SBuffer

/-- A cleared buffer: nothing is in it, and the positions are at the start of the data. -/
structure Cleared (sb : SBuffer) : Prop where
  size : 0 ≤ sb.bufferSize
  dataSize : sb.dataSize = 0
  write : sb.write = sb.read

theorem clear_cleared (sb : SBuffer) (h : 0 ≤ sb.bufferSize) : sb.clear.Cleared := ⟨h, rfl, rfl⟩

theorem clearAtLServer_cleared (sb : SBuffer) (h : 0 ≤ sb.bufferSize) :
    sb.clearAtLServer.Cleared := ⟨h, rfl, rfl⟩

theorem clearAtNServer_cleared (sb : SBuffer) (h : 0 ≤ sb.bufferSize) :
    sb.clearAtNServer.Cleared := ⟨h, rfl, rfl⟩

/-- The bytes that have been put and not been taken, oldest first. -/
def unread (sb : SBuffer) : List UInt8 := readBytes sb.buffer sb.read sb.dataSize

/-- The sum of the results of `PutData`, less that of `GetData`. -/
def balance (sb : SBuffer) (ops : List PacketOp) : Int :=
  ((answers SBuffer.call sb ops).map PacketAnswer.gain).sum

/-- A call moves the bytes it is to move and returns their number. -/
def Reports (sb : SBuffer) : PacketOp → Prop
  | .putData src =>
      (sb.putData src).2 = min (src.length : Int) (sb.bufferSize - sb.dataSize) ∧
        (sb.putData src).1.unread = sb.unread ++ src.take (sb.putData src).2.toNat
  | .getData n =>
      (sb.getData n).2.1 = min (n : Int) sb.dataSize ∧
        (sb.getData n).2.2 = sb.unread.take n ∧ (sb.getData n).1.unread = sb.unread.drop n
  | _ => True

/-- A `GetData` asks for no more than there is, or there is nothing. -/
def Asks (sb : SBuffer) : PacketOp → Prop
  | .getData n => (n : Int) ≤ sb.dataSize ∨ sb.dataSize = 0
  | _ => True

instance (sb : SBuffer) : (op : PacketOp) → Decidable (sb.Asks op)
  | .put _ => instDecidableTrue
  | .get _ => instDecidableTrue
  | .putData _ => instDecidableTrue
  | .getData _ => inferInstanceAs (Decidable (_ ∨ _))

/-- The data are between the positions, and no more than the buffer holds. -/
structure Lined (sb : SBuffer) : Prop where
  nonneg : 0 ≤ sb.dataSize
  le : sb.dataSize ≤ sb.bufferSize
  write : sb.write = sb.read + sb.dataSize

theorem Cleared.lined {sb : SBuffer} (h : sb.Cleared) : sb.Lined where
  nonneg := h.dataSize.ge
  le := h.dataSize ▸ h.size
  write := by rw [h.dataSize, Int.add_zero, h.write]

/-! ## One call -/

namespace Lined

variable {sb : SBuffer}

/-- `PutData` appends what there is room for, and returns how much. -/
theorem putData_eq (h : sb.Lined) (src : List UInt8) :
    ∃ k : Nat, (k : Int) = min (src.length : Int) (sb.bufferSize - sb.dataSize) ∧
      sb.putData src = ({ sb with
        buffer := writeBytes sb.buffer sb.write (src.take k)
        write := sb.write + k
        dataSize := sb.dataSize + k }, (k : Int)) := by
  have hle := h.le
  unfold putData
  split
  · rename_i hfull
    refine ⟨0, by omega, ?_⟩
    simp
  · split
    · rename_i hroom
      exact ⟨src.length, by omega, by rw [List.take_length]⟩
    · rename_i hshort
      refine ⟨(sb.bufferSize - sb.dataSize).toNat, by omega, ?_⟩
      rw [Int.toNat_of_nonneg (by omega)]

theorem unread_putData (h : sb.Lined) {k : Nat} {src : List UInt8} (hk : k ≤ src.length) :
    unread { sb with
      buffer := writeBytes sb.buffer sb.write (src.take k)
      write := sb.write + k
      dataSize := sb.dataSize + k } = sb.unread ++ src.take k := by
  have hlength : ((src.take k).length : Int) = k := by rw [List.length_take, min_eq_left hk]
  simp only [unread]
  rw [readBytes_append _ _ h.nonneg (by omega), ← h.write]
  congr 1
  · refine readBytes_congr fun x hlow hhigh => ?_
    exact writeBytes_of_notMem (Or.inl (by rw [h.write]; exact hhigh))
  · rw [← hlength]
    exact readBytes_writeBytes _ _ _

/-- The first bytes are copied, and the others stay. -/
theorem unread_split {n : Int} (hn : 0 ≤ n) (hle : n ≤ sb.dataSize) :
    readBytes sb.buffer sb.read n = sb.unread.take n.toNat ∧
      readBytes sb.buffer (sb.read + n) (sb.dataSize - n) = sb.unread.drop n.toNat := by
  have hsplit : sb.unread =
      readBytes sb.buffer sb.read n ++ readBytes sb.buffer (sb.read + n) (sb.dataSize - n) := by
    rw [← readBytes_append _ _ hn (by omega), unread]
    congr 1
    omega
  have hlength : (readBytes sb.buffer sb.read n).length = n.toNat := readBytes_length _ _ _
  rw [hsplit, ← hlength, List.take_left, List.drop_left]
  exact ⟨rfl, rfl⟩

/-- **When `GetData` reports what it has moved.** -/
theorem getData_reports_iff (h : sb.Lined) (n : Nat) :
    sb.Reports (.getData n) ↔ sb.Asks (.getData n) := by
  have hnonneg := h.nonneg
  have hlength : sb.unread.length = sb.dataSize.toNat := readBytes_length _ _ _
  simp only [Reports, Asks]
  by_cases hnone : sb.dataSize = 0
  · have hempty : sb.unread = [] := List.eq_nil_of_length_eq_zero (by omega)
    simp [getData, hnone, hempty]
  · by_cases hn : (n : Int) ≤ sb.dataSize
    · obtain ⟨htake, hdrop⟩ := unread_split (Int.natCast_nonneg n) hn
      refine iff_of_true ?_ (Or.inl hn)
      rw [getData, if_neg hnone, if_pos hn, min_eq_left hn]
      exact ⟨rfl, htake, hdrop⟩
    · refine iff_of_false ?_ (by omega)
      rintro ⟨hreturned, -⟩
      rw [getData, if_neg hnone, if_neg hn, min_eq_right (by omega)] at hreturned
      exact hnone hreturned.symm

theorem reports_iff (h : sb.Lined) (op : PacketOp) : sb.Reports op ↔ sb.Asks op := by
  cases op with
  | putData src =>
      obtain ⟨k, hk, heq⟩ := h.putData_eq src
      refine iff_of_true ?_ trivial
      simp only [Reports, heq, Int.toNat_natCast]
      exact ⟨hk, h.unread_putData (by omega)⟩
  | getData n => exact h.getData_reports_iff n
  | _ => exact Iff.rfl

/-- The positions stay lined up whatever is asked for. -/
theorem call (h : sb.Lined) {op : PacketOp} (hop : op.IsData) : (sb.call op).1.Lined := by
  have hnonneg := h.nonneg
  have hle := h.le
  have hwrite := h.write
  cases op with
  | putData src =>
      obtain ⟨k, hk, heq⟩ := h.putData_eq src
      simp only [SBuffer.call, heq]
      constructor <;> simp only <;> omega
  | getData n =>
      simp only [SBuffer.call, getData]
      split
      · exact h
      · split
        · constructor <;> simp only <;> omega
        · constructor <;> simp only <;> omega
  | _ => exact hop.elim

/-- What a call is counted for is what `DataSize` has changed by. -/
theorem gain_eq (h : sb.Lined) {op : PacketOp} (hop : op.IsData) (hasks : sb.Asks op) :
    (sb.call op).2.gain = (sb.call op).1.dataSize - sb.dataSize := by
  cases op with
  | putData src =>
      obtain ⟨k, hk, heq⟩ := h.putData_eq src
      simp only [SBuffer.call, heq, PacketAnswer.gain]
      omega
  | getData n =>
      simp only [Asks] at hasks
      simp only [SBuffer.call, PacketAnswer.gain, getData]
      split
      · simp
      · rw [if_pos (by omega)]
        simp only
        omega
  | _ => exact hop.elim

end Lined

/-! ## Whole runs -/

theorem balance_cons (sb : SBuffer) (op : PacketOp) (ops : List PacketOp) :
    sb.balance (op :: ops) = (sb.call op).2.gain + (sb.call op).1.balance ops := by
  rw [balance, answers, List.map_cons, List.sum_cons]
  rfl

theorem Lined.balance_eq {ops : List PacketOp} : ∀ {sb : SBuffer}, sb.Lined →
    (∀ op ∈ ops, op.IsData) →
      AlongTotal (fun sb op => (sb.call op).1) Asks sb ops →
        sb.balance ops = (after SBuffer.call sb ops).dataSize - sb.dataSize := by
  induction ops with
  | nil =>
      intro sb _ _ _
      rw [after_nil, Int.sub_self]
      rfl
  | cons op ops ih =>
      intro sb h hdata hasks
      have hop := hdata op List.mem_cons_self
      have hrest := ih (h.call hop) (fun other hother => hdata other (List.mem_cons_of_mem _ hother))
        hasks.2
      rw [balance_cons, hrest, h.gain_eq hop hasks.1, after_cons]
      omega

/-- **When the data of a packet move as reported.**  On a cleared buffer, in every sequence
of `PutData` and `GetData`, the calls report what they move and the sums come to `DataSize`
exactly if no `GetData` asks for more than there is of something.  The memory behind the
buffer is not told from it here, so the sequence need not stay within its bounds. -/
theorem data_reported_iff (sb : SBuffer) (ops : List PacketOp) (h : sb.Cleared)
    (hdata : ∀ op ∈ ops, op.IsData) :
    ((∀ before op rest, ops = before ++ op :: rest →
        (after SBuffer.call sb before).Reports op) ∧
      ∀ run, run <+: ops → sb.balance run = (after SBuffer.call sb run).dataSize) ↔
    ∀ before op rest, ops = before ++ op :: rest → (after SBuffer.call sb before).Asks op := by
  have hreports : (∀ before op rest, ops = before ++ op :: rest →
      (after SBuffer.call sb before).Reports op) ↔
        ∀ before op rest, ops = before ++ op :: rest → (after SBuffer.call sb before).Asks op := by
    have hkeep : ∀ sb op, Lined sb → op.IsData → Asks sb op → Lined (SBuffer.call sb op).1 :=
      fun _ _ hlined hop _ => hlined.call hop
    exact foldl_forall_iff (fun _ op hlined _ => hlined.reports_iff op) hkeep h.lined hdata
  rw [hreports, and_iff_left_iff_imp]
  rintro hasks run ⟨rest, rfl⟩
  have halong : AlongTotal (fun sb op => (SBuffer.call sb op).1) Asks sb run :=
    forall_splits_iff.mp fun before op later heq =>
      hasks before op (later ++ rest) (by rw [heq, List.append_assoc, List.cons_append])
  have hbalance := h.lined.balance_eq (fun op hop => hdata op (List.mem_append_left rest hop)) halong
  rw [hbalance, h.dataSize, Int.sub_zero]

/-- Five bytes are put and taken in two parts; the second `GetData` takes all that is left. -/
def putAndGet : List PacketOp := [.putData [1, 2, 3, 4, 5], .getData 3, .getData 2, .getData 9]

theorem putAndGet_reported :
    ((∀ before op rest, putAndGet = before ++ op :: rest →
        (after SBuffer.call (new fun _ => 0).clear before).Reports op) ∧
      ∀ run, run <+: putAndGet → (new fun _ => 0).clear.balance run =
        (after SBuffer.call (new fun _ => 0).clear run).dataSize) ↔
    ∀ before op rest, putAndGet = before ++ op :: rest →
      (after SBuffer.call (new fun _ => 0).clear before).Asks op :=
  data_reported_iff (new fun _ => 0).clear putAndGet (clear_cleared _ (by decide)) (by decide)

/-- Two bytes are put, and `GetData(5)` takes them and returns 0. -/
theorem shortGet_unreported :
    (after SBuffer.call (new fun _ => 0).clear [.putData [1, 2]]).getData 5 =
        ({ after SBuffer.call (new fun _ => 0).clear [.putData [1, 2]] with
          read := 7, dataSize := 0 }, 0, [1, 2]) ∧
      (new fun _ => 0).clear.balance [.putData [1, 2], .getData 5] = 2 ∧
      (after SBuffer.call (new fun _ => 0).clear [.putData [1, 2], .getData 5]).dataSize = 0 ∧
      ¬ (after SBuffer.call (new fun _ => 0).clear [.putData [1, 2]]).Reports (.getData 5) := by
  refine ⟨rfl, by decide, by decide, fun h => ?_⟩
  have hreturned := h.1
  revert hreturned
  decide

end SBuffer

end SessionServer.Common
