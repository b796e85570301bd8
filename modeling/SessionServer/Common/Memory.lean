/-
  Common/Memory.lean --- allocated bytes.

  The bytes behind a `char*` are a memory indexed from zero; whether an index lies in the
  allocation is a matter of the indices.  `memcpy`, a receive into segments and the
  little-endian form of the integers are all the files above need.
-/
import Mathlib

set_option autoImplicit false

namespace SessionServer.Common

/-! ## Memory -/

/-- The `n` bytes from `start` on. -/
def readBytes (memory : Int → UInt8) (start n : Int) : List UInt8 :=
  (List.range n.toNat).map fun i : Nat => memory (start + i)

/-- `memcpy` of the data to `start`. -/
def writeBytes (memory : Int → UInt8) (start : Int) (data : List UInt8) : Int → UInt8 :=
  fun i => if start ≤ i ∧ i < start + data.length then data.getD (i - start).toNat 0 else memory i

/-- What a receive into the segments `(start, length)` does, in their order. -/
def scatter (memory : Int → UInt8) : List (Int × Int) → List UInt8 → Int → UInt8
  | [], _ => memory
  | (start, length) :: segments, data =>
      scatter (writeBytes memory start (data.take length.toNat)) segments
        (data.drop length.toNat)

theorem writeBytes_of_lt {memory : Int → UInt8} {start : Int} {data : List UInt8} {i : Nat}
    (hi : i < data.length) : writeBytes memory start data (start + i) = data[i] := by
  rw [writeBytes, if_pos ⟨by omega, by omega⟩]
  simp [hi]

theorem writeBytes_of_notMem {memory : Int → UInt8} {start x : Int} {data : List UInt8}
    (h : x < start ∨ start + data.length ≤ x) : writeBytes memory start data x = memory x := by
  rw [writeBytes, if_neg (by omega)]

@[simp] theorem writeBytes_nil (memory : Int → UInt8) (start : Int) :
    writeBytes memory start [] = memory := by
  funext x
  rw [writeBytes_of_notMem (by simp only [List.length_nil]; omega)]

@[simp] theorem readBytes_length (memory : Int → UInt8) (start n : Int) :
    (readBytes memory start n).length = n.toNat := by
  rw [readBytes, List.length_map, List.length_range]

theorem readBytes_append (memory : Int → UInt8) (start : Int) {m n : Int} (hm : 0 ≤ m)
    (hn : 0 ≤ n) : readBytes memory start (m + n) =
      readBytes memory start m ++ readBytes memory (start + m) n := by
  rw [readBytes, Int.toNat_add hm hn, List.range_add, List.map_append, List.map_map]
  refine congrArg₂ (· ++ ·) rfl (List.map_congr_left fun i _ => ?_)
  simp only [Function.comp_apply]
  congr 1
  omega

theorem readBytes_congr {memory memory' : Int → UInt8} {start n : Int}
    (h : ∀ x, start ≤ x → x < start + n → memory x = memory' x) :
    readBytes memory start n = readBytes memory' start n := by
  refine List.map_congr_left fun i hi => h _ ?_ ?_
  · omega
  · rw [List.mem_range] at hi
    omega

theorem readBytes_writeBytes (memory : Int → UInt8) (start : Int) (data : List UInt8) :
    readBytes (writeBytes memory start data) start data.length = data := by
  refine List.ext_getElem (by simp) fun i h₁ h₂ => ?_
  simp only [readBytes, List.getElem_map, List.getElem_range]
  exact writeBytes_of_lt h₂

/-! ## Integers in memory -/

/-- The `n` low bytes of a number, the lowest first. -/
def leBytes : Nat → Nat → List UInt8
  | 0, _ => []
  | n + 1, value => UInt8.ofNat value :: leBytes n (value / 256)

/-- The number whose bytes are given, the lowest first. -/
def leNat : List UInt8 → Nat
  | [] => 0
  | byte :: bytes => byte.toNat + 256 * leNat bytes

@[simp] theorem leBytes_length (n value : Nat) : (leBytes n value).length = n := by
  induction n generalizing value with
  | zero => rfl
  | succ n ih => rw [leBytes, List.length_cons, ih]

theorem leNat_leBytes {n value : Nat} (h : value < 256 ^ n) : leNat (leBytes n value) = value := by
  induction n generalizing value with
  | zero =>
      rw [pow_zero] at h
      rw [leBytes, leNat]
      omega
  | succ n ih =>
      rw [pow_succ] at h
      rw [leBytes, leNat, ih (by omega), UInt8.toNat_ofNat']
      omega

end SessionServer.Common
