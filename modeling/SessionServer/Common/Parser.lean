/-
  Common/Parser.lean --- the reader of the configuration files.

  `Parser.cpp`.  A `char*` into the loaded buffer is the part of the buffer from it on, so
  that a step forward is the tail and two pointers are equal where as much is left of the
  buffer.  Every loop moves a pointer forward over bytes it has read; `none` is a read
  behind the last byte.  What a failing call prints is its error, and the empty text where
  it prints nothing.
-/
import SessionServer.Foundation.Seek

set_option autoImplicit false

namespace SessionServer.Common

open SessionServer.Foundation

/-- The parser; `_end` is the pointer to the last byte of the buffer. -/
structure Parser where
  buffer : Option (List UInt8)
  used : Bool
  deriving DecidableEq

namespace Parser

def space : UInt8 := 0x20
def cr : UInt8 := 0x0d
def lf : UInt8 := 0x0a
def colon : UInt8 := 0x3a
def openBrace : UInt8 := 0x7b
def closeBrace : UInt8 := 0x7d

/-- `none` is a read outside the buffer. -/
abbrev Outcome (α : Type) := Option (Except String α)

/-- The constructor. -/
def new : Parser where
  buffer := none
  used := false

/-- `LoadFile`, with the content of the file, if it can be opened. -/
def loadFile (p : Parser) (file : Option (List UInt8)) : Parser × Bool :=
  if p.used then (p, false)
  else
    match file with
    | none => (p, false)
    | some [] => ({ p with buffer := some [] }, false)
    | some content => ({ buffer := some content, used := true }, true)

/-! ## Words -/

/-- What ends a word. -/
def isDelimiter (c : UInt8) : Bool :=
  c == space || c == colon || c == cr || c == lf || c == openBrace

/-- `FindAlpha` up to the pointer with `stop` bytes left: where the byte is, if it is there. -/
def findAlpha (stop : Nat) (alpha : UInt8) : List UInt8 → Option (Option (List UInt8))
  | [] => if stop = 0 then some none else none
  | c :: rest =>
      if rest.length + 1 = stop then some none
      else if c = alpha then some (some (c :: rest))
      else findAlpha stop alpha rest

/-- `FindWord`: whether the word is `tgt`, and the pointer to its last byte where the
function sets one. -/
def findWord (tgt firstptr : List UInt8) : Option (Bool × Option (List UInt8)) :=
  (seek isDelimiter firstptr).map fun (_, rest) =>
    let length := firstptr.length - (rest.length + 1)
    if length ≠ tgt.length then (false, none)
    else if firstptr.take length = tgt then (true, some (firstptr.drop (length - 1)))
    else (false, some (firstptr.drop (length - 1)))

theorem findAlpha_length {stop : Nat} {alpha : UInt8} {cur c : List UInt8}
    (h : findAlpha stop alpha cur = some (some c)) : 0 < c.length ∧ c.length ≤ cur.length := by
  induction cur with
  | nil =>
      simp only [findAlpha] at h
      split at h <;> simp at h
  | cons x cur ih =>
      simp only [findAlpha] at h
      split at h
      · simp at h
      · split at h
        · rw [Option.some.injEq, Option.some.injEq] at h
          subst h
          exact ⟨Nat.succ_pos _, le_rfl⟩
        · exact ⟨(ih h).1, Nat.le_succ_of_le (ih h).2⟩

theorem findAlpha_pos {stop : Nat} {alpha : UInt8} {cur : List UInt8}
    (h : findAlpha stop alpha cur = some none) (hne : cur.length ≠ stop) : 0 < cur.length := by
  cases cur with
  | nil =>
      simp only [findAlpha] at h
      split at h
      · rename_i hstop
        exact absurd hstop.symm hne
      · simp at h
  | cons c cur => exact Nat.succ_pos _

theorem findWord_length {tgt firstptr last : List UInt8} {found : Bool}
    (h : findWord tgt firstptr = some (found, some last)) : last.length ≤ firstptr.length := by
  obtain ⟨⟨_, rest⟩, -, hresult⟩ := Option.map_eq_some_iff.mp h
  simp only at hresult
  split at hresult
  · simp at hresult
  · split at hresult
    · obtain ⟨-, hlast⟩ := Prod.mk.inj hresult
      rw [← Option.some.inj hlast, List.length_drop]
      omega
    · obtain ⟨-, hlast⟩ := Prod.mk.inj hresult
      rw [← Option.some.inj hlast, List.length_drop]
      omega

/-! ## Blocks -/

/-- `SetBlock` behind the name of the block: the pointers to its braces. -/
def openBlock (tgt : List UInt8) : Outcome (List UInt8 × List UInt8) :=
  (seek (fun c => c == openBrace || !(c == space || c == cr || c == lf)) tgt).bind
    fun (c, rest) =>
      if c ≠ openBrace then some (.error "Wrong Block\n")
      else
        (seek (fun c => c == closeBrace || c == openBrace) rest).map fun (d, tail) =>
          if d = openBrace then .error "Wrong Block\n" else .ok (c :: rest, d :: tail)

/-- `SetBlock` from the pointer `c` on.  After a word that is not the block the pointer is
moved twice, in the branch and by the loop. -/
def setBlock (block : List UInt8) (c : List UInt8) : Outcome (List UInt8 × List UInt8) :=
  if c.length = 1 then some (.error "Wrong Block Name\n")
  else
    match _h : findAlpha 1 (block.headD 0) c with
    | none => none
    | some none => some (.error "Wrong Block Name\n")
    | some (some c) =>
        match findWord block c with
        | none => none
        | some (true, some tgt) => openBlock (tgt.drop 1)
        | some _ => setBlock block (c.drop 2)
termination_by c.length
decreasing_by
  have := findAlpha_length _h
  rw [List.length_drop]
  omega

/-! ## Values -/

/-- What `GetValue` and `GetString` read behind the name. -/
def readValue {α : Type} (finish : List UInt8 → Except String α) (cur : List UInt8) : Outcome α :=
  (seek (fun c => c == cr || c == lf || c == colon) cur).bind fun (c, cur) =>
    if c ≠ colon then some (.error "No ':'\n")
    else
      match cur with
      | [] => none
      | d :: _ =>
          if d = cr ∨ d = lf then some (.error "No Value\n")
          else
            (seek (fun c => !(c == space)) cur).bind fun (c, rest) =>
              (seek (fun c => c == space || c == cr || c == lf) (c :: rest)).map fun (_, valend) =>
                finish ((c :: rest).take ((c :: rest).length - (valend.length + 1)))

/-- The loop of `GetValue` and `GetString` over the block, up to the pointer with `stop`
bytes left. -/
def search {α : Type} (finish : List UInt8 → Except String α) (name : List UInt8) (stop : Nat)
    (cur : List UInt8) : Outcome α :=
  if _hstop : cur.length = stop then some (.error "")
  else
    match _h : findAlpha stop (name.headD 0) cur with
    | none => none
    | some none => search finish name stop (cur.drop 1)
    | some (some c) =>
        match _hword : findWord name c with
        | none => none
        | some (true, some last) => readValue finish (last.drop 1)
        | some (false, some last) => search finish name stop (last.drop 1)
        | some (_, none) => search finish name stop (c.drop 1)
termination_by cur.length
decreasing_by
  · have := findAlpha_pos _h _hstop
    rw [List.length_drop]
    omega
  · have := findAlpha_length _h
    have := findWord_length _hword
    rw [List.length_drop]
    omega
  · have := findAlpha_length _h
    rw [List.length_drop]
    omega

/-- `GetValue` and `GetString`, which differ in what they make of the bytes of the value. -/
def lookup {α : Type} (finish : List UInt8 → Except String α) (p : Parser)
    (block name : List UInt8) : Outcome α :=
  match p.buffer with
  | none => some (.error "File Not Loaded\n")
  | some buffer =>
      match setBlock block buffer with
      | none => none
      | some (.error message) => some (.error message)
      | some (.ok (s, e)) => search finish name e.length s

/-- `isspace`. -/
def isSpace (c : UInt8) : Bool := c == space || (9 ≤ c && c ≤ 13)

/-- `atoi`; what does not fit an `int` gives the nearest one. -/
def atoi (s : List UInt8) : Int :=
  let number (digits : List UInt8) : Int :=
    (digits.takeWhile fun c => 0x30 ≤ c && c ≤ 0x39).foldl (fun n c => 10 * n + (c.toNat - 0x30)) 0
  let value : Int :=
    match s.dropWhile isSpace with
    | [] => 0
    | c :: digits =>
        if c = 0x2d then -number digits
        else if c = 0x2b then number digits
        else number (c :: digits)
  max (-2 ^ 31) (min value (2 ^ 31 - 1))

/-- `GetString`; what is copied to `str`, before the terminator. -/
def getString (p : Parser) (block name : List UInt8) (strsize : Int) : Outcome (List UInt8) :=
  lookup (fun value =>
    if strsize < value.length + 1 then .error "Not Enough Str Capactiy\n" else .ok value)
    p block name

/-- `GetValue`.  One byte is taken for a digit, whatever it is. -/
def getValue (p : Parser) (block name : List UInt8) : Outcome Int :=
  lookup (fun value =>
    match value with
    | [c] => .ok (c.toInt8.toInt - 0x30)
    | value =>
        if atoi value = 0 then .error "Value Is Not Number\n" else .ok (atoi value))
    p block name

end Parser

end SessionServer.Common
