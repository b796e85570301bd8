/-
  Common/ParserScan.lean --- the loops of the parser, one byte at a time.

  `FindAlpha` and `FindWord` are two loops inside a third one.  Taken together they go over
  the buffer byte by byte and stop to compare at some of them; `setBlock_cons` and
  `search_cons` say so, and everything else about the scans is an induction over the bytes.
-/
import SessionServer.Common.Parser

set_option autoImplicit false

namespace SessionServer.Common

open SessionServer.Foundation

namespace Parser

/-! ## Words -/

/-- The bytes of a word. -/
def IsWord (w : List UInt8) : Prop := ∀ c ∈ w, isDelimiter c = false

instance (w : List UInt8) : Decidable (IsWord w) := inferInstanceAs (Decidable (∀ c ∈ w, _))

/-- From the pointer to the next delimiter there are the bytes `w`. -/
def WordAt (w l : List UInt8) : Prop :=
  ∃ d rest, l = w ++ d :: rest ∧ IsWord w ∧ isDelimiter d = true

/-- The word at the pointer ends inside the buffer. -/
def Ended (l : List UInt8) : Prop := ∃ c ∈ l, isDelimiter c = true

theorem Ended.wordAt {l : List UInt8} (h : Ended l) : ∃ w, WordAt w l := by
  obtain ⟨⟨d, rest⟩, hseek⟩ := Option.isSome_iff_exists.mp (seek_isSome_iff.mpr h)
  obtain ⟨w, rfl, hw, hd⟩ := seek_eq_some_iff.mp hseek
  exact ⟨w, d, rest, rfl, hw, hd⟩

theorem WordAt.ended {w l : List UInt8} (h : WordAt w l) : Ended l := by
  obtain ⟨d, rest, rfl, -, hd⟩ := h
  exact ⟨d, by simp, hd⟩

theorem WordAt.unique {w w' l : List UInt8} (h : WordAt w l) (h' : WordAt w' l) : w = w' := by
  obtain ⟨d, rest, rfl, hw, hd⟩ := h
  obtain ⟨d', rest', heq, hw', hd'⟩ := h'
  have hseek : seek isDelimiter (w ++ d :: rest) = some (d, rest) :=
    seek_eq_some_iff.mpr ⟨w, rfl, hw, hd⟩
  have hseek' : seek isDelimiter (w ++ d :: rest) = some (d', rest') :=
    seek_eq_some_iff.mpr ⟨w', heq, hw', hd'⟩
  rw [hseek, Option.some.injEq, Prod.mk.injEq] at hseek'
  obtain ⟨rfl, rfl⟩ := hseek'
  exact List.append_cancel_right heq

/-- At a place inside a word there is the rest of it. -/
theorem WordAt.rest {mid w l : List UInt8} (h : WordAt (mid ++ w) (mid ++ l)) : WordAt w l := by
  induction mid with
  | nil => exact h
  | cons c mid ih =>
      obtain ⟨d, rest, heq, hword, hd⟩ := h
      exact ih ⟨d, rest, (List.cons.inj heq).2, fun x hx => hword x (List.mem_cons_of_mem c hx), hd⟩

theorem WordAt.append {w l : List UInt8} (h : WordAt w l) : ∃ rest, l = w ++ rest := by
  obtain ⟨d, rest, rfl, -, -⟩ := h
  exact ⟨d :: rest, rfl⟩

/-- A word begins with its first byte. -/
theorem WordAt.head {w l : List UInt8} {c : UInt8} (h : WordAt w (c :: l)) (hw : w ≠ []) :
    c = w.headD 0 := by
  obtain ⟨d, rest, heq, -, -⟩ := h
  cases w with
  | nil => exact absurd rfl hw
  | cons x w => exact (List.cons.inj heq).1

theorem findWord_none {tgt l : List UInt8} : findWord tgt l = none ↔ ¬ Ended l := by
  rw [findWord, Option.map_eq_none_iff, seek_eq_none_iff, Ended]
  simp only [not_exists, not_and, Bool.not_eq_true]

/-- **What `FindWord` answers**, by the word that is there. -/
theorem findWord_eq {tgt w l : List UInt8} (h : WordAt w l) :
    findWord tgt l = some (
      if w.length ≠ tgt.length then (false, none)
      else if w = tgt then (true, some (l.drop (w.length - 1)))
      else (false, some (l.drop (w.length - 1)))) := by
  obtain ⟨d, rest, rfl, hw, hd⟩ := h
  have hseek : seek isDelimiter (w ++ d :: rest) = some (d, rest) :=
    seek_eq_some_iff.mpr ⟨w, rfl, hw, hd⟩
  have hlength : (w ++ d :: rest).length - (rest.length + 1) = w.length := by
    rw [List.length_append, List.length_cons]
    omega
  rw [findWord, hseek]
  simp only [Option.map_some, hlength, List.take_left]

theorem findAlpha_stop {stop : Nat} {l : List UInt8} (h : l.length = stop) (alpha : UInt8) :
    findAlpha stop alpha l = some none := by
  cases l with
  | nil => exact if_pos h.symm
  | cons c l => exact if_pos h

theorem findAlpha_self {stop : Nat} {c : UInt8} {l : List UInt8} (h : (c :: l).length ≠ stop) :
    findAlpha stop c (c :: l) = some (some (c :: l)) := by
  rw [findAlpha, if_neg (show ¬ l.length + 1 = stop from h), if_pos rfl]

theorem findAlpha_skip {stop : Nat} {alpha c : UInt8} {l : List UInt8} (h : (c :: l).length ≠ stop)
    (hc : ¬ c = alpha) : findAlpha stop alpha (c :: l) = findAlpha stop alpha l := by
  rw [findAlpha, if_neg (show ¬ l.length + 1 = stop from h), if_neg hc]

/-! ## The search for a block -/

theorem setBlock_eq (block c : List UInt8) :
    setBlock block c =
      if c.length = 1 then some (.error "Wrong Block Name\n")
      else
        match findAlpha 1 (block.headD 0) c with
        | none => none
        | some none => some (.error "Wrong Block Name\n")
        | some (some c) =>
            match findWord block c with
            | none => none
            | some (true, some tgt) => openBlock (tgt.drop 1)
            | some _ => setBlock block (c.drop 2) := by
  rw [setBlock]
  split
  · rfl
  · split <;> rename_i heq <;> exact heq ▸ rfl

@[simp] theorem setBlock_nil (block : List UInt8) : setBlock block [] = none := by
  rw [setBlock_eq]
  rfl

@[simp] theorem setBlock_singleton (block : List UInt8) (c : UInt8) :
    setBlock block [c] = some (.error "Wrong Block Name\n") := by
  rw [setBlock_eq]
  rfl

/-- **One byte of `SetBlock`.** -/
theorem setBlock_cons {block : List UInt8} {c : UInt8} {l : List UInt8} (hl : l ≠ []) :
    setBlock block (c :: l) =
      if c = block.headD 0 then
        match findWord block (c :: l) with
        | none => none
        | some (true, some tgt) => openBlock (tgt.drop 1)
        | some _ => setBlock block (l.drop 1)
      else setBlock block l := by
  have hlength : 0 < l.length := List.length_pos_iff.mpr hl
  have hne : (c :: l).length ≠ 1 := by
    rw [List.length_cons]
    omega
  rw [setBlock_eq, if_neg hne]
  by_cases hc : c = block.headD 0
  · rw [if_pos hc, ← hc, findAlpha_self hne]
    rfl
  · rw [if_neg hc, findAlpha_skip hne hc, setBlock_eq block l]
    by_cases hlast : l.length = 1
    · rw [if_pos hlast, findAlpha_stop hlast]
    · rw [if_neg hlast]

section

variable {block w l : List UInt8} {c : UInt8}

theorem setBlock_skip (hl : l ≠ []) (hc : c ≠ block.headD 0) :
    setBlock block (c :: l) = setBlock block l := by
  rw [setBlock_cons hl, if_neg hc]

theorem setBlock_unended (hl : l ≠ []) (hc : c = block.headD 0) (hended : ¬ Ended (c :: l)) :
    setBlock block (c :: l) = none := by
  rw [setBlock_cons hl, if_pos hc, findWord_none.mpr hended]

theorem setBlock_match (hblock : block ≠ []) (hl : l ≠ []) (hc : c = block.headD 0)
    (hw : WordAt block (c :: l)) :
    setBlock block (c :: l) = openBlock ((c :: l).drop block.length) := by
  have hpos : 0 < block.length := List.length_pos_iff.mpr hblock
  rw [setBlock_cons hl, if_pos hc, findWord_eq hw]
  simp only [ne_eq, not_true_eq_false, if_false, if_true, List.drop_drop]
  rw [Nat.sub_add_cancel hpos]

/-- Another word: the pointer is moved twice. -/
theorem setBlock_mismatch (hl : l ≠ []) (hc : c = block.headD 0) (hw : WordAt w (c :: l))
    (hne : w ≠ block) : setBlock block (c :: l) = setBlock block (l.drop 1) := by
  rw [setBlock_cons hl, if_pos hc, findWord_eq hw, if_neg hne]
  split_ifs <;> rfl

end

/-! ## The search for a name -/

section

variable {α : Type} {finish : List UInt8 → Except String α} {name : List UInt8} {stop : Nat}

theorem search_eq (cur : List UInt8) :
    search finish name stop cur =
      if cur.length = stop then some (.error "")
      else
        match findAlpha stop (name.headD 0) cur with
        | none => none
        | some none => search finish name stop (cur.drop 1)
        | some (some c) =>
            match findWord name c with
            | none => none
            | some (true, some last) => readValue finish (last.drop 1)
            | some (false, some last) => search finish name stop (last.drop 1)
            | some (_, none) => search finish name stop (c.drop 1) := by
  rw [search]
  split
  · rfl
  · split <;> rename_i heq <;> rw [heq]
    split <;> rename_i hword <;> simp only [hword]

theorem search_stop {l : List UInt8} (h : l.length = stop) :
    search finish name stop l = some (.error "") := by
  rw [search_eq, if_pos h]

theorem search_nil (h : 0 < stop) : search finish name stop [] = none := by
  have hne : ([] : List UInt8).length ≠ stop := by
    rw [List.length_nil]
    omega
  have hfind : findAlpha stop (name.headD 0) [] = none := if_neg (by omega)
  rw [search_eq, if_neg hne, hfind]

/-- **One byte of the loop** of `GetValue` and `GetString`. -/
theorem search_cons {c : UInt8} {l : List UInt8} (hne : (c :: l).length ≠ stop) :
    search finish name stop (c :: l) =
      if c = name.headD 0 then
        match findWord name (c :: l) with
        | none => none
        | some (true, some last) => readValue finish (last.drop 1)
        | some (false, some last) => search finish name stop (last.drop 1)
        | some (_, none) => search finish name stop l
      else search finish name stop l := by
  rw [search_eq, if_neg hne]
  by_cases hc : c = name.headD 0
  · rw [if_pos hc, ← hc, findAlpha_self hne]
    rfl
  · rw [if_neg hc, findAlpha_skip hne hc]
    by_cases hlast : l.length = stop
    · rw [findAlpha_stop hlast]
      rfl
    · -- What the rest of the loop makes of `l` is what it makes of it after this byte.
      rw [search_eq l, if_neg hlast]
      cases hfind : findAlpha stop (name.headD 0) l with
      | none => rfl
      | some found =>
          cases found with
          | none =>
              simp only [List.drop_one, List.tail_cons]
              rw [search_eq l, if_neg hlast, hfind, List.drop_one]
          | some found => rfl

variable {w l : List UInt8} {c : UInt8}

theorem search_skip (hne : (c :: l).length ≠ stop) (hc : c ≠ name.headD 0) :
    search finish name stop (c :: l) = search finish name stop l := by
  rw [search_cons hne, if_neg hc]

theorem search_unended (hne : (c :: l).length ≠ stop) (hc : c = name.headD 0)
    (hended : ¬ Ended (c :: l)) : search finish name stop (c :: l) = none := by
  rw [search_cons hne, if_pos hc, findWord_none.mpr hended]

theorem search_match (hname : name ≠ []) (hne : (c :: l).length ≠ stop) (hc : c = name.headD 0)
    (hw : WordAt name (c :: l)) :
    search finish name stop (c :: l) = readValue finish ((c :: l).drop name.length) := by
  have hpos : 0 < name.length := List.length_pos_iff.mpr hname
  rw [search_cons hne, if_pos hc, findWord_eq hw]
  simp only [ne_eq, not_true_eq_false, if_false, if_true, List.drop_drop]
  rw [Nat.sub_add_cancel hpos]

/-- A word of another length: the next pointer is tried. -/
theorem search_shift (hne : (c :: l).length ≠ stop) (hc : c = name.headD 0)
    (hw : WordAt w (c :: l)) (hlength : w.length ≠ name.length) :
    search finish name stop (c :: l) = search finish name stop l := by
  rw [search_cons hne, if_pos hc, findWord_eq hw, if_pos hlength]

/-- Another word of the same length: the pointer is moved behind it. -/
theorem search_jump (hname : name ≠ []) (hne : (c :: l).length ≠ stop) (hc : c = name.headD 0)
    (hw : WordAt w (c :: l)) (hlength : w.length = name.length) (hother : w ≠ name) :
    search finish name stop (c :: l) = search finish name stop ((c :: l).drop w.length) := by
  have hpos : 0 < w.length := by
    rw [hlength]
    exact List.length_pos_iff.mpr hname
  rw [search_cons hne, if_pos hc, findWord_eq hw, if_neg (not_not.mpr hlength), if_neg hother]
  simp only [List.drop_drop]
  rw [Nat.sub_add_cancel hpos]

end

end Parser

end SessionServer.Common
