/-
  Common/Config.lean --- the texts that the parser is made for, and what it finds in them.

  A configuration is blocks of lines `key : value`.  The parser does not know which of the
  words are names, keys and values: a block is found at the first word of the text that ends
  with its name, a key at the first word of the block that ends with the key.
-/
import SessionServer.Common.ParserReads

set_option autoImplicit false

namespace SessionServer.Common

open SessionServer.Foundation

namespace Parser

/-! ## The text -/

/-- A word without spaces, colons, braces and line breaks. -/
structure Token where
  bytes : List UInt8
  nonempty : bytes ≠ []
  plain : ∀ c ∈ bytes, isDelimiter c = false ∧ c ≠ closeBrace
  deriving DecidableEq

/-- Spaces and line breaks. -/
structure Gap where
  bytes : List UInt8
  blank : ∀ c ∈ bytes, isBlank c = true

/-- One line; the spaces around the colon and behind the value are counted. -/
structure Line where
  before : Gap
  key : Token
  beforeColon : Nat
  beforeValue : Nat
  value : Token
  afterValue : Nat

/-- `Name { ... }`. -/
structure Block where
  name : Token
  beforeOpen : Gap
  afterOpen : Gap
  lines : List Line
  beforeClose : Gap
  afterClose : Gap
  distinct : (lines.map Line.key).Nodup

/-- A configuration. -/
structure Config where
  before : Gap
  blocks : List Block
  distinct : (blocks.map Block.name).Nodup

/-- What follows the key of a line, and the value. -/
def Line.afterKey (l : Line) : List UInt8 :=
  List.replicate l.beforeColon space ++
    colon :: (List.replicate l.beforeValue space ++ l.value.bytes)

def Line.text (l : Line) : List UInt8 :=
  l.before.bytes ++ (l.key.bytes ++ (l.afterKey ++ (List.replicate l.afterValue space ++ [cr, lf])))

/-- What is between the braces. -/
def Block.body (b : Block) : List UInt8 :=
  b.afterOpen.bytes ++ (b.lines.flatMap Line.text ++ b.beforeClose.bytes)

def Block.text (b : Block) : List UInt8 :=
  b.name.bytes ++ (b.beforeOpen.bytes ++ openBrace :: (b.body ++ closeBrace :: b.afterClose.bytes))

def Config.text (cfg : Config) : List UInt8 :=
  cfg.before.bytes ++ cfg.blocks.flatMap Block.text

/-! ## Its words -/

/-- The words of a line; the key comes with it. -/
def Line.words (l : Line) : List (Token × Option Line) := [(l.key, some l), (l.value, none)]

def Block.words (b : Block) : List (Token × Option Line) := b.lines.flatMap Line.words

/-- The words of the text; the name of a block comes with it. -/
def Config.words (cfg : Config) : List (Token × Option Block) :=
  cfg.blocks.flatMap fun b => (b.name, some b) :: b.words.map fun w => (w.1, none)

/-- `SetBlock` takes the word for the name of the block: it ends with it, and an even number
of its first letter is right before the end. -/
def Meets (block w : List UInt8) : Prop := ∃ pre, w = pre ++ block ∧ EvenRun (block.headD 0) pre

/-- The key of `line` is what is found for the key in the block of that name: the first word of
the text that meets the name is a name, and the first word of its block that ends with
the key is the key of the line. -/
def Config.Leads (cfg : Config) (block key : Token) (line : Line) : Prop :=
  ∃ b, FirstIn (fun w => Meets block.bytes w.1.bytes) cfg.words (b.name, some b) ∧
    FirstIn (fun w => key.bytes <:+ w.1.bytes) b.words (line.key, some line)

/-! ## Words and gaps -/

theorem Token.letter_ne (t : Token) {c : UInt8} (hc : isDelimiter c = true ∨ c = closeBrace) :
    c ≠ t.bytes.headD 0 := by
  rintro rfl
  obtain ⟨x, rest, hbytes⟩ := List.exists_cons_of_ne_nil t.nonempty
  have hplain := t.plain x (by rw [hbytes]; exact List.mem_cons_self)
  rw [hbytes, List.headD_cons] at hc
  rcases hc with hdelimiter | hbrace
  · rw [hplain.1] at hdelimiter
    exact Bool.false_ne_true hdelimiter
  · exact hplain.2 hbrace

theorem isDelimiter_of_blank {c : UInt8} (h : isBlank c = true) : isDelimiter c = true := by
  simp only [isBlank, Bool.or_eq_true, beq_iff_eq] at h
  rcases h with (rfl | rfl) | rfl <;> decide

theorem isBlank_of_plain {c : UInt8} (h : isDelimiter c = false) : isBlank c = false := by
  cases hblank : isBlank c with
  | false => rfl
  | true => rw [← isDelimiter_of_blank hblank, h]

/-- The list begins with a delimiter and goes on behind it. -/
def Stopped (l : List UInt8) : Prop := ∃ d rest, l = d :: rest ∧ isDelimiter d = true ∧ rest ≠ []

theorem stopped_of_gap {gap l : List UInt8} (hgap : ∀ c ∈ gap, isBlank c = true) (hl : Stopped l) :
    Stopped (gap ++ l) := by
  cases gap with
  | nil => exact hl
  | cons c gap =>
      obtain ⟨d, rest, rfl, -, -⟩ := hl
      exact ⟨c, gap ++ d :: rest, rfl, isDelimiter_of_blank (hgap c List.mem_cons_self), by simp⟩

theorem blank_replicate (n : Nat) : ∀ c ∈ List.replicate n space, isBlank c = true := by
  intro c hc
  rw [List.eq_of_mem_replicate hc]
  decide

/-! ## The search for a block -/

theorem evenRun_cons_of_ne {alpha c : UInt8} (h : c ≠ alpha) (pre : List UInt8) :
    EvenRun alpha (c :: pre) ↔ EvenRun alpha pre := by
  rw [EvenRun, EvenRun, List.reverse_cons, List.takeWhile_append]
  split <;> simp_all

theorem evenRun_cons_cons {alpha : UInt8} (c : UInt8) (pre : List UInt8) :
    EvenRun alpha (alpha :: c :: pre) ↔ EvenRun alpha pre := by
  rw [EvenRun, EvenRun, List.reverse_cons, List.reverse_cons, List.append_assoc,
    List.takeWhile_append]
  split
  · rename_i hall
    by_cases hc : c = alpha
    · subst hc
      simp_all [Nat.even_add]
    · simp_all
  · rfl

section

variable {block w l : List UInt8}

theorem meets_self (block : List UInt8) : Meets block block := ⟨[], rfl, evenRun_nil _⟩

theorem not_meets_nil (hblock : block ≠ []) : ¬ Meets block [] := by
  rintro ⟨pre, hpre, -⟩
  exact hblock (List.append_eq_nil_iff.mp hpre.symm).2

theorem meets_cons_of_ne {c : UInt8} (hc : c ≠ block.headD 0) :
    Meets block (c :: w) ↔ Meets block w := by
  constructor
  · rintro ⟨pre, hpre, heven⟩
    cases pre with
    | nil =>
        rw [List.nil_append] at hpre
        rw [← hpre] at hc
        exact absurd rfl hc
    | cons x pre =>
        obtain ⟨rfl, rfl⟩ := List.cons.inj hpre
        exact ⟨pre, rfl, (evenRun_cons_of_ne hc pre).mp heven⟩
  · rintro ⟨pre, rfl, heven⟩
    exact ⟨c :: pre, rfl, (evenRun_cons_of_ne hc pre).mpr heven⟩

/-- Behind a letter that is compared in vain the next byte is not looked at. -/
theorem meets_cons_cons {c : UInt8} (hne : block.headD 0 :: c :: w ≠ block) :
    Meets block (block.headD 0 :: c :: w) ↔ Meets block w := by
  constructor
  · rintro ⟨pre, hpre, heven⟩
    cases pre with
    | nil => exact absurd hpre hne
    | cons x pre =>
        obtain ⟨rfl, hrest⟩ := List.cons.inj hpre
        cases pre with
        | nil =>
            have heven' : EvenRun (block.headD 0) ([] ++ [block.headD 0]) := heven
            exact absurd (evenRun_nil _) (evenRun_self.mp heven')
        | cons y pre =>
            obtain ⟨rfl, rfl⟩ := List.cons.inj hrest
            exact ⟨pre, rfl, (evenRun_cons_cons c pre).mp heven⟩
  · rintro ⟨pre, rfl, heven⟩
    exact ⟨block.headD 0 :: c :: pre, rfl, (evenRun_cons_cons c pre).mpr heven⟩

theorem setBlock_gap {gap : List UInt8} (hgap : ∀ c ∈ gap, c ≠ block.headD 0) (hl : l ≠ []) :
    setBlock block (gap ++ l) = setBlock block l := by
  induction gap with
  | nil => rfl
  | cons c gap ih =>
      rw [List.cons_append, setBlock_skip (by simp [hl]) (hgap c List.mem_cons_self)]
      exact ih fun x hx => hgap x (List.mem_cons_of_mem c hx)

/-- **`SetBlock` over one word**, by the number of bytes of the word that are left. -/
theorem setBlock_word (hblock : block ≠ []) (hl : Stopped l) (hw : IsWord w) :
    (Meets block w → setBlock block (w ++ l) = openBlock l) ∧
      (¬ Meets block w → setBlock block (w ++ l) = setBlock block l) := by
  obtain ⟨d, rest, rfl, hd, hrest⟩ := hl
  induction hn : w.length using Nat.strong_induction_on generalizing w with
  | _ n ih =>
      cases w with
      | nil => exact ⟨fun h => absurd h (not_meets_nil hblock), fun _ => rfl⟩
      | cons c w =>
          rw [List.length_cons] at hn
          have hgo : w ++ d :: rest ≠ [] := by simp
          by_cases hc : c = block.headD 0
          · have hat : WordAt (c :: w) (c :: (w ++ d :: rest)) := ⟨d, rest, rfl, hw, hd⟩
            by_cases hsame : c :: w = block
            · rw [hsame] at hat
              rw [List.cons_append, setBlock_match hblock hgo hc hat, ← List.cons_append, hsame,
                List.drop_left]
              exact ⟨fun _ => rfl, fun hnot => absurd (meets_self block) hnot⟩
            · rw [List.cons_append, setBlock_mismatch hgo hc hat hsame]
              subst hc
              cases w with
              | nil =>
                  -- The delimiter behind the word is not looked at.
                  have hnot : ¬ Meets block [block.headD 0] := by
                    rintro ⟨pre, hpre, -⟩
                    have hlength := congrArg List.length hpre
                    have hpos := List.length_pos_iff.mpr hblock
                    rw [List.length_singleton, List.length_append] at hlength
                    obtain rfl : pre = [] := List.eq_nil_of_length_eq_zero (by omega)
                    exact hsame hpre
                  have hletter : d ≠ block.headD 0 := by
                    intro heq
                    have hfirst := hw (block.headD 0) List.mem_cons_self
                    rw [← heq, hd] at hfirst
                    exact Bool.false_ne_true hfirst.symm
                  refine ⟨fun h => absurd h hnot, fun _ => ?_⟩
                  rw [setBlock_skip hrest hletter]
                  rfl
              | cons e w =>
                  rw [meets_cons_cons hsame]
                  refine ih w.length ?_ (fun x hx => ?_) rfl
                  · rw [← hn, List.length_cons]
                    omega
                  · exact hw x (List.mem_cons_of_mem _ (List.mem_cons_of_mem _ hx))
          · rw [List.cons_append, setBlock_skip hgo hc, meets_cons_of_ne hc]
            exact ih w.length (by omega) (fun x hx => hw x (List.mem_cons_of_mem _ hx)) rfl

end

/-! ## The search for a key -/

section

variable {α : Type} {finish : List UInt8 → Except String α} {name w l : List UInt8} {stop : Nat}

theorem search_gap {gap : List UInt8} (hgap : ∀ c ∈ gap, c ≠ name.headD 0) (hl : stop ≤ l.length) :
    search finish name stop (gap ++ l) = search finish name stop l := by
  induction gap with
  | nil => rfl
  | cons c gap ih =>
      have hne : (c :: (gap ++ l)).length ≠ stop := by
        rw [List.length_cons, List.length_append]
        omega
      rw [List.cons_append, search_skip hne (hgap c List.mem_cons_self)]
      exact ih fun x hx => hgap x (List.mem_cons_of_mem c hx)

theorem suffix_cons_of_ne {c : UInt8} (hne : c :: w ≠ name) :
    name <:+ c :: w ↔ name <:+ w := by
  rw [List.suffix_cons_iff]
  exact or_iff_right fun heq => hne heq.symm

/-- **The loop of `GetString` over one word.** -/
theorem search_word (hname : name ≠ []) (hl : Stopped l) (hstop : stop ≤ l.length)
    (hw : IsWord w) :
    (name <:+ w → search finish name stop (w ++ l) = readValue finish l) ∧
      (¬ name <:+ w → search finish name stop (w ++ l) = search finish name stop l) := by
  obtain ⟨d, rest, rfl, hd, -⟩ := hl
  induction w with
  | nil => exact ⟨fun h => absurd (List.suffix_nil.mp h) hname, fun _ => rfl⟩
  | cons c w ih =>
      have hne : (c :: (w ++ d :: rest)).length ≠ stop := by
        rw [List.length_cons, List.length_append]
        omega
      have hlater := ih fun x hx => hw x (List.mem_cons_of_mem c hx)
      rw [List.cons_append]
      by_cases hc : c = name.headD 0
      · have hat : WordAt (c :: w) (c :: (w ++ d :: rest)) := ⟨d, rest, rfl, hw, hd⟩
        by_cases hsame : c :: w = name
        · rw [hsame] at hat
          rw [search_match hname hne hc hat, ← List.cons_append, hsame, List.drop_left]
          exact ⟨fun _ => rfl, fun hnot => absurd List.suffix_rfl hnot⟩
        · by_cases hlength : (c :: w).length = name.length
          · -- The scan jumps over the rest of the word, which is shorter than the name.
            have hnot : ¬ name <:+ c :: w := fun h => hsame (h.eq_of_length hlength.symm).symm
            refine ⟨fun h => absurd h hnot, fun _ => ?_⟩
            rw [search_jump hname hne hc hat hlength hsame, ← List.cons_append, List.drop_left]
          · rw [search_shift hne hc hat hlength, suffix_cons_of_ne hsame]
            exact hlater
      · have hother : c :: w ≠ name := by
          rintro rfl
          exact hc rfl
        rw [search_skip hne hc, suffix_cons_of_ne hother]
        exact hlater

end

/-! ## What is behind a word -/

/-- The end of a line behind its value, and what follows. -/
def lineEnd (n : Nat) (l : List UInt8) : List UInt8 := List.replicate n space ++ cr :: lf :: l

theorem lineEnd_stopped (n : Nat) (l : List UInt8) : Stopped (lineEnd n l) :=
  stopped_of_gap (blank_replicate n) ⟨cr, lf :: l, rfl, by decide, by simp⟩

theorem Line.afterKey_append (line : Line) (l : List UInt8) :
    line.afterKey ++ l = List.replicate line.beforeColon space ++
      colon :: (List.replicate line.beforeValue space ++ (line.value.bytes ++ l)) := by
  rw [Line.afterKey, List.append_assoc, List.cons_append, List.append_assoc]

theorem Line.afterKey_stopped (line : Line) (l : List UInt8) : Stopped (line.afterKey ++ l) := by
  rw [Line.afterKey_append]
  refine stopped_of_gap (blank_replicate _) ⟨colon, _, rfl, by decide, ?_⟩
  simp [line.value.nonempty]

theorem Line.text_append (line : Line) (l : List UInt8) :
    line.text ++ l = line.before.bytes ++ (line.key.bytes ++
      (line.afterKey ++ lineEnd line.afterValue l)) := by
  simp only [Line.text, lineEnd, List.append_assoc, List.cons_append, List.nil_append]

theorem seek_line (n : Nat) {c : UInt8} (hc : c = cr ∨ c = lf ∨ c = colon) (l : List UInt8) :
    seek (fun c => c == cr || c == lf || c == colon) (List.replicate n space ++ c :: l) =
      some (c, l) := by
  refine seek_eq_some_iff.mpr ⟨_, rfl, fun x hx => ?_, ?_⟩
  · rw [List.eq_of_mem_replicate hx]
    decide
  · rcases hc with rfl | rfl | rfl <;> decide

/-- What is read behind a value that is taken for the name. -/
theorem readValue_lineEnd {α : Type} (finish : List UInt8 → Except String α) (n : Nat)
    (l : List UInt8) : readValue finish (lineEnd n l) = some (.error "No ':'\n") := by
  have hcolon : cr ≠ colon := by decide
  rw [readValue, lineEnd, seek_line n (Or.inl rfl), Option.bind_some]
  simp only [if_pos hcolon]

/-- **What is read behind a key** is the value of its line. -/
theorem readValue_afterKey {α : Type} (finish : List UInt8 → Except String α) (line : Line)
    (l : List UInt8) :
    readValue finish (line.afterKey ++ lineEnd line.afterValue l) =
      some (finish line.value.bytes) := by
  obtain ⟨c, value, hvalue⟩ := List.exists_cons_of_ne_nil line.value.nonempty
  have hplain := line.value.plain c (by rw [hvalue]; exact List.mem_cons_self)
  have hc : c ≠ space ∧ c ≠ cr ∧ c ≠ lf := by
    refine ⟨?_, ?_, ?_⟩ <;>
      · rintro rfl
        exact absurd hplain.1 (by decide)
  obtain ⟨d, rest, hd, hrest⟩ : ∃ d rest, lineEnd line.afterValue l = d :: rest ∧
      (d == space || d == cr || d == lf) = true := by
    cases line.afterValue with
    | zero => exact ⟨cr, lf :: l, rfl, by decide⟩
    | succ n => exact ⟨space, List.replicate n space ++ cr :: lf :: l, rfl, by decide⟩
  have hskip : seek (fun c => !(c == space))
      (List.replicate line.beforeValue space ++ (line.value.bytes ++ d :: rest)) =
        some (c, value ++ d :: rest) := by
    refine seek_eq_some_iff.mpr ⟨List.replicate line.beforeValue space, ?_, fun x hx => ?_, ?_⟩
    · rw [hvalue, List.cons_append]
    · rw [List.eq_of_mem_replicate hx]
      decide
    · simp [hc.1]
  have hend : seek (fun c => c == space || c == cr || c == lf) (line.value.bytes ++ d :: rest) =
      some (d, rest) := by
    refine seek_eq_some_iff.mpr ⟨_, rfl, fun x hx => ?_, hrest⟩
    have hblank : isBlank x = false := isBlank_of_plain (line.value.plain x hx).1
    exact hblank
  have htake : (line.value.bytes ++ d :: rest).take
      ((line.value.bytes ++ d :: rest).length - (rest.length + 1)) = line.value.bytes := by
    rw [List.length_append, List.length_cons, Nat.add_sub_cancel, List.take_left]
  rw [Line.afterKey_append, readValue, seek_line _ (Or.inr (Or.inr rfl)), Option.bind_some, hd]
  simp only [ne_eq, not_true_eq_false, if_false]
  split
  · rename_i hnil
    simp [line.value.nonempty] at hnil
  · rename_i x tail hcur
    have hx : ¬ (x = cr ∨ x = lf) := by
      cases hn : line.beforeValue with
      | zero =>
          rw [hn, hvalue] at hcur
          obtain ⟨rfl, -⟩ := List.cons.inj hcur
          exact not_or.mpr hc.2
      | succ n =>
          rw [hn] at hcur
          obtain ⟨rfl, -⟩ := List.cons.inj hcur
          decide
    rw [if_neg hx, hskip, Option.bind_some]
    simp only
    rw [← List.cons_append, ← hvalue, hend, Option.map_some]
    simp only [htake]

/-- Behind the text there is something that is no brace and no blank. -/
def Unopened (l : List UInt8) : Prop := ∃ c rest, Follows l c rest ∧ c ≠ openBrace

theorem Unopened.openBlock {l : List UInt8} (h : Unopened l) :
    openBlock l = some (.error "Wrong Block\n") := by
  obtain ⟨c, rest, hfollows, hc⟩ := h
  exact openBlock_wrong hfollows hc

theorem Unopened.gap {gap l : List UInt8} (hgap : ∀ c ∈ gap, isBlank c = true)
    (h : Unopened l) : Unopened (gap ++ l) := by
  obtain ⟨c, rest, ⟨⟨blanks, rfl, hblanks⟩, hvisible⟩, hc⟩ := h
  exact ⟨c, rest, ⟨⟨gap ++ blanks, (List.append_assoc _ _ _).symm,
    List.forall_mem_append.mpr ⟨hgap, hblanks⟩⟩, hvisible⟩, hc⟩

theorem unopened_cons {c : UInt8} (hvisible : isBlank c = false) (hc : c ≠ openBrace)
    (l : List UInt8) : Unopened (c :: l) :=
  ⟨c, l, ⟨⟨[], rfl, fun _ h => absurd h List.not_mem_nil⟩, hvisible⟩, hc⟩

theorem Token.unopened (t : Token) (l : List UInt8) : Unopened (t.bytes ++ l) := by
  obtain ⟨c, rest, hbytes⟩ := List.exists_cons_of_ne_nil t.nonempty
  have hplain := t.plain c (by rw [hbytes]; exact List.mem_cons_self)
  rw [hbytes]
  refine unopened_cons (isBlank_of_plain hplain.1) ?_ _
  rintro rfl
  exact absurd hplain.1 (by decide)

theorem Line.afterKey_unopened (line : Line) (l : List UInt8) : Unopened (line.afterKey ++ l) := by
  rw [Line.afterKey_append]
  have hcolon : isBlank colon = false ∧ colon ≠ openBrace := by decide
  exact (unopened_cons hcolon.1 hcolon.2 _).gap (blank_replicate line.beforeColon)

theorem lineEnd_unopened {n : Nat} {l : List UInt8} (h : Unopened l) : Unopened (lineEnd n l) := by
  have hnext : Unopened ([cr, lf] ++ l) := h.gap (by simp [isBlank])
  exact hnext.gap (blank_replicate n)

/-! ## The text as it is scanned -/

theorem braceFree_append {u v : List UInt8} (hu : BraceFree u) (hv : BraceFree v) :
    BraceFree (u ++ v) := List.forall_mem_append.mpr ⟨hu, hv⟩

theorem braceFree_of_blank {gap : List UInt8} (h : ∀ c ∈ gap, isBlank c = true) :
    BraceFree gap := by
  intro c hc
  have hblank := h c hc
  constructor <;>
    · rintro rfl
      revert hblank
      decide

theorem Token.braceFree (t : Token) : BraceFree t.bytes := by
  intro c hc
  obtain ⟨hplain, hclose⟩ := t.plain c hc
  refine ⟨?_, hclose⟩
  rintro rfl
  revert hplain
  decide

theorem Line.braceFree (line : Line) : BraceFree line.text := by
  have hcolon : BraceFree [colon] := by simp [BraceFree]; decide
  have hbreak : BraceFree [cr, lf] := braceFree_of_blank (by simp [isBlank])
  have hafter : BraceFree line.afterKey :=
    braceFree_append (braceFree_of_blank (blank_replicate _)) (braceFree_append hcolon
      (braceFree_append (braceFree_of_blank (blank_replicate _)) line.value.braceFree))
  exact braceFree_append (braceFree_of_blank line.before.blank) (braceFree_append
    line.key.braceFree (braceFree_append hafter
      (braceFree_append (braceFree_of_blank (blank_replicate _)) hbreak)))

theorem Block.braceFree (b : Block) : BraceFree b.body := by
  have hlines : BraceFree (b.lines.flatMap Line.text) := by
    intro c hc
    obtain ⟨line, -, hline⟩ := List.mem_flatMap.mp hc
    exact line.braceFree c hline
  exact braceFree_append (braceFree_of_blank b.afterOpen.blank)
    (braceFree_append hlines (braceFree_of_blank b.beforeClose.blank))

/-- What `SetBlock` makes of a word that it takes for the name: the braces behind a name. -/
def Opens (w : Token × Option Block) (r : Outcome (List UInt8 × List UInt8)) : Prop :=
  match w.2 with
  | some b => ∃ tail, r = some (.ok (openBrace :: (b.body ++ closeBrace :: tail), closeBrace :: tail))
  | none => r = some (.error "Wrong Block\n")

/-- What `GetString` makes of a word that it takes for the key. -/
def Reads {α : Type} (finish : List UInt8 → Except String α) (w : Token × Option Line)
    (r : Outcome α) : Prop :=
  match w.2 with
  | some line => r = some (finish line.value.bytes)
  | none => r = some (.error "No ':'\n")

theorem Token.isWord (t : Token) : IsWord t.bytes := fun c hc => (t.plain c hc).1

theorem Gap.skipped (g : Gap) (t : Token) : ∀ c ∈ g.bytes, c ≠ t.bytes.headD 0 :=
  fun c hc => t.letter_ne (Or.inl (isDelimiter_of_blank (g.blank c hc)))

theorem Stopped.ne_nil {l : List UInt8} (h : Stopped l) : l ≠ [] := by
  obtain ⟨d, rest, rfl, -, -⟩ := h
  exact List.cons_ne_nil d rest

theorem lineEnd_split (n : Nat) (l : List UInt8) :
    lineEnd n l = (List.replicate n space ++ [cr, lf]) ++ l := by
  rw [lineEnd, List.append_assoc, List.cons_append, List.cons_append, List.nil_append]

theorem Line.afterKey_split (line : Line) (l : List UInt8) :
    line.afterKey ++ l = (List.replicate line.beforeColon space ++
      colon :: List.replicate line.beforeValue space) ++ (line.value.bytes ++ l) := by
  rw [Line.afterKey_append, List.append_assoc, List.cons_append]

theorem replicate_skipped (n : Nat) (t : Token) :
    ∀ c ∈ List.replicate n space, c ≠ t.bytes.headD 0 :=
  fun c hc => t.letter_ne (Or.inl (isDelimiter_of_blank (blank_replicate n c hc)))

theorem Line.colon_skipped (line : Line) (t : Token) :
    ∀ c ∈ List.replicate line.beforeColon space ++
      colon :: List.replicate line.beforeValue space, c ≠ t.bytes.headD 0 :=
  List.forall_mem_append.mpr ⟨replicate_skipped _ t,
    List.forall_mem_cons.mpr ⟨t.letter_ne (Or.inl (by decide)), replicate_skipped _ t⟩⟩

theorem lineEnd_skipped (n : Nat) (t : Token) :
    ∀ c ∈ List.replicate n space ++ [cr, lf], c ≠ t.bytes.headD 0 :=
  List.forall_mem_append.mpr ⟨replicate_skipped n t, List.forall_mem_cons.mpr
    ⟨t.letter_ne (Or.inl (by decide)), List.forall_mem_cons.mpr
      ⟨t.letter_ne (Or.inl (by decide)), fun c hc => absurd hc List.not_mem_nil⟩⟩⟩

theorem Unopened.ne_nil {l : List UInt8} (h : Unopened l) : l ≠ [] := by
  obtain ⟨c, rest, ⟨⟨blanks, rfl, -⟩, -⟩, -⟩ := h
  simp

section

variable (block : Token)

/-- `SetBlock` over a word and what ends it. -/
theorem setBlock_passes (t : Token) (role : Option Block) {l l' : List UInt8} (hl : Stopped l)
    (hopen : Opens (t, role) (openBlock l))
    (hskip : setBlock block.bytes l = setBlock block.bytes l') :
    Passes (setBlock block.bytes) (fun w => Meets block.bytes w.1.bytes) Opens (t.bytes ++ l)
      [(t, role)] l' := by
  have hword := setBlock_word block.nonempty hl t.isWord
  refine .single (fun hmeets => ?_) fun hnot => (hword.2 hnot).trans hskip
  rw [hword.1 hmeets]
  exact hopen

theorem setBlock_line (line : Line) {l : List UInt8} (hl : Unopened l) :
    Passes (setBlock block.bytes) (fun w => Meets block.bytes w.1.bytes) Opens (line.text ++ l)
      (line.words.map fun w => (w.1, none)) l ∧ Unopened (line.text ++ l) := by
  have hkey := line.afterKey_stopped (lineEnd line.afterValue l)
  have hvalue := lineEnd_stopped line.afterValue l
  rw [Line.text_append]
  constructor
  · have hmiddle : setBlock block.bytes (line.afterKey ++ lineEnd line.afterValue l) =
        setBlock block.bytes (line.value.bytes ++ lineEnd line.afterValue l) := by
      rw [Line.afterKey_split]
      exact setBlock_gap (line.colon_skipped block) (by simp [hvalue.ne_nil])
    have hbehind : setBlock block.bytes (lineEnd line.afterValue l) = setBlock block.bytes l := by
      rw [lineEnd_split]
      exact setBlock_gap (lineEnd_skipped _ block) hl.ne_nil
    exact .ahead (setBlock_gap (line.before.skipped block) (by simp [hkey.ne_nil]))
      ((setBlock_passes block line.key none hkey (line.afterKey_unopened _).openBlock hmiddle).trans
        (setBlock_passes block line.value none hvalue (lineEnd_unopened hl).openBlock hbehind))
  · exact (line.key.unopened _).gap line.before.blank

/-- **`SetBlock` over a block**, up to its closing brace. -/
theorem setBlock_block (b : Block) (l : List UInt8) :
    Passes (setBlock block.bytes) (fun w => Meets block.bytes w.1.bytes) Opens (b.text ++ l)
      ((b.name, some b) :: b.words.map fun w => (w.1, none))
      (closeBrace :: (b.afterClose.bytes ++ l)) := by
  have hwords : b.words.map (fun w => (w.1, (none : Option Block))) =
      b.lines.flatMap fun line => line.words.map fun w => (w.1, none) := by
    rw [Block.words, List.map_flatMap]
  have htext : b.text ++ l = b.name.bytes ++ (b.beforeOpen.bytes ++
      openBrace :: (b.body ++ closeBrace :: (b.afterClose.bytes ++ l))) := by
    simp only [Block.text, List.append_assoc, List.cons_append]
  have hbody : b.body ++ closeBrace :: (b.afterClose.bytes ++ l) =
      b.afterOpen.bytes ++ (b.lines.flatMap Line.text ++
        (b.beforeClose.bytes ++ closeBrace :: (b.afterClose.bytes ++ l))) := by
    simp only [Block.body, List.append_assoc]
  have hbraces : isBlank closeBrace = false ∧ closeBrace ≠ openBrace := by decide
  have hclose : Unopened (b.beforeClose.bytes ++ closeBrace :: (b.afterClose.bytes ++ l)) :=
    (unopened_cons hbraces.1 hbraces.2 _).gap b.beforeClose.blank
  have hstopped : Stopped (b.beforeOpen.bytes ++
      openBrace :: (b.body ++ closeBrace :: (b.afterClose.bytes ++ l))) :=
    stopped_of_gap b.beforeOpen.blank ⟨openBrace, _, rfl, by decide, by simp⟩
  obtain ⟨hlines, hopened⟩ :=
    Passes.flatMap (fun line (_ : line ∈ b.lines) _ => setBlock_line block line) hclose
  have hopen : Opens (b.name, some b) (openBlock (b.beforeOpen.bytes ++
      openBrace :: (b.body ++ closeBrace :: (b.afterClose.bytes ++ l)))) := by
    refine ⟨b.afterClose.bytes ++ l, ?_⟩
    rw [openBlock_brace ⟨⟨b.beforeOpen.bytes, rfl, b.beforeOpen.blank⟩, isBlank_openBrace⟩
      b.braceFree (Or.inr rfl), if_neg hbraces.2]
  have hgap : ∀ c ∈ b.beforeOpen.bytes ++ openBrace :: b.afterOpen.bytes,
      c ≠ block.bytes.headD 0 :=
    List.forall_mem_append.mpr ⟨b.beforeOpen.skipped block, List.forall_mem_cons.mpr
      ⟨block.letter_ne (Or.inl (by decide)), b.afterOpen.skipped block⟩⟩
  rw [hwords, htext]
  refine (setBlock_passes block b.name (some b) hstopped hopen ?_).trans
    (hlines.behind (setBlock_gap (b.beforeClose.skipped block) (List.cons_ne_nil _ _)))
  rw [hbody, ← setBlock_gap hgap hopened.ne_nil, List.append_assoc, List.cons_append]

/-- **`SetBlock` over the text** gives what the first word makes of it that meets the name. -/
theorem setBlock_blocks {w : Token × Option Block} : ∀ {blocks : List Block},
    FirstIn (fun w => Meets block.bytes w.1.bytes)
      (blocks.flatMap fun b => (b.name, some b) :: b.words.map fun w => (w.1, none)) w →
    Opens w (setBlock block.bytes (blocks.flatMap Block.text)) := by
  intro blocks
  induction blocks with
  | nil => exact fun hfirst => absurd hfirst firstIn_nil
  | cons b blocks ih =>
      intro hfirst
      have hb := setBlock_block block b (blocks.flatMap Block.text)
      rw [List.flatMap_cons] at hfirst ⊢
      rcases firstIn_append.mp hfirst with hhere | ⟨hnone, hlater⟩
      · exact hb.found w hhere
      · have hne : blocks.flatMap Block.text ≠ [] := by
          cases blocks with
          | nil => exact absurd hlater firstIn_nil
          | cons b' blocks =>
              rw [List.flatMap_cons, Block.text]
              simp [b'.name.nonempty]
        have hgap : ∀ c ∈ closeBrace :: b.afterClose.bytes, c ≠ block.bytes.headD 0 :=
          List.forall_mem_cons.mpr ⟨block.letter_ne (Or.inr rfl), b.afterClose.skipped block⟩
        rw [hb.passed hnone, ← List.cons_append, setBlock_gap hgap hne]
        exact ih hlater

theorem setBlock_config {cfg : Config} {w : Token × Option Block}
    (h : FirstIn (fun w => Meets block.bytes w.1.bytes) cfg.words w) :
    Opens w (setBlock block.bytes cfg.text) := by
  have hne : cfg.blocks.flatMap Block.text ≠ [] := by
    rw [Config.words] at h
    cases hblocks : cfg.blocks with
    | nil =>
        rw [hblocks] at h
        exact absurd h firstIn_nil
    | cons b blocks =>
        rw [List.flatMap_cons, Block.text]
        simp [b.name.nonempty]
  rw [Config.text, setBlock_gap (cfg.before.skipped block) hne]
  exact setBlock_blocks block h

end

section

variable {α : Type} (finish : List UInt8 → Except String α) (key : Token) {stop : Nat}

/-- The loop of `GetString` over a word and what ends it. -/
theorem search_passes (t : Token) (role : Option Line) {l l' : List UInt8} (hl : Stopped l)
    (hstop : stop ≤ l.length) (hread : Reads finish (t, role) (readValue finish l))
    (hskip : search finish key.bytes stop l = search finish key.bytes stop l') :
    Passes (search finish key.bytes stop) (fun w => key.bytes <:+ w.1.bytes) (Reads finish)
      (t.bytes ++ l) [(t, role)] l' := by
  refine .single (fun hsuffix => ?_) fun hnot =>
    ((search_word key.nonempty hl hstop t.isWord).2 hnot).trans hskip
  rw [(search_word key.nonempty hl hstop t.isWord).1 hsuffix]
  exact hread

theorem search_line (line : Line) {l : List UInt8} (hl : stop ≤ l.length) :
    Passes (search finish key.bytes stop) (fun w => key.bytes <:+ w.1.bytes) (Reads finish)
      (line.text ++ l) line.words l ∧ stop ≤ (line.text ++ l).length := by
  have hend : stop ≤ (lineEnd line.afterValue l).length := by
    rw [lineEnd_split, List.length_append]
    exact Nat.le_add_left_of_le hl
  have hvalue : stop ≤ (line.value.bytes ++ lineEnd line.afterValue l).length := by
    rw [List.length_append]
    exact Nat.le_add_left_of_le hend
  have hafter : stop ≤ (line.afterKey ++ lineEnd line.afterValue l).length := by
    rw [List.length_append]
    exact Nat.le_add_left_of_le hend
  have hmiddle : search finish key.bytes stop (line.afterKey ++ lineEnd line.afterValue l) =
      search finish key.bytes stop (line.value.bytes ++ lineEnd line.afterValue l) := by
    rw [Line.afterKey_split]
    exact search_gap (line.colon_skipped key) hvalue
  have hbehind : search finish key.bytes stop (lineEnd line.afterValue l) =
      search finish key.bytes stop l := by
    rw [lineEnd_split]
    exact search_gap (lineEnd_skipped _ key) hl
  have hkeyEnd : stop ≤ (line.key.bytes ++ (line.afterKey ++ lineEnd line.afterValue l)).length := by
    rw [List.length_append]
    exact Nat.le_add_left_of_le hafter
  constructor
  · rw [Line.text_append]
    exact .ahead (search_gap (line.before.skipped key) hkeyEnd)
      ((search_passes finish key line.key (some line) (line.afterKey_stopped _) hafter
        (readValue_afterKey finish line l) hmiddle).trans
          (search_passes finish key line.value none (lineEnd_stopped _ _) hend
            (readValue_lineEnd finish _ l) hbehind))
  · rw [List.length_append]
    exact Nat.le_add_left_of_le hl

/-- **The loop of `GetString` over a block.** -/
theorem search_block (b : Block) (tail : List UInt8) :
    Passes (search finish key.bytes (tail.length + 1)) (fun w => key.bytes <:+ w.1.bytes)
      (Reads finish) (openBrace :: (b.body ++ closeBrace :: tail)) b.words (closeBrace :: tail) := by
  have hclose : tail.length + 1 ≤ (b.beforeClose.bytes ++ closeBrace :: tail).length := by
    rw [List.length_append, List.length_cons]
    exact Nat.le_add_left _ _
  obtain ⟨hlines, hlong⟩ :=
    Passes.flatMap (fun line (_ : line ∈ b.lines) _ => search_line finish key line) hclose
  have hgap : ∀ c ∈ openBrace :: b.afterOpen.bytes, c ≠ key.bytes.headD 0 :=
    List.forall_mem_cons.mpr ⟨key.letter_ne (Or.inl (by decide)), b.afterOpen.skipped key⟩
  have hbody : openBrace :: (b.body ++ closeBrace :: tail) = (openBrace :: b.afterOpen.bytes) ++
      (b.lines.flatMap Line.text ++ (b.beforeClose.bytes ++ closeBrace :: tail)) := by
    simp only [Block.body, List.append_assoc, List.cons_append]
  rw [hbody]
  exact .ahead (search_gap hgap hlong)
    (hlines.behind (search_gap (b.beforeClose.skipped key) le_rfl))

/-! ## What is found -/

variable {cfg : Config} {block : Token} {line : Line}

theorem Config.mem_words_some {t : Token} {b : Block} (h : (t, some b) ∈ cfg.words) :
    t = b.name := by
  obtain ⟨b', -, hword⟩ := List.mem_flatMap.mp h
  rcases List.mem_cons.mp hword with heq | hmap
  · obtain ⟨rfl, hb⟩ := Prod.mk.inj heq
    rw [Option.some.inj hb]
  · obtain ⟨w, -, heq⟩ := List.mem_map.mp hmap
    exact absurd (Prod.mk.inj heq).2 (by simp)

theorem Block.mem_words_some {b : Block} {t : Token} (h : (t, some line) ∈ b.words) :
    t = line.key := by
  obtain ⟨line', -, hword⟩ := List.mem_flatMap.mp h
  rcases List.mem_pair.mp hword with heq | heq
  · obtain ⟨rfl, hline⟩ := Prod.mk.inj heq
    rw [Option.some.inj hline]
  · exact absurd (Prod.mk.inj heq).2 (by simp)

/-- Where a key is found, the value of its line is read. -/
theorem lookup_of_leads (h : cfg.Leads block key line) (used : Bool) :
    lookup finish ⟨some cfg.text, used⟩ block.bytes key.bytes = some (finish line.value.bytes) := by
  obtain ⟨b, hblock, hkey⟩ := h
  obtain ⟨tail, hopens⟩ : ∃ tail, setBlock block.bytes cfg.text =
      some (.ok (openBrace :: (b.body ++ closeBrace :: tail), closeBrace :: tail)) :=
    setBlock_config block hblock
  simp only [lookup, hopens, List.length_cons]
  exact (search_block finish key b tail).found _ hkey

/-- Where none is, the reading fails. -/
theorem lookup_of_not_leads {b : Block} (hb : b ∈ cfg.blocks)
    (h : ∀ line, ¬ cfg.Leads b.name key line) (used : Bool) :
    ∃ message, lookup finish ⟨some cfg.text, used⟩ b.name.bytes key.bytes =
      some (.error message) := by
  have hmem : (b.name, some b) ∈ cfg.words := List.mem_flatMap.mpr ⟨b, hb, List.mem_cons_self⟩
  obtain ⟨⟨t, role⟩, hfirst⟩ := exists_firstIn
    (Q := fun w : Token × Option Block => Meets b.name.bytes w.1.bytes) hmem (meets_self _)
  have hopens := setBlock_config b.name hfirst
  cases role with
  | none =>
      have hwrong : setBlock b.name.bytes cfg.text = some (.error "Wrong Block\n") := hopens
      exact ⟨"Wrong Block\n", by simp only [lookup, hwrong]⟩
  | some found =>
      obtain rfl := Config.mem_words_some hfirst.mem
      obtain ⟨tail, hopens⟩ : ∃ tail, setBlock b.name.bytes cfg.text =
        some (.ok (openBrace :: (found.body ++ closeBrace :: tail), closeBrace :: tail)) := hopens
      have hsearch := search_block finish key found tail
      simp only [lookup, hopens, List.length_cons]
      by_cases hnone : ∀ w ∈ found.words, ¬ key.bytes <:+ w.1.bytes
      · rw [hsearch.passed hnone, search_stop (by rw [List.length_cons])]
        exact ⟨"", rfl⟩
      · obtain ⟨w, hnot⟩ := not_forall.mp hnone
        obtain ⟨hw, hsuffix⟩ := Classical.not_imp.mp hnot
        obtain ⟨⟨t', role'⟩, hfirst'⟩ := exists_firstIn
          (Q := fun w : Token × Option Line => key.bytes <:+ w.1.bytes) hw (not_not.mp hsuffix)
        cases role' with
        | none => exact ⟨"No ':'\n", hsearch.found _ hfirst'⟩
        | some line =>
            obtain rfl := Block.mem_words_some hfirst'.mem
            exact absurd ⟨found, hfirst, hfirst'⟩ (h line)

theorem Config.Leads.mem (h : cfg.Leads block key line) :
    ∃ b ∈ cfg.blocks, line ∈ b.lines := by
  obtain ⟨b, hblock, hkey⟩ := h
  refine ⟨b, ?_, ?_⟩
  · obtain ⟨b', hb', hword⟩ := List.mem_flatMap.mp hblock.mem
    rcases List.mem_cons.mp hword with heq | hmap
    · rw [Option.some.inj (Prod.mk.inj heq).2]
      exact hb'
    · obtain ⟨w, -, heq⟩ := List.mem_map.mp hmap
      exact absurd (Prod.mk.inj heq).2 (by simp)
  · obtain ⟨line', hline', hword⟩ := List.mem_flatMap.mp hkey.mem
    rcases List.mem_pair.mp hword with heq | heq
    · rw [Option.some.inj (Prod.mk.inj heq).2]
      exact hline'
    · exact absurd (Prod.mk.inj heq).2 (by simp)

end

theorem Token.ext {t t' : Token} (h : t.bytes = t'.bytes) : t = t' := by
  cases t
  cases t'
  simpa using h

/-- The buffer has room for every value of the text. -/
def Config.Fits (cfg : Config) (strsize : Int) : Prop :=
  ∀ b ∈ cfg.blocks, ∀ line ∈ b.lines, (line.value.bytes.length : Int) < strsize

theorem loadFile_text {cfg : Config} {b : Block} (hb : b ∈ cfg.blocks) :
    (new.loadFile (some cfg.text)).1 = ⟨some cfg.text, true⟩ := by
  have hne : cfg.text ≠ [] := by
    intro hnil
    have hname : b.name.bytes = [] :=
      (List.append_eq_nil_iff.mp (List.flatMap_eq_nil_iff.mp
        (List.append_eq_nil_iff.mp hnil).2 b hb)).1
    exact b.name.nonempty hname
  cases htext : cfg.text with
  | nil => exact absurd htext hne
  | cons c text => rfl

/-- **`GetString` reads the value of exactly the key** where the search leads to it, and to no
line for a key that is not in the block. -/
theorem getString_exact_iff (cfg : Config) {b : Block} (hb : b ∈ cfg.blocks) (key : Token)
    {strsize : Int} (hsize : cfg.Fits strsize) :
    ((∀ line ∈ b.lines, line.key = key →
        getString (new.loadFile (some cfg.text)).1 b.name.bytes key.bytes strsize =
          some (.ok line.value.bytes)) ∧
      ((∀ line ∈ b.lines, line.key ≠ key) → ∃ message,
        getString (new.loadFile (some cfg.text)).1 b.name.bytes key.bytes strsize =
          some (.error message))) ↔
    ((∀ line ∈ b.lines, line.key = key →
        ∃ found, cfg.Leads b.name key found ∧ found.value = line.value) ∧
      ((∀ line ∈ b.lines, line.key ≠ key) → ∀ found, ¬ cfg.Leads b.name key found)) := by
  have hread : ∀ {found}, cfg.Leads b.name key found →
      getString (new.loadFile (some cfg.text)).1 b.name.bytes key.bytes strsize =
        some (.ok found.value.bytes) := by
    intro found hleads
    obtain ⟨b', hb', hfound⟩ := hleads.mem
    have hroom := hsize b' hb' found hfound
    rw [loadFile_text hb, getString, lookup_of_leads _ key hleads, if_neg (by omega)]
  have hfail : (∀ found, ¬ cfg.Leads b.name key found) → ∃ message,
      getString (new.loadFile (some cfg.text)).1 b.name.bytes key.bytes strsize =
        some (.error message) := by
    intro hnone
    rw [loadFile_text hb]
    exact lookup_of_not_leads _ key hb hnone true
  refine and_congr (forall₃_congr fun line _ _ => ?_) (imp_congr_right fun _ => ?_)
  · constructor
    · intro hvalue
      by_cases hleads : ∃ found, cfg.Leads b.name key found
      · obtain ⟨found, hfound⟩ := hleads
        rw [hread hfound, Option.some.injEq, Except.ok.injEq] at hvalue
        exact ⟨found, hfound, Token.ext hvalue⟩
      · obtain ⟨message, herror⟩ := hfail (not_exists.mp hleads)
        rw [herror] at hvalue
        simp at hvalue
    · rintro ⟨found, hfound, hvalue⟩
      rw [hread hfound, hvalue]
  · constructor
    · rintro ⟨message, herror⟩ found hfound
      rw [hread hfound] at herror
      simp at herror
    · exact hfail

/-! ## Two files -/

/-- A gap of one space. -/
def oneSpace : Gap := ⟨[space], by simp [isBlank]⟩

/-- `key : value`. -/
def plainLine (key value : Token) : Line := ⟨oneSpace, key, 1, 1, value, 0⟩

/-- The words `B`, `b`, `ab`, `x` and `y`. -/
def wordB : Token := ⟨[0x42], by decide, by simp [isDelimiter]; decide⟩
def wordb : Token := ⟨[0x62], by decide, by simp [isDelimiter]; decide⟩
def wordab : Token := ⟨[0x61, 0x62], by decide, by simp [isDelimiter]; decide⟩
def wordx : Token := ⟨[0x78], by decide, by simp [isDelimiter]; decide⟩
def wordy : Token := ⟨[0x79], by decide, by simp [isDelimiter]; decide⟩

/-- `B { b : y }`, and `B { ab : x  b : y }`. -/
def clearBlock : Block :=
  ⟨wordB, oneSpace, oneSpace, [plainLine wordb wordy], oneSpace, oneSpace, by decide⟩

def shadowBlock : Block :=
  ⟨wordB, oneSpace, oneSpace, [plainLine wordab wordx, plainLine wordb wordy], oneSpace, oneSpace,
    by decide⟩

def clearConfig : Config := ⟨oneSpace, [clearBlock], by decide⟩

def shadowConfig : Config := ⟨oneSpace, [shadowBlock], by decide⟩

theorem clearConfig_read :
    getString (new.loadFile (some clearConfig.text)).1 clearBlock.name.bytes wordb.bytes 16 =
      some (.ok wordy.bytes) := by
  have hfits : clearConfig.Fits 16 := by
    simp [Config.Fits, clearConfig, clearBlock, plainLine, wordy]
  have hleads : clearConfig.Leads clearBlock.name wordb (plainLine wordb wordy) :=
    ⟨clearBlock, ⟨[], _, rfl, meets_self _, by simp⟩, [], _, rfl, List.suffix_rfl, by simp⟩
  refine ((getString_exact_iff clearConfig (b := clearBlock) List.mem_cons_self wordb hfits).mpr
    ⟨fun line hline _ => ⟨_, hleads, ?_⟩, fun hno => ?_⟩).1 _ List.mem_cons_self rfl
  · rw [List.mem_singleton.mp hline]
  · exact absurd rfl (hno _ List.mem_cons_self)

/-- The value of `ab` is read for `b`. -/
theorem shadowConfig_misread :
    plainLine wordb wordy ∈ shadowBlock.lines ∧
      getString (new.loadFile (some shadowConfig.text)).1 shadowBlock.name.bytes wordb.bytes 16 =
        some (.ok wordx.bytes) :=
  ⟨List.mem_cons_of_mem _ List.mem_cons_self, by decide +kernel⟩

end Parser

end SessionServer.Common
