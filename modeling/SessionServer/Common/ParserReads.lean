/-
  Common/ParserReads.lean --- where the parser stays inside the file.

  `BlockScan` and `KeyScan` say what the two scans make of a buffer, by the places they stop
  at: the first word that is the one looked for, and the words at which a scan goes astray,
  because they do not end or because the scan steps over its end behind them.
-/
import SessionServer.Common.ParserScan

set_option autoImplicit false

namespace SessionServer.Common

open SessionServer.Foundation

namespace Parser

/-! ## The search for a block -/

/-- An even number of times the byte directly before. -/
def EvenRun (alpha : UInt8) (before : List UInt8) : Prop :=
  Even (before.reverse.takeWhile (· == alpha)).length

theorem evenRun_nil (alpha : UInt8) : EvenRun alpha [] := by
  rw [EvenRun]
  exact Even.zero

theorem evenRun_of_ne {alpha c : UInt8} (h : c ≠ alpha) (before : List UInt8) :
    EvenRun alpha (before ++ [c]) := by
  rw [EvenRun, List.reverse_concat, List.takeWhile_cons_of_neg (by simpa using h)]
  exact Even.zero

theorem evenRun_self {alpha : UInt8} {before : List UInt8} :
    EvenRun alpha (before ++ [alpha]) ↔ ¬ EvenRun alpha before := by
  rw [EvenRun, EvenRun, List.reverse_concat, List.takeWhile_cons_of_pos (by simp),
    List.length_cons, Nat.even_add_one]

/-- `SetBlock` compares the word at `l`: it begins with the letter of the block, an even
number of the same letter is before it, and the last byte of the file is behind it. -/
structure Compared (block before l : List UInt8) : Prop where
  head : l.head? = some (block.headD 0)
  even : EvenRun (block.headD 0) before
  room : 2 ≤ l.length

/-- It is the name of the block. -/
def BlockAt (block before l : List UInt8) : Prop := Compared block before l ∧ WordAt block l

/-- It does not end, or it is a single letter right before the last byte of the file, which
the scan then steps over. -/
def Astray (block before l : List UInt8) : Prop :=
  Compared block before l ∧ (¬ Ended l ∨ l.length = 2)

/-- **What `SetBlock` makes of the buffer from a pointer on.** -/
inductive BlockScan (block before l : List UInt8) : Outcome (List UInt8 × List UInt8) → Prop
  | found {mid rest : List UInt8} (h : First (BlockAt block) before l mid rest) :
      BlockScan block before l (openBlock (rest.drop block.length))
  | absent (hnone : ¬ Somewhere (BlockAt block) before l)
      (hinside : ¬ Somewhere (Astray block) before l) (hne : l ≠ []) :
      BlockScan block before l (some (.error "Wrong Block Name\n"))
  | astray (hnone : ¬ Somewhere (BlockAt block) before l)
      (hastray : l = [] ∨ Somewhere (Astray block) before l) :
      BlockScan block before l none

/-- Bytes that no word is compared at make no difference. -/
theorem BlockScan.append {block before u l : List UInt8}
    {r : Outcome (List UInt8 × List UInt8)} (h : BlockScan block (before ++ u) l r)
    (hnone : ∀ mid mid', u = mid ++ mid' → mid' ≠ [] → ¬ BlockAt block (before ++ mid) (mid' ++ l))
    (hinside : l ≠ [] → ∀ mid mid', u = mid ++ mid' → mid' ≠ [] →
      ¬ Astray block (before ++ mid) (mid' ++ l))
    (hend : l = [] → Somewhere (Astray block) before (u ++ l)) :
    BlockScan block before (u ++ l) r := by
  have hsome : ∀ P : List UInt8 → List UInt8 → Prop,
      (∀ mid mid', u = mid ++ mid' → mid' ≠ [] → ¬ P (before ++ mid) (mid' ++ l)) →
        ¬ Somewhere P (before ++ u) l → ¬ Somewhere P before (u ++ l) := by
    intro P hu hl hsome
    rcases somewhere_append.mp hsome with ⟨mid, mid', hsplit, hne, hholds⟩ | hlater
    · exact hu mid mid' hsplit hne hholds
    · exact hl hlater
  cases h with
  | found h => exact .found (h.append hnone)
  | absent habsent hfine hne =>
      refine .absent (hsome _ hnone habsent) (hsome _ (hinside hne) hfine) ?_
      simp [hne]
  | astray habsent hastray =>
      refine .astray (hsome _ hnone habsent) (Or.inr ?_)
      rcases hastray with hnil | hlater
      · exact hend hnil
      · exact somewhere_append.mpr (Or.inr hlater)

/-- A byte that is not the letter of the block is passed over. -/
theorem BlockScan.cons {block before l : List UInt8} {c : UInt8}
    {r : Outcome (List UInt8 × List UInt8)} (h : BlockScan block (before ++ [c]) l r)
    (hc : c ≠ block.headD 0) (hl : l ≠ []) : BlockScan block before (c :: l) r := by
  have hfirst : ∀ mid mid' : List UInt8, [c] = mid ++ mid' → mid' ≠ [] →
      ¬ Compared block (before ++ mid) (mid' ++ l) := by
    intro mid mid' hsplit hne hcompared
    have hhead := hcompared.head
    cases mid with
    | nil =>
        obtain rfl : [c] = mid' := hsplit
        exact hc (Option.some.inj hhead)
    | cons x mid =>
        obtain ⟨-, hnil⟩ := List.cons.inj hsplit
        exact hne (List.append_eq_nil_iff.mp hnil.symm).2
  exact h.append (u := [c]) (fun mid mid' hsplit hne hat => hfirst mid mid' hsplit hne hat.1)
    (fun _ mid mid' hsplit hne hastray => hfirst mid mid' hsplit hne hastray.1)
    fun hnil => absurd hnil hl

/-- A word that ends is compared with the block. -/
theorem setBlock_compared {block before l : List UInt8} {c d : UInt8} (hblock : block ≠ [])
    (hc : c = block.headD 0) (heven : EvenRun (block.headD 0) before)
    (hrest : ∀ before', EvenRun (block.headD 0) before' →
      BlockScan block before' l (setBlock block l)) :
    BlockScan block before (c :: d :: l) (setBlock block (c :: d :: l)) := by
  have hcompared : Compared block before (c :: d :: l) := ⟨by rw [hc]; rfl, heven, by simp⟩
  have hl : d :: l ≠ [] := List.cons_ne_nil d l
  by_cases hended : Ended (c :: d :: l)
  · obtain ⟨w, hw⟩ := hended.wordAt
    by_cases hname : w = block
    · subst hname
      rw [setBlock_match hblock hl hc hw]
      exact .found (.here ⟨hcompared, hw⟩)
    · rw [setBlock_mismatch hl hc hw hname, List.drop_one, List.tail_cons]
      have heven' : EvenRun (block.headD 0) (before ++ [c, d]) := by
        rw [List.append_cons]
        by_cases hd : d = block.headD 0
        · rw [hd, evenRun_self, hc, evenRun_self, not_not]
          exact heven
        · exact evenRun_of_ne hd _
      -- The second byte is not compared: an odd number of the letter is before it.
      have hplaces : ∀ P : List UInt8 → List UInt8 → Prop,
          (∀ before l, P before l → Compared block before l) → ¬ P before (c :: d :: l) →
          ∀ mid mid' : List UInt8, [c, d] = mid ++ mid' → mid' ≠ [] →
            ¬ P (before ++ mid) (mid' ++ l) := by
        intro P hP hfirst mid mid' hsplit hne hholds
        cases mid with
        | nil =>
            obtain rfl : [c, d] = mid' := hsplit
            rw [List.append_nil] at hholds
            exact hfirst hholds
        | cons x mid =>
            obtain ⟨rfl, htail⟩ := List.cons.inj hsplit
            cases mid with
            | nil =>
                have hcompared := hP _ _ hholds
                have heven := hcompared.even
                rw [hc, evenRun_self] at heven
                exact heven ‹_›
            | cons y mid =>
                obtain ⟨-, hnil⟩ := List.cons.inj htail
                exact hne (List.append_eq_nil_iff.mp hnil.symm).2
      refine (hrest _ heven').append (u := [c, d]) (hplaces _ (fun _ _ h => h.1) ?_)
        (fun hl => hplaces _ (fun _ _ h => h.1) ?_) fun hnil => ?_
      · exact fun hat => hname (hw.unique hat.2)
      · rintro ⟨-, hnot | hlength⟩
        · exact hnot hended
        · exact hl (List.eq_nil_of_length_eq_zero (by simpa using hlength))
      · subst hnil
        exact (First.here (P := Astray block) ⟨hcompared, Or.inr rfl⟩).somewhere
  · rw [setBlock_unended hl hc hended]
    refine .astray ?_ (Or.inr (First.here (P := Astray block) ⟨hcompared, Or.inl hended⟩).somewhere)
    rintro ⟨mid, rest, hsplit, hat⟩
    obtain ⟨x, hx, hdelimiter⟩ := hat.2.ended
    exact hended ⟨x, by rw [hsplit]; exact List.mem_append_right _ hx, hdelimiter⟩

/-- **The scan of `SetBlock`**, by the number of bytes left. -/
theorem setBlock_scan {block : List UInt8} (hblock : block ≠ []) :
    ∀ {l before : List UInt8}, EvenRun (block.headD 0) before →
      BlockScan block before l (setBlock block l) := by
  intro l
  induction hn : l.length using Nat.strong_induction_on generalizing l with
  | _ n ih =>
      intro before heven
      cases l with
      | nil =>
          rw [setBlock_nil]
          refine .astray (fun hsome => ?_) (Or.inl rfl)
          have hroom := (somewhere_nil.mp hsome).1.room
          simp at hroom
      | cons c l =>
          by_cases hl : l = []
          · subst hl
            have hshort : ¬ Somewhere (Compared block) before [c] := by
              rintro ⟨mid, rest, hsplit, hcompared⟩
              have hroom := hcompared.room
              have hlength := congrArg List.length hsplit
              simp only [List.length_singleton, List.length_append] at hlength
              omega
            rw [setBlock_singleton]
            exact .absent (fun ⟨mid, rest, hsplit, hat⟩ => hshort ⟨mid, rest, hsplit, hat.1⟩)
              (fun ⟨mid, rest, hsplit, hat⟩ => hshort ⟨mid, rest, hsplit, hat.1⟩) (by simp)
          · by_cases hc : c = block.headD 0
            · obtain ⟨d, rest, rfl⟩ := List.exists_cons_of_ne_nil hl
              have hlt : rest.length < n := by
                rw [← hn, List.length_cons, List.length_cons]
                omega
              exact setBlock_compared hblock hc heven fun before' => ih _ hlt rfl
            · have hlt : l.length < n := by
                rw [← hn, List.length_cons]
                exact Nat.lt_succ_self _
              rw [setBlock_skip hl hc]
              exact (ih _ hlt rfl (evenRun_of_ne hc before)).cons hc hl

/-! ## The search for a name -/

/-- The word at `l` is the name. -/
def KeyAt (name _before l : List UInt8) : Prop := WordAt name l

/-- It is, and begins before the end of the block, which has `stop` bytes from it on. -/
def KeyInside (name : List UInt8) (stop : Nat) (_before l : List UInt8) : Prop :=
  stop < l.length ∧ WordAt name l

/-- A word in the block that begins as the name does and is another one of the same length
goes on behind the end of the block, so that the scan steps over the end. -/
def Overrun (name : List UInt8) (stop : Nat) (_before l : List UInt8) : Prop :=
  stop < l.length ∧ l.head? = some (name.headD 0) ∧
    ∃ w, WordAt w l ∧ w.length = name.length ∧ w ≠ name ∧ l.length < stop + w.length

/-- A word in the block that begins as the name does never ends. -/
def Loose (name : List UInt8) (stop : Nat) (_before l : List UInt8) : Prop :=
  stop < l.length ∧ l.head? = some (name.headD 0) ∧ ¬ Ended l

section

variable {α : Type} {finish : List UInt8 → Except String α} {name before l u w : List UInt8}
  {stop : Nat} {r : Outcome α}

/-- No place in a word but its first has a word of its length. -/
theorem places_of_word {mid mid' v : List UInt8} (hw : WordAt w (w ++ v)) (hsplit : w = mid ++ mid')
    {w' : List UInt8} (hat : WordAt w' (mid' ++ v)) (hlength : w'.length = w.length) :
    mid = [] ∧ w' = w := by
  subst hsplit
  rw [List.append_assoc] at hw
  obtain rfl := hat.unique hw.rest
  have hmid : mid = [] := List.eq_nil_of_length_eq_zero (by
    rw [List.length_append] at hlength
    omega)
  subst hmid
  exact ⟨rfl, rfl⟩

/-- The only place of a list of one byte. -/
theorem place_of_singleton {c : UInt8} {mid mid' : List UInt8} (hsplit : [c] = mid ++ mid')
    (hne : mid' ≠ []) : mid = [] ∧ mid' = [c] := by
  cases mid with
  | nil => exact ⟨rfl, hsplit.symm⟩
  | cons x mid =>
      obtain ⟨-, hnil⟩ := List.cons.inj hsplit
      exact absurd (List.append_eq_nil_iff.mp hnil.symm).2 hne

/-- What the loop makes of the buffer behind the end of the block. -/
inductive BeyondScan (finish : List UInt8 → Except String α) (name before l : List UInt8) :
    Outcome α → Prop
  | found {mid rest : List UInt8} (h : First (KeyAt name) before l mid rest) :
      BeyondScan finish name before l (readValue finish (rest.drop name.length))
  | lost (hnone : ¬ Somewhere (KeyAt name) before l) : BeyondScan finish name before l none

theorem BeyondScan.append (h : BeyondScan finish name (before ++ u) l r)
    (hnone : ∀ mid mid', u = mid ++ mid' → mid' ≠ [] → ¬ WordAt name (mid' ++ l)) :
    BeyondScan finish name before (u ++ l) r := by
  cases h with
  | found h => exact .found (h.append hnone)
  | lost hlost =>
      refine .lost fun hsome => ?_
      rcases somewhere_append.mp hsome with ⟨mid, mid', hsplit, hne, hat⟩ | hlater
      · exact hnone mid mid' hsplit hne hat
      · exact hlost hlater

theorem BeyondScan.cons {c : UInt8} (h : BeyondScan finish name (before ++ [c]) l r)
    (hnone : ¬ WordAt name (c :: l)) : BeyondScan finish name before (c :: l) r :=
  h.append (u := [c]) fun mid mid' hsplit hne hat => by
    obtain ⟨rfl, rfl⟩ := place_of_singleton hsplit hne
    exact hnone hat

/-- **The loop behind the end of the block** goes on to the next place of the name. -/
theorem search_beyond (hname : name ≠ []) : ∀ {l before : List UInt8}, l.length < stop →
    BeyondScan finish name before l (search finish name stop l) := by
  intro l
  induction hn : l.length using Nat.strong_induction_on generalizing l with
  | _ n ih =>
      intro before hlt
      cases l with
      | nil =>
          rw [search_nil (by omega)]
          refine .lost fun hsome => ?_
          obtain ⟨x, hx, -⟩ := (somewhere_nil.mp hsome).ended
          exact List.not_mem_nil hx
      | cons c l =>
          have hne : (c :: l).length ≠ stop := by omega
          have hless : l.length < n := by
            rw [← hn, List.length_cons]
            exact Nat.lt_succ_self _
          by_cases hc : c = name.headD 0
          · by_cases hended : Ended (c :: l)
            · obtain ⟨w, hw⟩ := hended.wordAt
              by_cases hsame : w = name
              · subst hsame
                rw [search_match hname hne hc hw]
                exact .found (.here hw)
              · by_cases hlength : w.length = name.length
                · rw [search_jump hname hne hc hw hlength hsame]
                  obtain ⟨v, hv⟩ := hw.append
                  rw [hv] at hw ⊢
                  rw [List.drop_left]
                  have hpos : 0 < w.length := by
                    rw [hlength]
                    exact List.length_pos_iff.mpr hname
                  have hshort : v.length < n := by
                    rw [← hn, hv, List.length_append]
                    omega
                  refine (ih _ hshort rfl (by omega)).append fun mid mid' hsplit _ hat => ?_
                  exact hsame (places_of_word hw hsplit hat hlength.symm).2.symm
                · rw [search_shift hne hc hw hlength]
                  exact (ih _ hless rfl (by omega)).cons fun hat => hsame (hw.unique hat)
            · rw [search_unended hne hc hended]
              refine .lost ?_
              rintro ⟨mid, rest, hsplit, hat⟩
              obtain ⟨x, hx, hdelimiter⟩ := WordAt.ended hat
              exact hended ⟨x, by rw [hsplit]; exact List.mem_append_right _ hx, hdelimiter⟩
          · rw [search_skip hne hc]
            exact (ih _ hless rfl (by omega)).cons fun hat => hc (hat.head hname)

/-- **What the loop makes of the block**, where `stop` bytes are left from its end on. -/
inductive KeyScan (finish : List UInt8 → Except String α) (name : List UInt8) (stop : Nat)
    (before l : List UInt8) : Outcome α → Prop
  | found {mid rest : List UInt8} (h : First (KeyAt name) before l mid rest)
      (hin : stop < rest.length ∨ Somewhere (Overrun name stop) before l) :
      KeyScan finish name stop before l (readValue finish (rest.drop name.length))
  | lost (hnone : ¬ Somewhere (KeyAt name) before l)
      (hover : Somewhere (Overrun name stop) before l) : KeyScan finish name stop before l none
  | absent (hnone : ¬ Somewhere (KeyInside name stop) before l)
      (hover : ¬ Somewhere (Overrun name stop) before l)
      (hloose : ¬ Somewhere (Loose name stop) before l) :
      KeyScan finish name stop before l (some (.error ""))
  | loose (hnone : ¬ Somewhere (KeyInside name stop) before l)
      (hover : ¬ Somewhere (Overrun name stop) before l)
      (hloose : Somewhere (Loose name stop) before l) : KeyScan finish name stop before l none

theorem KeyScan.append (h : KeyScan finish name stop (before ++ u) l r)
    (hnone : ∀ mid mid', u = mid ++ mid' → mid' ≠ [] → ¬ WordAt name (mid' ++ l))
    (hover : ∀ mid mid', u = mid ++ mid' → mid' ≠ [] →
      ¬ Overrun name stop (before ++ mid) (mid' ++ l))
    (hloose : ∀ mid mid', u = mid ++ mid' → mid' ≠ [] →
      ¬ Loose name stop (before ++ mid) (mid' ++ l)) :
    KeyScan finish name stop before (u ++ l) r := by
  have hnot : ∀ P : List UInt8 → List UInt8 → Prop,
      (∀ mid mid', u = mid ++ mid' → mid' ≠ [] → ¬ P (before ++ mid) (mid' ++ l)) →
        ¬ Somewhere P (before ++ u) l → ¬ Somewhere P before (u ++ l) := by
    intro P hu hl hsome
    rcases somewhere_append.mp hsome with ⟨mid, mid', hsplit, hne, hholds⟩ | hlater
    · exact hu mid mid' hsplit hne hholds
    · exact hl hlater
  have hinside : ∀ mid mid', u = mid ++ mid' → mid' ≠ [] →
      ¬ KeyInside name stop (before ++ mid) (mid' ++ l) :=
    fun mid mid' hsplit hne hat => hnone mid mid' hsplit hne hat.2
  cases h with
  | found h hin =>
      exact .found (h.append hnone) (hin.imp_right fun hlater =>
        somewhere_append.mpr (Or.inr hlater))
  | lost hlost hlater =>
      exact .lost (hnot _ hnone hlost) (somewhere_append.mpr (Or.inr hlater))
  | absent habsent hno hfine =>
      exact .absent (hnot _ hinside habsent) (hnot _ hover hno) (hnot _ hloose hfine)
  | loose habsent hno hlater =>
      exact .loose (hnot _ hinside habsent) (hnot _ hover hno)
        (somewhere_append.mpr (Or.inr hlater))

theorem KeyScan.cons {c : UInt8} (h : KeyScan finish name stop (before ++ [c]) l r)
    (hnone : ¬ WordAt name (c :: l)) (hover : ¬ Overrun name stop before (c :: l))
    (hloose : ¬ Loose name stop before (c :: l)) : KeyScan finish name stop before (c :: l) r := by
  have honly : ∀ P : List UInt8 → List UInt8 → Prop, ¬ P before (c :: l) →
      ∀ mid mid' : List UInt8, [c] = mid ++ mid' → mid' ≠ [] → ¬ P (before ++ mid) (mid' ++ l) := by
    intro P hP mid mid' hsplit hne
    obtain ⟨rfl, rfl⟩ := place_of_singleton hsplit hne
    rwa [List.append_nil]
  exact h.append (u := [c]) (honly (fun _ => WordAt name) hnone) (honly _ hover) (honly _ hloose)

/-- The scan steps over the end of the block behind the word. -/
theorem BeyondScan.overrun (h : BeyondScan finish name before l r)
    (hwords : ∀ mid mid', w = mid ++ mid' → mid' ≠ [] → ¬ WordAt name (mid' ++ l))
    (hbefore : before = u ++ w) (hover : Overrun name stop u (w ++ l)) :
    KeyScan finish name stop u (w ++ l) r := by
  subst hbefore
  have hsome : Somewhere (Overrun name stop) u (w ++ l) := (First.here hover).somewhere
  cases h with
  | found h => exact .found (h.append hwords) (Or.inr hsome)
  | lost hlost =>
      refine .lost (fun hkey => ?_) hsome
      rcases somewhere_append.mp hkey with ⟨mid, mid', hsplit, hne, hat⟩ | hlater
      · exact hwords mid mid' hsplit hne hat
      · exact hlost hlater

/-- Another word of the length of the name is jumped over; the end of the block is behind it
or in it. -/
theorem KeyScan.jump (hname : name ≠ []) {e : UInt8} {seg tail v : List UInt8}
    (he : isDelimiter e = false) (hlong : tail.length + 1 < (w ++ v).length)
    (hsplit : w ++ v = seg ++ e :: tail) (hw : WordAt w (w ++ v))
    (hhead : (w ++ v).head? = some (name.headD 0)) (hlength : w.length = name.length)
    (hother : w ≠ name)
    (hrest : ∀ seg', v = seg' ++ e :: tail → KeyScan finish name (tail.length + 1) (before ++ w) v
      (search finish name (tail.length + 1) v)) :
    KeyScan finish name (tail.length + 1) before (w ++ v)
      (search finish name (tail.length + 1) v) := by
  have hwords : ∀ mid mid', w = mid ++ mid' → mid' ≠ [] → ¬ WordAt name (mid' ++ v) :=
    fun mid mid' hmid _ hat => hother (places_of_word hw hmid hat hlength.symm).2.symm
  have hover : ∀ hout : ¬ (w ++ v).length < tail.length + 1 + w.length,
      ∀ mid mid', w = mid ++ mid' → mid' ≠ [] →
        ¬ Overrun name (tail.length + 1) (before ++ mid) (mid' ++ v) := by
    rintro hout mid mid' hmid - ⟨-, -, w', hw', hlength', -, hpast⟩
    obtain ⟨rfl, rfl⟩ := places_of_word hw hmid hw' (hlength'.trans hlength.symm)
    rw [List.nil_append] at hmid
    exact hout (hmid ▸ hpast)
  rcases List.append_eq_append_iff.mp hsplit with ⟨as, rfl, hv⟩ | ⟨as, hwa, htail⟩
  · -- The word ends before the end of the block.
    refine (hrest as hv).append hwords (hover ?_) fun mid mid' hmid hne hloose => ?_
    · rw [hv]
      simp only [List.length_append, List.length_cons]
      omega
    · obtain ⟨d, rest, heq, -, hd⟩ := hw
      have hin : d ∈ v := by
        rw [List.append_cancel_left heq]
        exact List.mem_cons_self
      exact hloose.2.2 ⟨d, List.mem_append_right _ hin, hd⟩
  · cases as with
    | nil =>
        -- The word ends right before the brace, which does not end a word.
        obtain ⟨d, rest, heq, -, hd⟩ := hw
        have hv := List.append_cancel_left heq
        rw [hv, List.nil_append] at htail
        obtain ⟨rfl, -⟩ := List.cons.inj htail
        rw [he] at hd
        exact absurd hd Bool.false_ne_true
    | cons x as =>
        have hshort : v.length < tail.length + 1 := by
          have hcount := congrArg List.length htail
          simp only [List.length_cons, List.length_append] at hcount
          omega
        refine (search_beyond hname hshort).overrun hwords rfl ⟨hlong, hhead, w, hw, hlength,
          hother, ?_⟩
        rw [List.length_append]
        omega

/-- **The loop of `GetValue` and `GetString`** over the rest `seg` of a block. -/
theorem search_scan (hname : name ≠ []) {e : UInt8} {tail : List UInt8}
    (he : isDelimiter e = false) : ∀ {seg before : List UInt8},
    KeyScan finish name (tail.length + 1) before (seg ++ e :: tail)
      (search finish name (tail.length + 1) (seg ++ e :: tail)) := by
  intro seg
  induction hn : seg.length using Nat.strong_induction_on generalizing seg with
  | _ n ih =>
      intro before
      cases seg with
      | nil =>
          have hshort : ∀ mid rest, [] ++ e :: tail = mid ++ rest →
              ¬ tail.length + 1 < rest.length := by
            intro mid rest hsplit
            have hlength := congrArg List.length hsplit
            simp only [List.nil_append, List.length_cons, List.length_append] at hlength
            omega
          rw [List.nil_append, search_stop (by rw [List.length_cons])]
          exact .absent (fun ⟨mid, rest, hsplit, hat⟩ => hshort mid rest hsplit hat.1)
            (fun ⟨mid, rest, hsplit, hat⟩ => hshort mid rest hsplit hat.1)
            (fun ⟨mid, rest, hsplit, hat⟩ => hshort mid rest hsplit hat.1)
      | cons c seg =>
          rw [List.cons_append]
          have hlong : tail.length + 1 < (c :: (seg ++ e :: tail)).length := by
            rw [List.length_cons, List.length_append, List.length_cons]
            omega
          have hne : (c :: (seg ++ e :: tail)).length ≠ tail.length + 1 := Nat.ne_of_gt hlong
          have hless : seg.length < n := by
            rw [← hn, List.length_cons]
            exact Nat.lt_succ_self _
          by_cases hc : c = name.headD 0
          · by_cases hended : Ended (c :: (seg ++ e :: tail))
            · obtain ⟨w, hw⟩ := hended.wordAt
              by_cases hsame : w = name
              · subst hsame
                rw [search_match hname hne hc hw]
                exact .found (.here hw) (Or.inl hlong)
              · by_cases hlength : w.length = name.length
                · rw [search_jump hname hne hc hw hlength hsame]
                  obtain ⟨v, hv⟩ := hw.append
                  have hpos : 0 < w.length := by
                    rw [hlength]
                    exact List.length_pos_iff.mpr hname
                  have hhead : (c :: (seg ++ e :: tail)).head? = some (name.headD 0) := by
                    rw [hc]
                    rfl
                  rw [hv] at hw hlong hhead ⊢
                  rw [List.drop_left]
                  have hsplit : w ++ v = (c :: seg) ++ e :: tail := hv.symm
                  refine KeyScan.jump hname he hlong hsplit hw hhead hlength hsame
                    fun seg' hseg => ?_
                  have hshort : seg'.length < n := by
                    have hcount := congrArg List.length hv
                    rw [hseg] at hcount
                    simp only [List.length_cons, List.length_append] at hcount
                    rw [← hn, List.length_cons]
                    omega
                  rw [hseg]
                  exact ih _ hshort rfl
                · rw [search_shift hne hc hw hlength]
                  refine (ih _ hless rfl).cons (fun hat => hsame (hw.unique hat)) ?_ ?_
                  · rintro ⟨-, -, w', hw', hlength', -⟩
                    exact hlength (hw.unique hw' ▸ hlength')
                  · exact fun hloose => hloose.2.2 hended
            · rw [search_unended hne hc hended]
              have hends : ∀ mid rest, c :: (seg ++ e :: tail) = mid ++ rest → ¬ Ended rest := by
                rintro mid rest hsplit ⟨x, hx, hdelimiter⟩
                exact hended ⟨x, by rw [hsplit]; exact List.mem_append_right _ hx, hdelimiter⟩
              refine .loose ?_ ?_ (First.here (P := Loose name _) ⟨hlong, ?_, hended⟩).somewhere
              · exact fun ⟨mid, rest, hsplit, hat⟩ => hends mid rest hsplit hat.2.ended
              · rintro ⟨mid, rest, hsplit, -, -, w, hw, -⟩
                exact hends mid rest hsplit hw.ended
              · rw [hc]
                rfl
          · have hhead : ¬ (c :: (seg ++ e :: tail)).head? = some (name.headD 0) :=
              fun hhead => hc (Option.some.inj hhead)
            rw [search_skip hne hc]
            exact (ih _ hless rfl).cons (fun hat => hc (hat.head hname))
              (fun hover => hhead hover.2.1) fun hloose => hhead hloose.2.1

end

/-! ## Braces and values -/

/-- What may stand between the name of a block and its brace. -/
def isBlank (c : UInt8) : Bool := c == space || c == cr || c == lf

/-- No byte of `body` is a brace. -/
def BraceFree (body : List UInt8) : Prop := ∀ c ∈ body, c ≠ openBrace ∧ c ≠ closeBrace

/-- Behind the name of a block there are blanks and then the byte `c`, no blank itself. -/
structure Follows (after : List UInt8) (c : UInt8) (rest : List UInt8) : Prop where
  split : ∃ blanks, after = blanks ++ c :: rest ∧ ∀ b ∈ blanks, isBlank b = true
  visible : isBlank c = false

theorem isBlank_openBrace : isBlank openBrace = false := by decide

theorem Follows.unique {after rest rest' : List UInt8} {c c' : UInt8} (h : Follows after c rest)
    (h' : Follows after c' rest') : c = c' ∧ rest = rest' := by
  obtain ⟨blanks, hafter, hblanks⟩ := h.split
  obtain ⟨blanks', hafter', hblanks'⟩ := h'.split
  have hseek : seek (fun b => !isBlank b) after = some (c, rest) :=
    seek_eq_some_iff.mpr ⟨blanks, hafter, fun b hb => by simp [hblanks b hb], by simp [h.visible]⟩
  have hseek' : seek (fun b => !isBlank b) after = some (c', rest') :=
    seek_eq_some_iff.mpr
      ⟨blanks', hafter', fun b hb => by simp [hblanks' b hb], by simp [h'.visible]⟩
  rw [hseek, Option.some.injEq, Prod.mk.injEq] at hseek'
  exact hseek'

theorem Follows.seek_eq {after rest : List UInt8} {c : UInt8} (h : Follows after c rest) :
    seek (fun c => c == openBrace || !(c == space || c == cr || c == lf)) after =
      some (c, rest) := by
  obtain ⟨blanks, rfl, hblanks⟩ := h.split
  refine seek_eq_some_iff.mpr ⟨blanks, rfl, fun b hb => ?_, ?_⟩
  · have hblank := hblanks b hb
    have hbrace : (b == openBrace) = false := by
      rw [beq_eq_false_iff_ne]
      rintro rfl
      rw [isBlank_openBrace] at hblank
      exact Bool.false_ne_true hblank
    rw [hbrace, Bool.false_or, Bool.not_eq_false']
    exact hblank
  · have hvisible : (c == space || c == cr || c == lf) = false := h.visible
    rw [hvisible, Bool.not_false, Bool.or_true]

theorem openBlock_wrong {after rest : List UInt8} {c : UInt8} (h : Follows after c rest)
    (hc : c ≠ openBrace) : openBlock after = some (.error "Wrong Block\n") := by
  rw [openBlock, h.seek_eq, Option.bind_some]
  simp only [if_pos hc]

theorem seek_brace {body : List UInt8} {d : UInt8} (hbody : BraceFree body)
    (hd : d = openBrace ∨ d = closeBrace) (tail : List UInt8) :
    seek (fun c => c == closeBrace || c == openBrace) (body ++ d :: tail) = some (d, tail) := by
  refine seek_eq_some_iff.mpr ⟨body, rfl, fun b hb => ?_, ?_⟩
  · simp [hbody b hb]
  · rcases hd with rfl | rfl <;> simp

/-- The first brace is found in one way. -/
theorem braces_unique {body body' tail tail' : List UInt8} {d d' : UInt8} (hbody : BraceFree body)
    (hbody' : BraceFree body') (hd : d = openBrace ∨ d = closeBrace)
    (hd' : d' = openBrace ∨ d' = closeBrace) (heq : body ++ d :: tail = body' ++ d' :: tail') :
    body = body' ∧ d = d' ∧ tail = tail' := by
  have hfirst := seek_brace hbody hd tail
  rw [heq, seek_brace hbody' hd', Option.some.injEq, Prod.mk.injEq] at hfirst
  obtain ⟨rfl, rfl⟩ := hfirst
  exact ⟨List.append_cancel_right heq, rfl, rfl⟩

theorem openBlock_brace {after body tail : List UInt8} {d : UInt8}
    (h : Follows after openBrace (body ++ d :: tail)) (hbody : BraceFree body)
    (hd : d = openBrace ∨ d = closeBrace) :
    openBlock after = some (if d = openBrace then .error "Wrong Block\n"
      else .ok (openBrace :: (body ++ d :: tail), d :: tail)) := by
  rw [openBlock, h.seek_eq, Option.bind_some]
  simp only [ne_eq, not_true_eq_false, if_false, seek_brace hbody hd, Option.map_some]

/-- **What `SetBlock` makes of what follows the name.** -/
theorem openBlock_cases (after : List UInt8) :
    openBlock after = none ∨ (∃ c rest, Follows after c rest ∧ c ≠ openBrace) ∨
      ∃ body d tail, Follows after openBrace (body ++ d :: tail) ∧ BraceFree body ∧
        (d = openBrace ∨ d = closeBrace) := by
  by_cases hnone : openBlock after = none
  · exact Or.inl hnone
  · refine Or.inr ?_
    cases hseek : seek (fun c => c == openBrace || !(c == space || c == cr || c == lf)) after with
    | none =>
        rw [openBlock, hseek] at hnone
        exact absurd rfl hnone
    | some found =>
        obtain ⟨c, rest⟩ := found
        obtain ⟨blanks, rfl, hblanks, hc⟩ := seek_eq_some_iff.mp hseek
        have hvisible : isBlank c = false := by
          rcases Bool.or_eq_true_iff.mp hc with hbrace | hother
          · rw [eq_of_beq hbrace]
            exact isBlank_openBrace
          · exact (Bool.not_eq_true' _).mp hother
        have hfollows : Follows (blanks ++ c :: rest) c rest := by
          refine ⟨⟨blanks, rfl, fun b hb => ?_⟩, hvisible⟩
          have hpassed := hblanks b hb
          rw [Bool.or_eq_false_iff, Bool.not_eq_false'] at hpassed
          exact hpassed.2
        by_cases hbrace : c = openBrace
        · subst hbrace
          cases hclose : seek (fun c => c == closeBrace || c == openBrace) rest with
          | none =>
              rw [openBlock, hseek, Option.bind_some] at hnone
              simp [hclose] at hnone
          | some found =>
              obtain ⟨d, tail⟩ := found
              obtain ⟨body, rfl, hbody, hd⟩ := seek_eq_some_iff.mp hclose
              refine Or.inr ⟨body, d, tail, hfollows, fun b hb => ?_, ?_⟩
              · have hpassed := hbody b hb
                simp only [Bool.or_eq_false_iff, beq_eq_false_iff_ne] at hpassed
                exact ⟨hpassed.2, hpassed.1⟩
              · simpa [or_comm] using hd
        · exact Or.inl ⟨c, rest, hfollows, hbrace⟩

/-- The line behind the name ends inside the buffer; where it has a colon, so does the value. -/
def ValueClosed (cur : List UInt8) : Prop :=
  ∃ w c rest, cur = w ++ c :: rest ∧ (∀ x ∈ w, x ≠ cr ∧ x ≠ lf ∧ x ≠ colon) ∧
    (c = cr ∨ c = lf ∨
      (c = colon ∧ ∃ x ∈ rest.dropWhile (· == space), x = space ∨ x = cr ∨ x = lf))

theorem readValue_isSome_iff {α : Type} (finish : List UInt8 → Except String α)
    (cur : List UInt8) : (readValue finish cur).isSome ↔ ValueClosed cur := by
  have hstops : ∀ {w : List UInt8}, (∀ x ∈ w, (x == cr || x == lf || x == colon) = false) ↔
      ∀ x ∈ w, x ≠ cr ∧ x ≠ lf ∧ x ≠ colon := by
    simp [and_assoc]
  cases hseek : seek (fun c => c == cr || c == lf || c == colon) cur with
  | none =>
      rw [readValue, hseek]
      refine iff_of_false (by simp) ?_
      rintro ⟨w, c, rest, rfl, -, hc⟩
      have hnone := seek_eq_none_iff.mp hseek c (by simp)
      rcases hc with rfl | rfl | ⟨rfl, -⟩ <;> simp at hnone
  | some found =>
      obtain ⟨c, rest⟩ := found
      obtain ⟨w, rfl, hw, hc⟩ := seek_eq_some_iff.mp hseek
      have honly : ValueClosed (w ++ c :: rest) ↔ (c = cr ∨ c = lf ∨
          (c = colon ∧ ∃ x ∈ rest.dropWhile (· == space), x = space ∨ x = cr ∨ x = lf)) := by
        constructor
        · rintro ⟨w', c', rest', heq, hw', hc'⟩
          have hagain : seek (fun c => c == cr || c == lf || c == colon) (w ++ c :: rest) =
              some (c', rest') := by
            refine seek_eq_some_iff.mpr ⟨w', heq, hstops.mpr hw', ?_⟩
            rcases hc' with rfl | rfl | ⟨rfl, -⟩ <;> simp
          rw [hseek, Option.some.injEq, Prod.mk.injEq] at hagain
          obtain ⟨rfl, rfl⟩ := hagain
          exact hc'
        · exact fun h => ⟨w, c, rest, rfl, hstops.mp hw, h⟩
      rw [honly, readValue, hseek, Option.bind_some]
      by_cases hcolon : c = colon
      · subst hcolon
        have hnot : ¬ (colon = cr) ∧ ¬ (colon = lf) := by decide
        simp only [ne_eq, not_true_eq_false, if_false, hnot.1, hnot.2, false_or, true_and]
        cases rest with
        | nil => simp
        | cons d rest =>
            by_cases hend : d = cr ∨ d = lf
            · have hspace : (d == space) = false := by
                rcases hend with rfl | rfl <;> decide
              simp only [if_pos hend, Option.isSome_some, true_iff]
              rw [List.dropWhile_cons_of_neg (by simp [hspace])]
              exact ⟨d, List.mem_cons_self, Or.inr hend⟩
            · simp only [if_neg hend]
              rw [seek_not]
              cases hdrop : (d :: rest).dropWhile (· == space) with
              | nil => simp
              | cons x tail =>
                  simp only [List.head?_cons, Option.map_some, List.tail_cons, Option.bind_some,
                    Option.isSome_map, seek_isSome_iff]
                  simp [or_assoc]
      · have hline : c = cr ∨ c = lf := by
          simp only [Bool.or_eq_true, beq_iff_eq] at hc
          tauto
        simp only [ne_eq, hcolon, not_false_eq_true, if_true, Option.isSome_some, true_iff]
        exact hline.imp_right Or.inl

/-! ## Where the parser stays inside -/

/-- The loop over the block stays inside the buffer: behind the name that it finds the line
and the value end there, or it finds none, steps over no end and compares no word that
never ends. -/
inductive KeyStays (name : List UInt8) (stop : Nat) (u : List UInt8) : Prop
  | found {mid rest : List UInt8} (h : First (KeyAt name) [] u mid rest)
      (hin : stop < rest.length ∨ Somewhere (Overrun name stop) [] u)
      (hclosed : ValueClosed (rest.drop name.length))
  | absent (hnone : ¬ Somewhere (KeyInside name stop) [] u)
      (hover : ¬ Somewhere (Overrun name stop) [] u)
      (hloose : ¬ Somewhere (Loose name stop) [] u)

/-- A reading stays inside the file. -/
inductive StaysInside (content block name : List UInt8) : Prop
  | absent (hnone : ¬ Somewhere (BlockAt block) [] content)
      (hinside : ¬ Somewhere (Astray block) [] content)
  | wrongBlock {mid rest tail : List UInt8} {c : UInt8}
      (h : First (BlockAt block) [] content mid rest)
      (hfollows : Follows (rest.drop block.length) c tail) (hc : c ≠ openBrace)
  | nested {mid rest body tail : List UInt8} (h : First (BlockAt block) [] content mid rest)
      (hfollows : Follows (rest.drop block.length) openBrace (body ++ openBrace :: tail))
      (hbody : BraceFree body)
  | searched {mid rest body tail : List UInt8} (h : First (BlockAt block) [] content mid rest)
      (hfollows : Follows (rest.drop block.length) openBrace (body ++ closeBrace :: tail))
      (hbody : BraceFree body)
      (hkey : KeyStays name (tail.length + 1) (openBrace :: body ++ closeBrace :: tail))

theorem isDelimiter_closeBrace : isDelimiter closeBrace = false := by decide

section

variable {α : Type} (finish : List UInt8 → Except String α) {name : List UInt8}

theorem search_isSome_iff (hname : name ≠ []) (seg tail : List UInt8) :
    (search finish name (tail.length + 1) (seg ++ closeBrace :: tail)).isSome ↔
      KeyStays name (tail.length + 1) (seg ++ closeBrace :: tail) := by
  have hscan : KeyScan finish name (tail.length + 1) [] (seg ++ closeBrace :: tail)
      (search finish name (tail.length + 1) (seg ++ closeBrace :: tail)) :=
    search_scan hname isDelimiter_closeBrace
  generalize search finish name (tail.length + 1) (seg ++ closeBrace :: tail) = r at hscan ⊢
  cases hscan with
  | found h hin =>
      rw [readValue_isSome_iff]
      refine ⟨.found h hin, fun hstays => ?_⟩
      cases hstays with
      | found h' _ hclosed =>
          obtain ⟨-, rfl⟩ := h.unique h'
          exact hclosed
      | absent hnone hover _ =>
          rcases hin with hlong | hsome
          · exact absurd ⟨_, _, h.split, hlong, h.holds⟩ hnone
          · exact absurd hsome hover
  | lost hnone hover =>
      refine iff_of_false (by simp) fun hstays => ?_
      cases hstays with
      | found h' => exact hnone h'.somewhere
      | absent _ hno => exact hno hover
  | absent hnone hover hloose => exact iff_of_true rfl (.absent hnone hover hloose)
  | loose hnone hover hloose =>
      refine iff_of_false (by simp) fun hstays => ?_
      cases hstays with
      | found h' hin =>
          rcases hin with hlong | hsome
          · exact hnone ⟨_, _, h'.split, hlong, h'.holds⟩
          · exact hover hsome
      | absent _ _ hno => exact hno hloose

theorem openBlock_follows_isSome {after rest : List UInt8} {c : UInt8} (h : Follows after c rest)
    (hc : c ≠ openBrace ∨ ∃ body d tail, rest = body ++ d :: tail ∧ BraceFree body ∧
      (d = openBrace ∨ d = closeBrace)) : (openBlock after).isSome := by
  by_cases hbrace : c = openBrace
  · obtain ⟨body, d, tail, rfl, hbody, hd⟩ := hc.resolve_left (not_not.mpr hbrace)
    subst hbrace
    rw [openBlock_brace h hbody hd]
    rfl
  · rw [openBlock_wrong h hbrace]
    rfl

/-- A reading that stays inside finds the braces of the block, or something else for them. -/
theorem StaysInside.open {content block mid rest : List UInt8}
    (h : First (BlockAt block) [] content mid rest) (hstays : StaysInside content block name) :
    (openBlock (rest.drop block.length)).isSome := by
  cases hstays with
  | absent hnone => exact absurd h.somewhere hnone
  | wrongBlock h' hfollows hc =>
      obtain ⟨-, rfl⟩ := h.unique h'
      exact openBlock_follows_isSome hfollows (Or.inl hc)
  | nested h' hfollows hbody =>
      obtain ⟨-, rfl⟩ := h.unique h'
      exact openBlock_follows_isSome hfollows (Or.inr ⟨_, _, _, rfl, hbody, Or.inl rfl⟩)
  | searched h' hfollows hbody =>
      obtain ⟨-, rfl⟩ := h.unique h'
      exact openBlock_follows_isSome hfollows (Or.inr ⟨_, _, _, rfl, hbody, Or.inr rfl⟩)

/-- Where the block is closed it is searched. -/
theorem StaysInside.key {content block mid rest body tail : List UInt8}
    (h : First (BlockAt block) [] content mid rest)
    (hfollows : Follows (rest.drop block.length) openBrace (body ++ closeBrace :: tail))
    (hbody : BraceFree body) (hstays : StaysInside content block name) :
    KeyStays name (tail.length + 1) (openBrace :: body ++ closeBrace :: tail) := by
  cases hstays with
  | absent hnone => exact absurd h.somewhere hnone
  | wrongBlock h' hfollows' hc =>
      obtain ⟨-, rfl⟩ := h.unique h'
      exact absurd (hfollows'.unique hfollows).1 hc
  | nested h' hfollows' hbody' =>
      obtain ⟨-, rfl⟩ := h.unique h'
      obtain ⟨-, hbrace, -⟩ := braces_unique hbody' hbody (Or.inl rfl) (Or.inr rfl)
        (hfollows'.unique hfollows).2
      exact absurd hbrace (by decide)
  | searched h' hfollows' hbody' hkey =>
      obtain ⟨-, rfl⟩ := h.unique h'
      obtain ⟨rfl, -, rfl⟩ := braces_unique hbody' hbody (Or.inr rfl) (Or.inr rfl)
        (hfollows'.unique hfollows).2
      exact hkey

/-- **When `GetValue` and `GetString` stay inside the file.** -/
theorem lookup_isSome_iff {content block : List UInt8} (hblock : block ≠ []) (hname : name ≠ [])
    (hcontent : content ≠ []) (used : Bool) :
    (lookup finish ⟨some content, used⟩ block name).isSome ↔ StaysInside content block name := by
  have hscan := setBlock_scan hblock (l := content) (evenRun_nil (block.headD 0))
  simp only [lookup]
  generalize setBlock block content = r at hscan ⊢
  cases hscan with
  | absent hnone hinside => exact iff_of_true rfl (.absent hnone hinside)
  | astray hnone hastray =>
      refine iff_of_false (by simp) fun hstays => ?_
      cases hstays with
      | absent _ hinside => exact hastray.elim hcontent hinside
      | wrongBlock h => exact hnone h.somewhere
      | nested h => exact hnone h.somewhere
      | searched h => exact hnone h.somewhere
  | @found mid rest h =>
      rcases openBlock_cases (rest.drop block.length) with
        hopen | ⟨c, tail, hfollows, hc⟩ | ⟨body, d, tail, hfollows, hbody, hd⟩
      · rw [hopen]
        refine iff_of_false (by simp) fun hstays => ?_
        have hsome := hstays.open h
        rw [hopen] at hsome
        exact absurd hsome (by simp)
      · rw [openBlock_wrong hfollows hc]
        exact iff_of_true rfl (.wrongBlock h hfollows hc)
      · rw [openBlock_brace hfollows hbody hd]
        rcases hd with rfl | rfl
        · simp only [if_true]
          exact iff_of_true rfl (.nested h hfollows hbody)
        · have hbraces : closeBrace ≠ openBrace := by decide
          simp only [if_neg hbraces, List.length_cons]
          rw [← List.cons_append, search_isSome_iff finish hname]
          exact ⟨.searched h hfollows hbody, StaysInside.key h hfollows hbody⟩

end

/-- `B { K : 7 }`, with a blank behind the value. -/
def spaced : List UInt8 :=
  [0x42, 0x20, 0x7b, 0x20, 0x4b, 0x20, 0x3a, 0x20, 0x37, 0x20, 0x7d]

/-- `B { K : 7}`, with the brace right behind the value: the value is read on behind the end
of the file. -/
def cramped : List UInt8 :=
  [0x42, 0x20, 0x7b, 0x20, 0x4b, 0x20, 0x3a, 0x20, 0x37, 0x7d]

end Parser

end SessionServer.Common
