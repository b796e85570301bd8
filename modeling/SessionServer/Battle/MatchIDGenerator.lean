/-
  Battle/MatchIDGenerator.lean --- the IDs of matches.

  `MatchIDGenerator.cpp`: an ID holds a timestamp in milliseconds, the ID of the server and
  a sequence number.  The clock is a list of readings, relative to the epoch of the
  generator, which the calls consume from the front; a call that finds it empty has no
  result yet.
-/
import Mathlib

set_option autoImplicit false

namespace SessionServer.Battle

def MAX_SERVER_ID : UInt16 := 0x03FF
def MAX_SEQUENCE : UInt16 := 0x0FFF

def SERVER_ID_SHIFT : UInt64 := 12
def TIMESTAMP_SHIFT : UInt64 := 22

/-- `class MatchIDGenerator`. -/
structure MatchIDGenerator where
  lastTimestamp : UInt64
  serverID : UInt16
  sequence : UInt16
  deriving DecidableEq

namespace MatchIDGenerator

/-- The constructor. -/
def new (serverID : UInt16) : MatchIDGenerator := ⟨0, serverID, 0⟩

def makeID (timestamp : UInt64) (serverID sequence : UInt16) : Int64 :=
  (timestamp <<< TIMESTAMP_SHIFT ||| serverID.toUInt64 <<< SERVER_ID_SHIFT |||
    sequence.toUInt64).toInt64

/-- `WaitNextMillisecond`: the first reading above `lastTimestamp`, and those after it. -/
def waitNextMillisecond (lastTimestamp : UInt64) : List UInt64 → Option (UInt64 × List UInt64)
  | [] => none
  | nowMs :: readings =>
      if nowMs ≤ lastTimestamp then waitNextMillisecond lastTimestamp readings
      else some (nowMs, readings)

/-- The generator once a call has settled on a timestamp and a sequence number, with the
ID it returns. -/
def stamped (g : MatchIDGenerator) (nowMs : UInt64) (sequence : UInt16) :
    Int64 × MatchIDGenerator :=
  (makeID nowMs g.serverID sequence, { g with lastTimestamp := nowMs, sequence := sequence })

/-- A clock behind the last timestamp is taken to stand at it. -/
def clamped (g : MatchIDGenerator) (nowMs : UInt64) : UInt64 :=
  if nowMs < g.lastTimestamp then g.lastTimestamp else nowMs

/-- `Create`: the ID and the generator after the call, and the readings left. -/
def create (g : MatchIDGenerator) :
    List UInt64 → Option ((Int64 × MatchIDGenerator) × List UInt64)
  | [] => none
  | reading :: readings =>
      let nowMs := g.clamped reading
      if nowMs = g.lastTimestamp then
        let sequence := g.sequence + 1
        if sequence > MAX_SEQUENCE then
          match waitNextMillisecond g.lastTimestamp readings with
          | none => none
          | some (nowMs, readings) => some (g.stamped nowMs 0, readings)
        else some (g.stamped nowMs sequence, readings)
      else some (g.stamped nowMs 0, readings)

/-- Successive calls: what each of them returns, with the generator after it. -/
def creates (g : MatchIDGenerator) :
    Nat → List UInt64 → Option (List (Int64 × MatchIDGenerator) × List UInt64)
  | 0, readings => some ([], readings)
  | n + 1, readings =>
      match g.create readings with
      | none => none
      | some (call, readings) =>
          match call.2.creates n readings with
          | none => none
          | some (calls, readings) => some (call :: calls, readings)

/-- The fields of an ID: timestamp, server ID and sequence number. -/
def decode (id : Int64) : UInt64 × UInt16 × UInt16 :=
  (id.toUInt64 >>> TIMESTAMP_SHIFT,
    (id.toUInt64 >>> SERVER_ID_SHIFT &&& MAX_SERVER_ID.toUInt64).toUInt16,
    (id.toUInt64 &&& MAX_SEQUENCE.toUInt64).toUInt16)

/-! ## The clock -/

/-- A call that reads `reading` has to wait for the next millisecond. -/
def Waits (g : MatchIDGenerator) (reading : UInt64) : Prop :=
  reading ≤ g.lastTimestamp ∧ g.sequence + 1 > MAX_SEQUENCE

instance (g : MatchIDGenerator) (reading : UInt64) : Decidable (g.Waits reading) :=
  inferInstanceAs (Decidable (_ ∧ _))

/-- The clock has a reading for each of `n` calls, and a later one above the last timestamp
for each call that waits. -/
def Supplied (g : MatchIDGenerator) : Nat → List UInt64 → Prop
  | 0, _ => True
  | _ + 1, [] => False
  | n + 1, reading :: readings =>
      (g.Waits reading → ∃ later ∈ readings, g.lastTimestamp < later) ∧
        match g.create (reading :: readings) with
        | none => True
        | some (call, readings) => call.2.Supplied n readings

instance Supplied.decidable : ∀ (g : MatchIDGenerator) (n : Nat) (readings : List UInt64),
    Decidable (g.Supplied n readings)
  | _, 0, _ => isTrue trivial
  | _, _ + 1, [] => isFalse id
  | g, n + 1, reading :: readings =>
      have : Decidable (match g.create (reading :: readings) with
          | none => True
          | some (call, readings) => call.2.Supplied n readings) :=
        match g.create (reading :: readings) with
        | none => isTrue trivial
        | some (call, readings) => Supplied.decidable call.2 n readings
      -- over the list, not over all timestamps
      have : Decidable (∃ later ∈ readings, g.lastTimestamp < later) := List.decidableBEx _ readings
      inferInstanceAs (Decidable (_ ∧ _))

/-! ## Packing -/

/-- The fields of an ID stay apart. -/
theorem makeID_toNat {timestamp : UInt64} {serverID sequence : UInt16}
    (htimestamp : timestamp.toNat < 2 ^ 41) (hserver : serverID.toNat < 2 ^ 10)
    (hsequence : sequence.toNat < 2 ^ 12) :
    (timestamp <<< TIMESTAMP_SHIFT ||| serverID.toUInt64 <<< SERVER_ID_SHIFT |||
      sequence.toUInt64).toNat =
      timestamp.toNat * 2 ^ 22 + serverID.toNat * 2 ^ 12 + sequence.toNat := by
  have hhigh : (timestamp <<< TIMESTAMP_SHIFT).toNat = timestamp.toNat <<< 22 := by
    rw [UInt64.toNat_shiftLeft, Nat.mod_eq_of_lt]
    · rfl
    · show timestamp.toNat <<< 22 < 2 ^ 64
      rw [Nat.shiftLeft_eq]
      omega
  have hmiddle : (serverID.toUInt64 <<< SERVER_ID_SHIFT).toNat = serverID.toNat <<< 12 := by
    rw [UInt64.toNat_shiftLeft, UInt16.toNat_toUInt64, Nat.mod_eq_of_lt]
    · rfl
    · show serverID.toNat <<< 12 < 2 ^ 64
      rw [Nat.shiftLeft_eq]
      omega
  have hlow : serverID.toNat <<< 12 ||| sequence.toNat =
      serverID.toNat * 2 ^ 12 + sequence.toNat := by
    rw [← Nat.shiftLeft_add_eq_or_of_lt hsequence, Nat.shiftLeft_eq]
  rw [UInt64.toNat_or, UInt64.toNat_or, hhigh, hmiddle, UInt16.toNat_toUInt64, Nat.or_assoc, hlow,
    ← Nat.shiftLeft_add_eq_or_of_lt (by omega), Nat.shiftLeft_eq]
  omega

/-- The bounds the fields keep. -/
structure Ready (g : MatchIDGenerator) : Prop where
  timestamp : g.lastTimestamp.toNat < 2 ^ 41
  serverID : g.serverID.toNat < 2 ^ 10
  sequence : g.sequence.toNat < 2 ^ 12

/-- The ID made of the fields of a generator. -/
def id (g : MatchIDGenerator) : Int64 := makeID g.lastTimestamp g.serverID g.sequence

/-- Its value. -/
def value (g : MatchIDGenerator) : Nat :=
  g.lastTimestamp.toNat * 2 ^ 22 + g.serverID.toNat * 2 ^ 12 + g.sequence.toNat

theorem Ready.id_toNat {g : MatchIDGenerator} (h : g.Ready) : g.id.toUInt64.toNat = g.value :=
  makeID_toNat h.timestamp h.serverID h.sequence

theorem Ready.value_lt {g : MatchIDGenerator} (h : g.Ready) : g.value < 2 ^ 63 := by
  obtain ⟨htimestamp, hserver, hsequence⟩ := h
  unfold value
  omega

/-- An ID is not negative. -/
theorem Ready.id_toInt {g : MatchIDGenerator} (h : g.Ready) : g.id.toInt = g.value := by
  have hvalue := h.value_lt
  have hnat : g.id.toBitVec.toNat = g.value := h.id_toNat
  rw [Int64.toInt, BitVec.toInt_eq_toNat_of_lt (by omega), hnat]

/-- **An ID decodes to the fields it was made of.** -/
theorem Ready.decode_id {g : MatchIDGenerator} (h : g.Ready) :
    decode g.id = (g.lastTimestamp, g.serverID, g.sequence) := by
  have hid := h.id_toNat
  obtain ⟨htimestamp, hserver, hsequence⟩ := h
  simp only [value] at hid
  have hfirst : g.id.toUInt64 >>> TIMESTAMP_SHIFT = g.lastTimestamp := by
    refine UInt64.toNat_inj.mp ?_
    rw [UInt64.toNat_shiftRight, hid]
    show (_ >>> 22 : Nat) = _
    rw [Nat.shiftRight_eq_div_pow]
    omega
  have hsecond : (g.id.toUInt64 >>> SERVER_ID_SHIFT &&& MAX_SERVER_ID.toUInt64).toUInt16 =
      g.serverID := by
    refine UInt16.toNat_inj.mp ?_
    rw [UInt64.toNat_toUInt16, UInt64.toNat_and, UInt64.toNat_shiftRight, hid]
    show ((_ >>> 12 : Nat) &&& (2 ^ 10 - 1)) % 2 ^ 16 = _
    rw [Nat.and_two_pow_sub_one_eq_mod, Nat.shiftRight_eq_div_pow]
    omega
  have hthird : (g.id.toUInt64 &&& MAX_SEQUENCE.toUInt64).toUInt16 = g.sequence := by
    refine UInt16.toNat_inj.mp ?_
    rw [UInt64.toNat_toUInt16, UInt64.toNat_and, hid]
    show (_ &&& (2 ^ 12 - 1) : Nat) % 2 ^ 16 = _
    rw [Nat.and_two_pow_sub_one_eq_mod]
    omega
  rw [decode, hfirst, hsecond, hthird]

/-! ## One call -/

theorem waitNextMillisecond_spec {lastTimestamp nowMs : UInt64} {readings left : List UInt64}
    (h : waitNextMillisecond lastTimestamp readings = some (nowMs, left)) :
    lastTimestamp < nowMs ∧ nowMs ∈ readings ∧ left <:+ readings := by
  induction readings with
  | nil => simp [waitNextMillisecond] at h
  | cons reading rest ih =>
      rw [waitNextMillisecond] at h
      split at h
      · obtain ⟨hlater, hmem, hleft⟩ := ih h
        exact ⟨hlater, List.mem_cons_of_mem _ hmem, hleft.trans (List.suffix_cons _ _)⟩
      · rename_i hlater
        simp only [Option.some.injEq, Prod.mk.injEq] at h
        obtain ⟨rfl, rfl⟩ := h
        exact ⟨UInt64.not_le.mp hlater, List.mem_cons_self, List.suffix_cons _ _⟩

/-- The loop ends at the first reading above the last timestamp. -/
theorem waitNextMillisecond_returns {lastTimestamp later : UInt64} {readings : List UInt64}
    (hmem : later ∈ readings) (hlater : lastTimestamp < later) :
    ∃ nowMs left, waitNextMillisecond lastTimestamp readings = some (nowMs, left) := by
  induction readings with
  | nil => simp at hmem
  | cons reading rest ih =>
      rw [waitNextMillisecond]
      split
      · rename_i hle
        rcases List.mem_cons.mp hmem with rfl | hrest
        · exact absurd hlater (UInt64.not_lt.mpr hle)
        · exact ih hrest
      · exact ⟨_, _, rfl⟩

theorem clamped_eq_iff {g : MatchIDGenerator} {reading : UInt64} :
    g.clamped reading = g.lastTimestamp ↔ reading ≤ g.lastTimestamp := by
  unfold clamped
  split
  · rename_i hlt
    exact iff_of_true rfl (UInt64.le_of_lt hlt)
  · rename_i hnotlt
    exact ⟨UInt64.le_of_eq, fun hle => UInt64.le_antisymm hle (UInt64.not_lt.mp hnotlt)⟩

theorem clamped_of_lt {g : MatchIDGenerator} {reading : UInt64}
    (h : g.lastTimestamp < reading) : g.clamped reading = reading :=
  if_neg (UInt64.not_lt.mpr (UInt64.le_of_lt h))

/-- A call with the readings it needs returns. -/
theorem create_returns {g : MatchIDGenerator} {reading : UInt64} {rest : List UInt64}
    (h : g.Waits reading → ∃ later ∈ rest, g.lastTimestamp < later) :
    ∃ call left, g.create (reading :: rest) = some (call, left) := by
  simp only [create]
  split
  · rename_i hsame
    split
    · rename_i hsequence
      obtain ⟨later, hmem, hlater⟩ := h ⟨clamped_eq_iff.mp hsame, hsequence⟩
      obtain ⟨nowMs, left, hwait⟩ := waitNextMillisecond_returns hmem hlater
      rw [hwait]
      exact ⟨_, _, rfl⟩
    · exact ⟨_, _, rfl⟩
  · exact ⟨_, _, rfl⟩

/-- What a call does: the ID is that of the generator after it, whose value has grown. -/
structure Created (g : MatchIDGenerator) (call : Int64 × MatchIDGenerator) : Prop where
  ready : call.2.Ready
  sameServer : call.2.serverID = g.serverID
  id_eq : call.1 = call.2.id
  grows : g.value < call.2.value

theorem created_stamped {g : MatchIDGenerator} (h : g.Ready) {nowMs : UInt64} {sequence : UInt16}
    (htimestamp : nowMs.toNat < 2 ^ 41) (hsequence : sequence.toNat < 2 ^ 12)
    (hgrows : g.lastTimestamp.toNat < nowMs.toNat ∨
      nowMs = g.lastTimestamp ∧ g.sequence.toNat < sequence.toNat) :
    Created g (g.stamped nowMs sequence) := by
  refine ⟨⟨htimestamp, h.serverID, hsequence⟩, rfl, rfl, ?_⟩
  obtain ⟨_, hserver, hold⟩ := h
  simp only [value, stamped]
  rcases hgrows with hlater | ⟨rfl, hnext⟩
  · omega
  · omega

/-- **One call** of a generator within its bounds. -/
theorem create_spec {g : MatchIDGenerator} (hready : g.Ready) {readings left : List UInt64}
    (hreadings : ∀ reading ∈ readings, reading.toNat < 2 ^ 41)
    {call : Int64 × MatchIDGenerator} (h : g.create readings = some (call, left)) :
    Created g call ∧ left <:+ readings := by
  cases readings with
  | nil => simp [create] at h
  | cons reading rest =>
      have hmax : MAX_SEQUENCE.toNat = 4095 := rfl
      have hnext : (g.sequence + 1).toNat = g.sequence.toNat + 1 := by
        rw [UInt16.toNat_add]
        have := hready.sequence
        show (g.sequence.toNat + 1) % 2 ^ 16 = _
        omega
      simp only [create] at h
      split at h
      · rename_i hsame
        split at h
        · rename_i hsequence
          -- The sequence is used up: the first later reading starts a new one.
          split at h
          · simp at h
          · rename_i nowMs left' hwait
            simp only [Option.some.injEq, Prod.mk.injEq] at h
            obtain ⟨rfl, rfl⟩ := h
            obtain ⟨hlater, hmem, hleft⟩ := waitNextMillisecond_spec hwait
            refine ⟨created_stamped hready ?_ (by decide) (Or.inl hlater), ?_⟩
            · exact hreadings _ (List.mem_cons_of_mem _ hmem)
            · exact hleft.trans (List.suffix_cons _ _)
        · rename_i hsequence
          simp only [Option.some.injEq, Prod.mk.injEq] at h
          obtain ⟨rfl, rfl⟩ := h
          rw [gt_iff_lt, UInt16.lt_iff_toNat_lt] at hsequence
          refine ⟨created_stamped hready ?_ (by omega) (Or.inr ⟨hsame, by omega⟩),
            List.suffix_cons _ _⟩
          rw [hsame]
          exact hready.timestamp
      · rename_i hdiffer
        simp only [Option.some.injEq, Prod.mk.injEq] at h
        obtain ⟨rfl, rfl⟩ := h
        have hlater : g.lastTimestamp < reading :=
          UInt64.not_le.mp fun hle => hdiffer (clamped_eq_iff.mpr hle)
        rw [clamped_of_lt hlater]
        exact ⟨created_stamped hready (hreadings _ List.mem_cons_self) (by decide)
          (Or.inl hlater), List.suffix_cons _ _⟩

/-- The sequence is used up while the clock is behind: the call waits for a new
millisecond. -/
example : (⟨7, 5, 4095⟩ : MatchIDGenerator).create [3, 7, 9, 9] =
    some ((makeID 9 5 0, ⟨9, 5, 0⟩), [9]) := by decide +kernel

/-! ## Successive calls -/

/-- Calls with the readings they need return. -/
theorem creates_returns {g : MatchIDGenerator} {n : Nat} {readings : List UInt64}
    (h : g.Supplied n readings) : ∃ calls left, g.creates n readings = some (calls, left) := by
  induction n generalizing g readings with
  | zero => exact ⟨_, _, rfl⟩
  | succ n ih =>
      cases readings with
      | nil => exact h.elim
      | cons reading rest =>
          obtain ⟨hwaits, hrest⟩ := h
          obtain ⟨call, left, hcreate⟩ := create_returns hwaits
          rw [hcreate] at hrest
          obtain ⟨calls, left', hcreates⟩ := ih hrest
          simp only [creates, hcreate, hcreates]
          exact ⟨_, _, rfl⟩

/-- **Successive calls** return the IDs of generators with growing values. -/
theorem creates_spec {g : MatchIDGenerator} {n : Nat} {readings left : List UInt64}
    {calls : List (Int64 × MatchIDGenerator)} (hready : g.Ready)
    (hreadings : ∀ reading ∈ readings, reading.toNat < 2 ^ 41)
    (h : g.creates n readings = some (calls, left)) :
    calls.length = n ∧ (∀ call ∈ calls, Created g call) ∧
      calls.Pairwise fun a b => a.2.value < b.2.value := by
  induction n generalizing g readings calls with
  | zero =>
      simp only [creates, Option.some.injEq, Prod.mk.injEq] at h
      obtain ⟨rfl, rfl⟩ := h
      simp
  | succ n ih =>
      simp only [creates] at h
      split at h
      · simp at h
      · rename_i call left₁ hcreate
        split at h
        · simp at h
        · rename_i calls' left₂ hcreates
          simp only [Option.some.injEq, Prod.mk.injEq] at h
          obtain ⟨rfl, rfl⟩ := h
          obtain ⟨hfirst, hsuffix⟩ := create_spec hready hreadings hcreate
          obtain ⟨hlength, hcalls, hgrow⟩ := ih hfirst.ready
            (fun reading hmem => hreadings reading (hsuffix.subset hmem)) hcreates
          refine ⟨by rw [List.length_cons, hlength], ?_, ?_⟩
          · intro later hmem
            rcases List.mem_cons.mp hmem with rfl | hmem
            · exact hfirst
            · obtain ⟨hready', hserver, hid, hvalue⟩ := hcalls later hmem
              exact ⟨hready', hserver.trans hfirst.sameServer, hid, hfirst.grows.trans hvalue⟩
          · exact List.pairwise_cons.mpr ⟨fun later hmem => (hcalls later hmem).grows, hgrow⟩

theorem ready_new {serverID : UInt16} (h : serverID ≤ MAX_SERVER_ID) : (new serverID).Ready := by
  have hle : serverID.toNat ≤ 1023 := UInt16.le_iff_toNat_le.mp h
  have hzero : (0 : UInt64).toNat < 2 ^ 41 ∧ (0 : UInt16).toNat < 2 ^ 12 := by decide
  exact ⟨hzero.1, Nat.lt_succ_of_le hle, hzero.2⟩

end MatchIDGenerator

open MatchIDGenerator

/-- **Match IDs never repeat or go backwards.**  The calls return; the IDs are positive and
strictly increasing, decode to the fields of the generator, and differ from those of a
generator with another server ID. -/
theorem match_ids_unique (serverID : UInt16) (hserver : serverID ≤ MAX_SERVER_ID) (n : Nat)
    (readings : List UInt64) (hreadings : ∀ reading ∈ readings, reading.toNat < 2 ^ 41)
    (hsupplied : (new serverID).Supplied n readings) :
    ∃ calls left, (new serverID).creates n readings = some (calls, left) ∧ calls.length = n ∧
      (calls.map Prod.fst).Pairwise (· < ·) ∧
      (∀ call ∈ calls, 0 < call.1 ∧ call.2.sequence ≤ MAX_SEQUENCE ∧
        decode call.1 = (call.2.lastTimestamp, serverID, call.2.sequence)) ∧
      ∀ otherID m readings' calls' left', otherID ≤ MAX_SERVER_ID → otherID ≠ serverID →
        (∀ reading ∈ readings', reading.toNat < 2 ^ 41) →
        (new otherID).creates m readings' = some (calls', left') →
        ∀ call ∈ calls, ∀ call' ∈ calls', call.1 ≠ call'.1 := by
  obtain ⟨calls, left, hcreates⟩ := creates_returns hsupplied
  obtain ⟨hlength, hcalls, hgrow⟩ := creates_spec (ready_new hserver) hreadings hcreates
  refine ⟨calls, left, hcreates, hlength, ?_, fun call hmem => ?_, ?_⟩
  · rw [List.pairwise_map]
    refine hgrow.imp_of_mem fun {a b} ha hb hlt => ?_
    rw [Int64.lt_iff_toInt_lt, (hcalls a ha).id_eq, (hcalls b hb).id_eq,
      (hcalls a ha).ready.id_toInt, (hcalls b hb).ready.id_toInt]
    exact Int.ofNat_lt.mpr hlt
  · obtain ⟨hready, hsame, hid, hvalue⟩ := hcalls call hmem
    refine ⟨?_, ?_, ?_⟩
    · rw [Int64.lt_iff_toInt_lt, hid, hready.id_toInt]
      exact Int.ofNat_lt.mpr (Nat.lt_of_le_of_lt (Nat.zero_le _) hvalue)
    · exact UInt16.le_iff_toNat_le.mpr (Nat.le_of_lt_succ hready.sequence)
    · rw [hid, hready.decode_id, hsame]
      rfl
  · intro otherID m readings' calls' left' hother hne hreadings' hcreates' call hmem call' hmem'
      heq
    obtain ⟨_, hcalls', _⟩ := creates_spec (ready_new hother) hreadings' hcreates'
    have hdecode := congrArg decode heq
    rw [(hcalls call hmem).id_eq, (hcalls' call' hmem').id_eq,
      (hcalls call hmem).ready.decode_id, (hcalls' call' hmem').ready.decode_id,
      Prod.mk.injEq, Prod.mk.injEq, (hcalls call hmem).sameServer,
      (hcalls' call' hmem').sameServer] at hdecode
    exact hne hdecode.2.1.symm

/-- Three calls of server 5, the last with a clock that has jumped back. -/
theorem threeCalls_unique :
    ∃ calls left, (new 5).creates 3 [7, 7, 3] = some (calls, left) ∧ calls.length = 3 ∧
      (calls.map Prod.fst).Pairwise (· < ·) ∧
      (∀ call ∈ calls, 0 < call.1 ∧ call.2.sequence ≤ MAX_SEQUENCE ∧
        decode call.1 = (call.2.lastTimestamp, 5, call.2.sequence)) ∧
      ∀ otherID m readings' calls' left', otherID ≤ MAX_SERVER_ID → otherID ≠ 5 →
        (∀ reading ∈ readings', reading.toNat < 2 ^ 41) →
        (new otherID).creates m readings' = some (calls', left') →
        ∀ call ∈ calls, ∀ call' ∈ calls', call.1 ≠ call'.1 :=
  match_ids_unique 5 (by decide) 3 [7, 7, 3] (by simp) (by decide +kernel)

end SessionServer.Battle
