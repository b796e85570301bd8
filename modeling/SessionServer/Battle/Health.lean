/-
  Battle/Health.lean --- the hp of the players.

  `_hp` is a signed byte without a floor, and the packet that announces a hit carries it as
  an unsigned one.  A player at 0 is disconnected, and stays a target until it has left.
-/
import SessionServer.Battle.Started

set_option autoImplicit false

namespace SessionServer.Battle

open SessionServer.Foundation FightContents

/-! ## Health -/

/-- The hp of every player lie between 0 and 100. -/
def FightContents.Healthy (f : FightContents) : Prop :=
  ∀ entry ∈ f.playerMap, 0 ≤ entry.2.hp.toInt ∧ entry.2.hp.toInt ≤ 100

instance (f : FightContents) : Decidable f.Healthy :=
  inferInstanceAs (Decidable (∀ entry ∈ f.playerMap, _))

/-- No two players of the fight have one ID. -/
def FightContents.DistinctIDs (f : FightContents) : Prop :=
  ∀ a ∈ f.playerMap, ∀ b ∈ f.playerMap, a.2.id = b.2.id → a = b

/-- `hp` is what the one player with the ID `tgt` has. -/
def FightContents.HasHp (f : FightContents) (tgt : UInt32) (hp : UInt8) : Prop :=
  ∃ entry ∈ f.playerMap, entry.2.id = tgt ∧ (hp.toNat : Int) = entry.2.hp.toInt ∧
    ∀ other ∈ f.playerMap, other.2.id = tgt → other = entry

/-- What an event does to the hp: they stay within 0 .. 100, nobody's increase, and every
announcement of a hit carries those of its target. -/
structure HealthKept (f : FightContents) (event : FightEvent) : Prop where
  healthy : (fightStep f event).1.Healthy
  falls : ∀ old ∈ f.playerMap, ∀ new ∈ (fightStep f event).1.playerMap,
    new.1 = old.1 → new.2.hp.toInt ≤ old.2.hp.toInt
  announced : ∀ sessions atk tgt hp,
    .send sessions (.damage atk tgt hp) ∈ (fightStep f event).2 →
    (fightStep f event).1.HasHp tgt hp ∧ hp.toNat ≤ 100

/-- The damage of a message that hits is at most what its target has left. -/
def DamageFits (f : FightContents) : FightEvent → Prop
  | .message sessionID message now =>
      ∀ hit ∈ f.hit sessionID message now, hit.1.getAttackDamage ≤ hit.2.2.hp.toInt
  | _ => True

instance (f : FightContents) : (event : FightEvent) → Decidable (DamageFits f event)
  | .message sessionID message now =>
      inferInstanceAs (Decidable (∀ hit ∈ f.hit sessionID message now, _))
  | .enter _ _ _ => instDecidableTrue
  | .leave _ => instDecidableTrue
  | .update _ => instDecidableTrue
  | .rehash _ => instDecidableTrue

/-! ## The byte -/

theorem getAttackDamage_pos (type : AttackType) : 0 < type.getAttackDamage := by
  cases type <;> decide

theorem getAttackDamage_le (type : AttackType) : type.getAttackDamage ≤ 50 := by
  cases type <;> decide

/-- Damage to a player in health does not wrap around: it may go below zero. -/
theorem applyDamage_toInt {player : Player}
    (h : 0 ≤ player.hp.toInt ∧ player.hp.toInt ≤ 100) (type : AttackType) :
    (applyDamage player type.getAttackDamage).hp.toInt =
      player.hp.toInt - type.getAttackDamage := by
  have hpos := getAttackDamage_pos type
  have hle := getAttackDamage_le type
  exact Int8.toInt_ofInt_of_le (by omega) (by omega)

/-- What is not negative is sent as it is. -/
theorem toUInt8_toNat_of_nonneg {hp : Int8} (h : 0 ≤ hp.toInt) :
    (hp.toUInt8.toNat : Int) = hp.toInt := by
  rw [Int8.toNat_toUInt8_of_le (Int8.le_iff_toInt_le.mpr h), Int8.toNatClampNeg]
  omega

/-! ## One event -/

/-- What the steps of a started fight rely on. -/
structure HealthInv (f : FightContents) : Prop where
  healthy : f.Healthy
  ids : f.DistinctIDs
  keys : f.playerMap.keys.Nodup

section

variable {f : FightContents} {event : FightEvent}

/-- The hp of a player after an event in which the damage fits. -/
theorem HealthInv.hp_from (h : HealthInv f) (hevent : event.entering = none)
    (hfits : DamageFits f event) {entry : SessionID × Player}
    (hmem : entry ∈ (fightStep f event).1.playerMap) :
    ∃ old ∈ f.playerMap, entry.1 = old.1 ∧ 0 ≤ entry.2.hp.toInt ∧
      entry.2.hp.toInt ≤ old.2.hp.toInt := by
  obtain ⟨old, hold, hkey, _, hhp | ⟨sessionID, message, now, type, rfl, hhit, hhp⟩⟩ :=
    fightStep_from hevent hmem
  · exact ⟨old, hold, hkey, hhp ▸ (h.healthy old hold).1, Int.le_of_eq (by rw [hhp])⟩
  · have hdamage := applyDamage_toInt (h.healthy old hold) type
    have hpos := getAttackDamage_pos type
    have hfit : type.getAttackDamage ≤ old.2.hp.toInt := hfits _ hhit
    rw [← hhp] at hdamage
    exact ⟨old, hold, hkey, by omega, by omega⟩

theorem HealthInv.ids_kept (h : HealthInv f) (hevent : event.entering = none) :
    (fightStep f event).1.DistinctIDs := by
  intro a ha b hb hid
  obtain ⟨old, hold, hkey, holdid, _⟩ := fightStep_from hevent ha
  obtain ⟨old', hold', hkey', holdid', _⟩ := fightStep_from hevent hb
  have hsame : old = old' := h.ids old hold old' hold' (by rw [← holdid, ← holdid', hid])
  exact PlayerMap.eq_of_key (fightStep_keys_nodup h.keys event) ha hb
    (by rw [hkey, hkey', hsame])

/-- Only a message that hits announces damage. -/
theorem damage_announced {sessions : List SessionID} {atk tgt : UInt32} {hp : UInt8}
    (hevent : event.entering = none)
    (hmem : .send sessions (.damage atk tgt hp) ∈ (fightStep f event).2) :
    ∃ sessionID message now type target, event = .message sessionID message now ∧
      f.hit sessionID message now = some (type, target) ∧ tgt = target.2.id ∧
      hp = (applyDamage target.2 type.getAttackDamage).hp.toUInt8 := by
  cases event with
  | enter sessionID found moved => simp [FightEvent.entering] at hevent
  | leave sessionID =>
      simp only [fightStep, onLeave] at hmem
      split at hmem
      · simp at hmem
      · split at hmem <;>
          simp [removePlayer, finishFightAndRelease, disconnectRemainingPlayers] at hmem
  | update now => simp [fightStep] at hmem
  | message sessionID message now =>
      have hmessaged := f.procMessage_messaged sessionID message now
      simp only [fightStep] at hmem
      generalize f.procMessage sessionID message now = out at hmessaged hmem
      cases hmessaged with
      | refused effects hnone heffects => rcases heffects with rfl | rfl <;> simp at hmem
      | acted player packet hpacket haccepted hnone =>
          simp only [List.mem_singleton, Effect.send.injEq] at hmem
          exact absurd hmem.2.symm (hpacket atk tgt hp)
      | struck player packet hpacket type target haccepted hhit =>
          simp only [List.mem_cons, Effect.send.injEq, strike, List.mem_append] at hmem
          rcases hmem with ⟨_, heq⟩ | hkick | ⟨_, heq⟩ | hnil
          · exact absurd heq.symm (hpacket atk tgt hp)
          · split at hkick <;> simp at hkick
          · obtain ⟨_, rfl, rfl⟩ := SCMessage.damage.inj heq
            exact ⟨_, _, _, type, target, rfl, hhit, rfl, rfl⟩
          · simp at hnil
  | rehash order => simp [fightStep] at hmem

/-- **One event** of a started fight keeps the hp in health exactly where its damage
fits. -/
theorem HealthInv.kept_iff (h : HealthInv f) (hevent : event.entering = none) :
    HealthKept f event ↔ DamageFits f event := by
  constructor
  · intro hkept
    cases event with
    | message sessionID message now =>
        rintro ⟨type, target⟩ hhit
        obtain ⟨_, _, _, htarget, _⟩ := hit_spec hhit
        have hstruck := (f.procMessage_messaged sessionID message now).struck_mem hhit
        have hdamage := applyDamage_toInt (h.healthy target htarget) type
        have hleft := (hkept.healthy _ hstruck).1
        simp only at hleft ⊢
        omega
    | _ => trivial
  · intro hfits
    have hhealthy : (fightStep f event).1.Healthy := by
      intro entry hmem
      obtain ⟨old, hold, _, hpos, hle⟩ := h.hp_from hevent hfits hmem
      exact ⟨hpos, Int.le_trans hle (h.healthy old hold).2⟩
    refine ⟨hhealthy, ?_, ?_⟩
    · intro old hold new hnew hkey
      obtain ⟨source, hsource, hsourcekey, _, hle⟩ := h.hp_from hevent hfits hnew
      rwa [PlayerMap.eq_of_key h.keys hold hsource (by rw [← hkey, hsourcekey])]
    · intro sessions atk tgt hp hmem
      obtain ⟨sessionID, message, now, type, target, rfl, hhit, rfl, rfl⟩ :=
        damage_announced hevent hmem
      have hstruck := (f.procMessage_messaged sessionID message now).struck_mem hhit
      have hrange := hhealthy _ hstruck
      have hbyte := toUInt8_toNat_of_nonneg hrange.1
      have hunique := h.ids_kept hevent
      refine ⟨⟨_, hstruck, rfl, hbyte, fun other hother hid => ?_⟩, ?_⟩
      · exact hunique other hother _ hstruck hid
      · have hle := hrange.2
        simp only at hle hbyte
        omega

theorem HealthInv.step (h : HealthInv f) (hevent : event.entering = none)
    (hfits : DamageFits f event) : HealthInv (fightStep f event).1 where
  healthy := ((h.kept_iff hevent).mpr hfits).healthy
  ids := h.ids_kept hevent
  keys := fightStep_keys_nodup h.keys event

end

/-! ## Every run -/

/-- The ID of a player that has been placed says which slot it is. -/
theorem spawned_key {red blue : Fin 3 → SessionID} {a b : SessionID × Player}
    (ha : Spawned red blue a) (hb : Spawned red blue b) (hid : a.2.id = b.2.id) : a.1 = b.1 := by
  have hred : ∀ i j : Fin 3, UInt32.ofNat i = UInt32.ofNat j → i = j := by decide
  have hblue : ∀ i j : Fin 3, UInt32.ofNat (i + 3) = UInt32.ofNat (j + 3) → i = j := by decide
  have hmixed : ∀ i j : Fin 3, UInt32.ofNat i ≠ UInt32.ofNat (j + 3) := by decide
  obtain ⟨i, player, rfl | rfl⟩ := ha <;> obtain ⟨j, player', rfl | rfl⟩ := hb
  · exact congrArg red (hred i j hid)
  · exact absurd hid (hmixed i j)
  · exact absurd hid.symm (hmixed j i)
  · exact congrArg blue (hblue i j hid)

/-- A fight that has just started is in health. -/
theorem StartedRun.health {pooled : FightContents} {contentsNum : ContentsNum} {matchID : Int}
    {group : Group} {before after : List FightEvent} {event : FightEvent}
    (h : StartedRun pooled contentsNum matchID group before event after) :
    HealthInv (startedFight pooled contentsNum matchID group before event) := by
  have hkeys := startedFight_keys_nodup pooled contentsNum matchID group before event
  refine ⟨fun entry hmem => ?_, fun a ha b hb hid => ?_, hkeys⟩
  · obtain ⟨i, player, rfl | rfl⟩ := h.spawned entry hmem <;>
      exact (by decide : 0 ≤ (100 : Int8).toInt ∧ (100 : Int8).toInt ≤ 100)
  · exact PlayerMap.eq_of_key hkeys ha hb (spawned_key (h.spawned a ha) (h.spawned b hb) hid)

/-- **From the start on the hp of the players lie within 0 .. 100, never increase and are
announced as they are, in exactly the runs in which no message hits a player with less hp
than the damage.** -/
theorem health_kept_iff (pooled : FightContents) (contentsNum : ContentsNum) (matchID : Int)
    (group : Group) (before : List FightEvent) (event : FightEvent) (after : List FightEvent)
    (hstarted : StartedRun pooled contentsNum matchID group before event after) :
    ((startedFight pooled contentsNum matchID group before event).Healthy ∧
      ∀ done next rest, after = done ++ next :: rest →
        HealthKept (fightRun (startedFight pooled contentsNum matchID group before event) done)
          next) ↔
    (∀ done next rest, after = done ++ next :: rest →
      DamageFits (fightRun (startedFight pooled contentsNum matchID group before event) done)
        next) := by
  have hstart := hstarted.health
  have hiff : ∀ (f : FightContents) (next : FightEvent), HealthInv f → next.entering = none →
      (HealthKept f next ↔ DamageFits f next) := fun f next h hnext => h.kept_iff hnext
  have hkeep : ∀ (f : FightContents) (next : FightEvent), HealthInv f → next.entering = none →
      DamageFits f next → HealthInv (fightStep f next).1 :=
    fun f next h hnext hfits => h.step hnext hfits
  rw [and_iff_right hstart.healthy]
  exact foldl_forall_iff hiff hkeep hstart hstarted.no_enter

/-- A red player walks up to a blue one and hits it twice, which leaves it with 0; then it
hits it once more. -/
def threeHits : List FightEvent :=
  [.message (firstSession 0) (.moveStart dfPACKET_MOVE_DIR_RR 40 90) 1000, .update 3400,
    .message (firstSession 0) (.attack .attack3 dfPACKET_MOVE_DIR_RR 550 90) 5000,
    .message (firstSession 0) (.attack .attack3 dfPACKET_MOVE_DIR_RR 550 90) 6000,
    .message (firstSession 0) (.attack .attack3 dfPACKET_MOVE_DIR_RR 550 90) 7000]

theorem twoHits_health_kept :
    firstStarted.Healthy ∧ ∀ done next rest, threeHits.take 4 = done ++ next :: rest →
      HealthKept (fightRun firstStarted done) next :=
  (health_kept_iff pooledFight 1 1 firstGroup fiveEnter (firstEnter 5) (threeHits.take 4)
    (fiveEnter_started (by decide +kernel))).mpr
      ((forall_splits_iff (R := DamageFits)).mpr (by decide +kernel))

/-- The third hit takes the hp to -50, which goes out as 206. -/
theorem threeHits_underflow :
    StartedRun pooledFight 1 1 firstGroup fiveEnter (firstEnter 5) threeHits ∧
      ¬ (fightRun firstStarted threeHits).Healthy ∧
      ∃ sessions, .send sessions (.damage 0 3 206) ∈
        (fightStep (fightRun firstStarted (threeHits.take 4))
          (.message (firstSession 0) (.attack .attack3 dfPACKET_MOVE_DIR_RR 550 90) 7000)).2 := by
  refine ⟨fiveEnter_started (by decide +kernel), by decide +kernel, ?_⟩
  exact ⟨[5, 4, 3, 2, 1, 0].map firstSession, by decide +kernel⟩

end SessionServer.Battle
