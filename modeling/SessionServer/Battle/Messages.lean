/-
  Battle/Messages.lean --- what one message of a client does to a fight.

  Every handler of the stub makes its checks first.  A message that fails them leaves the
  contents alone, and at most its sender is disconnected.  A message that passes is
  written to the sender's player and announced to the others, and an attack then strikes
  the first enemy in range.
-/
import SessionServer.Battle.FightRun

set_option autoImplicit false

namespace SessionServer.Battle

open FightContents

/-! ## The player map -/

namespace PlayerMap

/-- The entries after a write: the others, and the one written. -/
theorem mem_modify {m : PlayerMap} {sessionID : SessionID} {player : Player}
    {entry : SessionID × Player} :
    entry ∈ m.modify sessionID (fun _ => player) ↔
      (entry ∈ m ∧ entry.1 ≠ sessionID) ∨ (sessionID ∈ m.keys ∧ entry = (sessionID, player)) := by
  simp only [PlayerMap.modify, PlayerMap.keys, List.mem_map]
  constructor
  · rintro ⟨old, hold, rfl⟩
    by_cases heq : old.1 = sessionID
    · exact Or.inr ⟨⟨old, hold, heq⟩, by simp [heq]⟩
    · exact Or.inl ⟨by simpa [heq] using hold, by simp [heq]⟩
  · rintro (⟨hmem, hne⟩ | ⟨⟨old, hold, heq⟩, rfl⟩)
    · exact ⟨entry, hmem, by simp [hne]⟩
    · exact ⟨old, hold, by simp [heq]⟩

theorem keys_modify (m : PlayerMap) (sessionID : SessionID) (write : Player → Player) :
    (m.modify sessionID write).keys = m.keys := by
  simp only [PlayerMap.keys, PlayerMap.modify, List.map_map]
  refine List.map_congr_left fun entry _ => ?_
  simp only [Function.comp_apply]
  split <;> rfl

theorem find_eq_none {m : PlayerMap} {sessionID : SessionID} :
    m.find sessionID = none ↔ sessionID ∉ m.keys := by
  simp only [PlayerMap.find, PlayerMap.keys, List.lookup_eq_none_iff, List.mem_map, not_exists,
    not_and, bne_iff_ne, ne_eq]
  constructor
  · intro h entry hmem heq
    exact h entry hmem heq.symm
  · intro h entry hmem heq
    exact h entry hmem heq.symm

theorem mem_keys_of_find {m : PlayerMap} {sessionID : SessionID} {player : Player}
    (h : m.find sessionID = some player) : sessionID ∈ m.keys :=
  List.mem_map_of_mem (mem_of_find h)

/-- Where no key comes twice, the entries are what is found. -/
theorem find_of_mem {m : PlayerMap} (hnodup : m.keys.Nodup) {entry : SessionID × Player}
    (hmem : entry ∈ m) : m.find entry.1 = some entry.2 := by
  induction m with
  | nil => simp at hmem
  | cons first m ih =>
      simp only [PlayerMap.keys, List.map_cons, List.nodup_cons] at hnodup
      rw [PlayerMap.find, List.lookup_cons]
      rcases List.mem_cons.mp hmem with rfl | hrest
      · simp
      · have hne : entry.1 ≠ first.1 := fun heq =>
          hnodup.1 (heq ▸ List.mem_map_of_mem hrest)
        rw [beq_false_of_ne hne]
        exact ih hnodup.2 hrest

end PlayerMap

/-! ## The checks and the writes -/

namespace CSMessage

/-- The checks a handler makes on the player it has found. -/
def passes (message : CSMessage) (player : Player) (now : UInt32) : Bool :=
  match message with
  | .moveStart dir x y =>
      isValidMoveDirection dir && isPositionSyncValid player x y &&
        !decide (player.move.toInt = dir.toNat) && canHandleMoveRequest player now
  | .moveStop dir x y =>
      isValidMoveDirection dir && isPositionSyncValid player x y && !decide (player.move = -1)
  | .attack _ dir x y =>
      isValidMoveDirection dir && isPositionSyncValid player x y && canHandleAttack player now
  | .other => false

/-- What a handler writes to the player of a message that passes. -/
def write (message : CSMessage) (now : UInt32) (player : Player) : Player :=
  match message with
  | .moveStart dir x y =>
      { player with
        lastMoveRequestAt := now, direction := facing player dir, move := dir.toInt8, x := x, y := y }
  | .moveStop dir x y =>
      { player with direction := facing player dir, move := -1, x := x, y := y }
  | .attack _ dir x y =>
      { player with lastAttackRequestAt := now, direction := dir, x := x, y := y }
  | .other => player

def attackType : CSMessage → Option AttackType
  | .attack type _ _ _ => some type
  | _ => none

end CSMessage

namespace FightContents

/-- The player of a message that passes the checks of its handler. -/
def accepted (f : FightContents) (sessionID : SessionID) (message : CSMessage) (now : UInt32) :
    Option Player :=
  (f.playerMap.find sessionID).filter fun player => message.passes player now

/-- The contents with a player written under a key. -/
def written (f : FightContents) (sessionID : SessionID) (player : Player) : FightContents :=
  { f with playerMap := f.playerMap.modify sessionID fun _ => player }

/-- The entry `AttackPlayer` strikes. -/
def enemyInRange (f : FightContents) (attacker : Player) (type : AttackType) :
    Option (SessionID × Player) :=
  f.playerMap.find? fun entry =>
    attacker.team ≠ entry.2.team ∧ isTargetInAttackRange attacker entry.2 type

/-- `ApplyDamage` and `BroadcastDamage` for one entry. -/
def strike (f : FightContents) (attacker : Player) (type : AttackType)
    (entry : SessionID × Player) : FightContents × List Effect :=
  let target := applyDamage entry.2 type.getAttackDamage
  let f := f.written entry.1 target
  (f, (if target.hp ≤ 0 then [.disconnect target.sessionID] else []) ++
    [.send f.collectAllSessions (.damage attacker.id target.id target.hp.toUInt8)])

theorem attackPlayer_eq (f : FightContents) (attacker : Player) (type : AttackType) :
    f.attackPlayer attacker type =
      match f.enemyInRange attacker type with
      | none => (f, [])
      | some entry => f.strike attacker type entry := rfl

/-- The attack and the entry it strikes, for a message that is an attack and passes. -/
def hit (f : FightContents) (sessionID : SessionID) (message : CSMessage) (now : UInt32) :
    Option (AttackType × (SessionID × Player)) :=
  match f.accepted sessionID message now, message.attackType with
  | some player, some type =>
      ((f.written sessionID (message.write now player)).enemyInRange (message.write now player)
        type).map fun entry => (type, entry)
  | _, _ => none

theorem accepted_eq_some {f : FightContents} {sessionID : SessionID} {message : CSMessage}
    {now : UInt32} {player : Player} :
    f.accepted sessionID message now = some player ↔
      f.playerMap.find sessionID = some player ∧ message.passes player now = true := by
  simp [accepted, Option.filter_eq_some_iff]

theorem accepted_eq_none {f : FightContents} {sessionID : SessionID} {message : CSMessage}
    {now : UInt32} :
    f.accepted sessionID message now = none ↔
      ∀ player, f.playerMap.find sessionID = some player → message.passes player now = false := by
  simp [accepted, Option.filter_eq_none_iff]

/-! ## One message -/

/-- The contents with the write of a message. -/
def acting (f : FightContents) (sessionID : SessionID) (message : CSMessage) (now : UInt32)
    (player : Player) : FightContents :=
  f.written sessionID (message.write now player)

/-- **Everything one message can do.** -/
inductive Messaged (f : FightContents) (sessionID : SessionID) (message : CSMessage)
    (now : UInt32) : FightContents × List Effect → Prop where
  /-- a check has failed -/
  | refused (effects : List Effect) (hnone : f.accepted sessionID message now = none)
      (heffects : effects = [] ∨ effects = [.disconnect sessionID]) :
      Messaged f sessionID message now (f, effects)
  /-- the write and its announcement -/
  | acted (player : Player) (packet : SCMessage) (hpacket : ∀ atk tgt hp, packet ≠ .damage atk tgt hp)
      (haccepted : f.accepted sessionID message now = some player)
      (hnone : f.hit sessionID message now = none) :
      Messaged f sessionID message now
        (f.acting sessionID message now player,
          [.send ((f.acting sessionID message now player).collectOtherSessions sessionID) packet])
  /-- an attack that strikes -/
  | struck (player : Player) (packet : SCMessage)
      (hpacket : ∀ atk tgt hp, packet ≠ .damage atk tgt hp) (type : AttackType)
      (entry : SessionID × Player) (haccepted : f.accepted sessionID message now = some player)
      (hhit : f.hit sessionID message now = some (type, entry)) :
      Messaged f sessionID message now
        (((f.acting sessionID message now player).strike (message.write now player) type entry).1,
          .send ((f.acting sessionID message now player).collectOtherSessions sessionID) packet ::
            ((f.acting sessionID message now player).strike (message.write now player) type
              entry).2)

section

variable {f : FightContents} {sessionID : SessionID} {message : CSMessage} {now : UInt32}

/-- Without a player nothing is done. -/
theorem Messaged.unknown {effects : List Effect} (hfind : f.playerMap.find sessionID = none)
    (heffects : effects = [] ∨ effects = [.disconnect sessionID]) :
    Messaged f sessionID message now (f, effects) :=
  .refused _ (accepted_eq_none.mpr fun player hplayer => by simp [hfind] at hplayer) heffects

theorem Messaged.failed {player : Player} {effects : List Effect}
    (hfind : f.playerMap.find sessionID = some player) (hfails : message.passes player now = false)
    (heffects : effects = [] ∨ effects = [.disconnect sessionID]) :
    Messaged f sessionID message now (f, effects) := by
  refine .refused _ (accepted_eq_none.mpr fun other hother => ?_) heffects
  rw [hfind, Option.some.injEq] at hother
  exact hother ▸ hfails

/-- An invalid direction is refused whoever sends it. -/
theorem Messaged.invalid (hfails : ∀ player, message.passes player now = false) :
    Messaged f sessionID message now (f, [.disconnect sessionID]) :=
  .refused _ (accepted_eq_none.mpr fun player _ => hfails player) (Or.inr rfl)

end

/-- The checks every handler of a client message begins with: they fail for a message that
does not pass, whatever the handler does after them. -/
theorem checked_messaged {f : FightContents} {sessionID : SessionID} {message : CSMessage}
    {now : UInt32} {dir : UInt8} {x y : UInt16} {body : Player → FightContents × List Effect}
    (hdir : isValidMoveDirection dir = false → ∀ player, message.passes player now = false)
    (hsync : ∀ player, isPositionSyncValid player x y = false →
      message.passes player now = false)
    (hbody : isValidMoveDirection dir = true → ∀ player,
      f.playerMap.find sessionID = some player → isPositionSyncValid player x y = true →
        Messaged f sessionID message now (body player)) :
    Messaged f sessionID message now
      (if !isValidMoveDirection dir then (f, [.disconnect sessionID])
      else match f.playerMap.find sessionID with
      | none => (f, [])
      | some player =>
          if !isPositionSyncValid player x y then (f, [.disconnect sessionID])
          else body player) :=
  checked_rule (fun hinvalid => .invalid (hdir hinvalid))
    (fun hfind => .unknown hfind (Or.inl rfl))
    (fun player hfind hout => .failed hfind (hsync player hout) (Or.inr rfl))
    hbody

theorem procCSMoveStart_messaged (f : FightContents) (sessionID : SessionID) (dir : UInt8)
    (x y : UInt16) (now : UInt32) :
    Messaged f sessionID (.moveStart dir x y) now (f.procCSMoveStart sessionID dir x y now) := by
  refine checked_messaged (fun hdir player => by simp [CSMessage.passes, hdir])
    (fun player hsync => by simp [CSMessage.passes, hsync]) fun hdir player hfind hsync => ?_
  split
  · exact .failed hfind (by simp_all [CSMessage.passes]) (Or.inl rfl)
  · split
    · exact .failed hfind (by simp_all [CSMessage.passes]) (Or.inl rfl)
    · have hpasses : (CSMessage.moveStart dir x y).passes player now = true := by
        simp_all [CSMessage.passes]
      exact .acted player _ (by simp) (accepted_eq_some.mpr ⟨hfind, hpasses⟩)
        (by simp [hit, CSMessage.attackType])

theorem procCSMoveStop_messaged (f : FightContents) (sessionID : SessionID) (dir : UInt8)
    (x y : UInt16) (now : UInt32) :
    Messaged f sessionID (.moveStop dir x y) now (f.procCSMoveStop sessionID dir x y) := by
  refine checked_messaged (fun hdir player => by simp [CSMessage.passes, hdir])
    (fun player hsync => by simp [CSMessage.passes, hsync]) fun hdir player hfind hsync => ?_
  split
  · exact .failed hfind (by simp_all [CSMessage.passes]) (Or.inl rfl)
  · have hpasses : (CSMessage.moveStop dir x y).passes player now = true := by
      simp_all [CSMessage.passes]
    exact .acted player _ (by simp) (accepted_eq_some.mpr ⟨hfind, hpasses⟩)
      (by simp [hit, CSMessage.attackType])

theorem procCSAttack_messaged (f : FightContents) (type : AttackType) (sessionID : SessionID)
    (dir : UInt8) (x y : UInt16) (now : UInt32) :
    Messaged f sessionID (.attack type dir x y) now (f.procCSAttack type sessionID dir x y now) := by
  refine checked_messaged (fun hdir player => by simp [CSMessage.passes, hdir])
    (fun player hsync => by simp [CSMessage.passes, hsync]) fun hdir player hfind hsync => ?_
  split
  · exact .failed hfind (by simp_all [CSMessage.passes]) (Or.inl rfl)
  · have hpasses : (CSMessage.attack type dir x y).passes player now = true := by
      simp_all [CSMessage.passes]
    have haccepted := accepted_eq_some.mpr ⟨hfind, hpasses⟩
    have hhit : f.hit sessionID (.attack type dir x y) now =
        ((f.acting sessionID (.attack type dir x y) now player).enemyInRange
          ((CSMessage.attack type dir x y).write now player) type).map
            fun entry => (type, entry) := by
      simp only [hit, haccepted, CSMessage.attackType, acting]
    simp only [attackPlayer_eq]
    split
    · rename_i hrange
      exact .acted player _ (by simp) haccepted (hhit.trans (congrArg (Option.map _) hrange))
    · rename_i entry hrange
      exact .struck player _ (by simp) type entry haccepted
        (hhit.trans (congrArg (Option.map _) hrange))

theorem procMessage_messaged (f : FightContents) (sessionID : SessionID) (message : CSMessage)
    (now : UInt32) : Messaged f sessionID message now (f.procMessage sessionID message now) := by
  cases message with
  | moveStart dir x y => exact f.procCSMoveStart_messaged sessionID dir x y now
  | moveStop dir x y => exact f.procCSMoveStop_messaged sessionID dir x y now
  | attack type dir x y =>
      rw [procMessage_attack]
      exact f.procCSAttack_messaged type sessionID dir x y now
  | other => exact .invalid fun _ => rfl

/-! ## The players after a message -/

variable {f : FightContents} {sessionID : SessionID} {message : CSMessage} {now : UInt32}
  {out : FightContents × List Effect}

@[simp] theorem write_team (message : CSMessage) (now : UInt32) (player : Player) :
    (message.write now player).team = player.team := by
  cases message <;> rfl

@[simp] theorem write_hp (message : CSMessage) (now : UInt32) (player : Player) :
    (message.write now player).hp = player.hp := by
  cases message <;> rfl

@[simp] theorem write_id (message : CSMessage) (now : UInt32) (player : Player) :
    (message.write now player).id = player.id := by
  cases message <;> rfl

/-- The entry an attack strikes is an enemy's, as it was before the message. -/
theorem hit_spec {type : AttackType} {entry : SessionID × Player}
    (h : f.hit sessionID message now = some (type, entry)) :
    ∃ player, f.accepted sessionID message now = some player ∧
      message.attackType = some type ∧ entry ∈ f.playerMap ∧ entry.1 ≠ sessionID ∧
      player.team ≠ entry.2.team := by
  unfold hit at h
  split at h
  · rename_i player type' haccepted htype
    obtain ⟨found, hfound, heq⟩ := Option.map_eq_some_iff.mp h
    rw [Prod.mk.injEq] at heq
    obtain ⟨rfl, rfl⟩ := heq
    have hteam : player.team ≠ found.2.team := by
      have := List.find?_some hfound
      simp only [Bool.decide_and, Bool.and_eq_true, decide_eq_true_eq, write_team] at this
      exact this.1
    rcases PlayerMap.mem_modify.mp (List.mem_of_find?_eq_some hfound) with ⟨hmem, hne⟩ | ⟨_, heq⟩
    · exact ⟨player, haccepted, htype, hmem, hne, hteam⟩
    · rw [heq] at hteam
      exact absurd (write_team message now player).symm hteam
  · simp at h

/-- A message that passes is announced. -/
theorem Messaged.sends (h : Messaged f sessionID message now out) {player : Player}
    (haccepted : f.accepted sessionID message now = some player) :
    ∃ sessions packet, .send sessions packet ∈ out.2 := by
  cases h with
  | refused effects hnone heffects => simp [hnone] at haccepted
  | acted player packet hpacket haccepted hnone => exact ⟨_, packet, List.mem_cons_self⟩
  | struck player packet hpacket type entry haccepted hhit =>
      exact ⟨_, packet, List.mem_cons_self⟩

/-- A message that fails leaves the contents alone, and at most its sender is
disconnected. -/
theorem Messaged.of_none (h : Messaged f sessionID message now out)
    (hnone : f.accepted sessionID message now = none) :
    out.1 = f ∧ (out.2 = [] ∨ out.2 = [.disconnect sessionID]) := by
  cases h with
  | refused effects hnone heffects => exact ⟨rfl, heffects⟩
  | acted player packet hpacket haccepted _ => simp [hnone] at haccepted
  | struck player packet hpacket type entry haccepted hhit => simp [hnone] at haccepted

/-- **The players after a message** are those before it, the sender's as it was written,
and the one that was struck. -/
theorem Messaged.mem (h : Messaged f sessionID message now out) {entry : SessionID × Player}
    (hmem : entry ∈ out.1.playerMap) :
    entry ∈ f.playerMap ∨
      (∃ player, f.accepted sessionID message now = some player ∧
        entry = (sessionID, message.write now player)) ∨
      ∃ type target, f.hit sessionID message now = some (type, target) ∧
        entry = (target.1, applyDamage target.2 type.getAttackDamage) := by
  cases h with
  | refused effects hnone heffects => exact Or.inl hmem
  | acted player packet hpacket haccepted hnone =>
      rcases PlayerMap.mem_modify.mp hmem with ⟨hold, _⟩ | ⟨_, rfl⟩
      · exact Or.inl hold
      · exact Or.inr (Or.inl ⟨player, haccepted, rfl⟩)
  | struck player packet hpacket type target haccepted hhit =>
      rcases PlayerMap.mem_modify.mp hmem with ⟨hold, _⟩ | ⟨_, rfl⟩
      · rcases PlayerMap.mem_modify.mp hold with ⟨hold, _⟩ | ⟨_, rfl⟩
        · exact Or.inl hold
        · exact Or.inr (Or.inl ⟨player, haccepted, rfl⟩)
      · exact Or.inr (Or.inr ⟨type, target, hhit, rfl⟩)

/-- The sender's player is there as it was written. -/
theorem Messaged.written_mem (h : Messaged f sessionID message now out) {player : Player}
    (haccepted : f.accepted sessionID message now = some player) :
    (sessionID, message.write now player) ∈ out.1.playerMap := by
  have hkey : sessionID ∈ f.playerMap.keys :=
    PlayerMap.mem_keys_of_find (accepted_eq_some.mp haccepted).1
  have hacting : (sessionID, message.write now player) ∈
      (f.acting sessionID message now player).playerMap :=
    PlayerMap.mem_modify.mpr (Or.inr ⟨hkey, rfl⟩)
  cases h with
  | refused effects hnone heffects => simp [hnone] at haccepted
  | acted player' packet hpacket haccepted' hnone =>
      rw [haccepted, Option.some.injEq] at haccepted'
      exact haccepted' ▸ hacting
  | struck player' packet hpacket type target haccepted' hhit =>
      rw [haccepted, Option.some.injEq] at haccepted'
      obtain ⟨_, _, _, _, hne, _⟩ := hit_spec hhit
      exact PlayerMap.mem_modify.mpr (Or.inl ⟨haccepted' ▸ hacting, hne.symm⟩)

/-- The player that was struck is there with the damage. -/
theorem Messaged.struck_mem (h : Messaged f sessionID message now out) {type : AttackType}
    {target : SessionID × Player} (hhit : f.hit sessionID message now = some (type, target)) :
    (target.1, applyDamage target.2 type.getAttackDamage) ∈ out.1.playerMap := by
  obtain ⟨_, haccepted, _, hmem, _, _⟩ := hit_spec hhit
  cases h with
  | refused effects hnone heffects => simp [hnone] at haccepted
  | acted player packet hpacket haccepted' hnone => simp [hnone] at hhit
  | struck player packet hpacket type' target' haccepted' hhit' =>
      rw [hhit, Option.some.injEq, Prod.mk.injEq] at hhit'
      obtain ⟨rfl, rfl⟩ := hhit'
      refine PlayerMap.mem_modify.mpr (Or.inr ⟨?_, rfl⟩)
      simp only [acting, written, PlayerMap.keys_modify]
      exact List.mem_map_of_mem hmem

end FightContents

end SessionServer.Battle
