/-
  Battle/Recycled.lean --- what a recycled player object carries over.

  `_playerPool` hands its objects out as they came back.  `OnAccept` sets the session ID, the
  matching the team, `OnEnter` the contents, and the start of the fight everything else but
  the two time stamps.  Two runs that differ in the objects only are compared step by step.
-/
import SessionServer.Battle.Started

set_option autoImplicit false

namespace SessionServer.Battle

open SessionServer.Foundation FightContents

/-! ## Two runs -/

/-- `OnAccept` on the object the pool hands out. -/
def onAccept (pooled : Player) (sessionID : SessionID) : Player :=
  { pooled with sessionID := sessionID }

/-- `_team = team` of `AssignTeamAndMovePlayers`. -/
def assignTeam (player : Player) (team : Team) : Player := { player with team := team }

/-- What happens next to a fight, without the player objects: an enter event is for a slot
of the match, and an iteration order is one of the keys. -/
inductive FightInput where
  | enter (team : Team) (slot : Fin 3) (found moved : Bool)
  | leave (sessionID : SessionID)
  | update (now : UInt32)
  | message (sessionID : SessionID) (message : CSMessage) (now : UInt32)
  | rehash (order : List SessionID)

def PlayerMap.arrange (m : PlayerMap) (order : List SessionID) : PlayerMap :=
  order.filterMap fun sessionID => (m.find sessionID).map fun player => (sessionID, player)

def FightContents.slotSession (f : FightContents) : Team → Fin 3 → SessionID
  | .red => f.red
  | .blue => f.blue

/-- The player of a slot, as it comes to its enter event. -/
def FightContents.slotPlayer (f : FightContents) (pool : SessionID → Player) (team : Team)
    (slot : Fin 3) : Player :=
  assignTeam (onAccept (pool (f.slotSession team slot)) (f.slotSession team slot)) team

theorem FightContents.slotSession_mem (f : FightContents) (team : Team) (slot : Fin 3) :
    f.slotSession team slot ∈ f.slotSessions [2, 1, 0] := by
  cases team <;> fin_cases slot <;> simp [slotSession, slotSessions]

/-- The event, on the objects the pool has handed out to the sessions. -/
def FightInput.event (pool : SessionID → Player) (f : FightContents) : FightInput → FightEvent
  | .enter team slot found moved =>
      .enter (f.slotSession team slot) (if found then some (f.slotPlayer pool team slot) else none)
        moved
  | .leave sessionID => .leave sessionID
  | .update now => .update now
  | .message sessionID request now => .message sessionID request now
  | .rehash order => .rehash (f.playerMap.arrange order)

/-- The message is accepted by its handler. -/
def FightInput.isAccepted (f : FightContents) : FightInput → Bool
  | .message sessionID request now => (f.accepted sessionID request now).isSome
  | _ => false

/-- The enter event runs the placing loop. -/
def Places (f : FightContents) : FightEvent → Bool
  | .enter sessionID found moved =>
      let counted := f.countEnter sessionID found moved
      decide (counted.matched ≥ 6) &&
        !(counted.checkGameEnd.2 && counted.checkGameEnd.1.end_)
  | _ => false

/-- Two runs of one fight, and whether the last enter event has placed the players. -/
structure Twins where
  left : FightContents
  right : FightContents
  placed : Bool

namespace Twins

variable (pool pool' : SessionID → Player)

def outLeft (t : Twins) (input : FightInput) : FightContents × List Effect :=
  fightStep t.left (input.event pool t.left)

def outRight (t : Twins) (input : FightInput) : FightContents × List Effect :=
  fightStep t.right (input.event pool' t.right)

def next (t : Twins) (input : FightInput) : Twins where
  left := (t.outLeft pool input).1
  right := (t.outRight pool' input).1
  placed := match input with
    | .enter _ _ _ _ => Places t.left (input.event pool t.left)
    | _ => t.placed

def run (t : Twins) (inputs : List FightInput) : Twins := inputs.foldl (next pool pool') t

/-- The two runs do the same: packets, disconnects and result, and whether the message is
accepted. -/
def SameOutput (t : Twins) (input : FightInput) : Prop :=
  (t.outLeft pool input).2 = (t.outRight pool' input).2 ∧
    input.isAccepted t.left = input.isAccepted t.right

instance (t : Twins) (input : FightInput) : Decidable (t.SameOutput pool pool' input) :=
  inferInstanceAs (Decidable (_ ∧ _))

end Twins

namespace CSMessage

/-- The direction is no direction, or the message no message of a fight. -/
def invalid : CSMessage → Bool
  | .moveStart dir _ _ => !isValidMoveDirection dir
  | .moveStop dir _ _ => !isValidMoveDirection dir
  | .attack _ dir _ _ => !isValidMoveDirection dir
  | .other => true

/-- The coordinates are those of the player, within the error range. -/
def inSync (message : CSMessage) (player : Player) : Bool :=
  match message with
  | .moveStart _ x y => isPositionSyncValid player x y
  | .moveStop _ x y => isPositionSyncValid player x y
  | .attack _ _ x y => isPositionSyncValid player x y
  | .other => true

/-- The player is not moving that way already. -/
def isNews (message : CSMessage) (player : Player) : Bool :=
  match message with
  | .moveStart dir _ _ => !decide (player.move.toInt = dir.toNat)
  | .moveStop _ _ _ => !decide (player.move = -1)
  | _ => true

/-- Everything a handler checks but the time since the last request. -/
def checks (message : CSMessage) (player : Player) : Bool :=
  !message.invalid && message.inSync player && message.isNews player

/-- The time since the last request is long enough. -/
def intervalOver (message : CSMessage) (player : Player) (now : UInt32) : Bool :=
  match message with
  | .moveStart _ _ _ => canHandleMoveRequest player now
  | .attack _ _ _ _ => canHandleAttack player now
  | _ => true

end CSMessage

/-- The session an attack kicks, if any, and the player ID and hp it broadcasts. -/
def FightContents.struck (f : FightContents) (sessionID : SessionID) (message : CSMessage)
    (now : UInt32) : Option (Option SessionID × UInt32 × Int8) :=
  (f.hit sessionID message now).map fun found =>
    let target := applyDamage found.2.2 found.1.getAttackDamage
    (if target.hp ≤ 0 then some target.sessionID else none, target.id, target.hp)

namespace Twins

/-- What the input reads of its two players is alike: their IDs when it leaves, and the
checks of a message, and where these pass the IDs and what an attack strikes. -/
def ReadsAlike (t : Twins) : FightInput → Prop
  | .leave sessionID =>
      ∀ p ∈ t.left.playerMap.find sessionID, ∀ q ∈ t.right.playerMap.find sessionID, p.id = q.id
  | .message sessionID message now =>
      message.invalid = true ∨
        ∀ p ∈ t.left.playerMap.find sessionID, ∀ q ∈ t.right.playerMap.find sessionID,
          message.inSync p = message.inSync q ∧ message.passes p now = message.passes q now ∧
            (message.passes p now = true → p.id = q.id ∧
              t.left.struck sessionID message now = t.right.struck sessionID message now)
  | _ => True

/-- Where a message passes all the other checks, the two time stamps of its player answer
alike. -/
def StampsAgree (t : Twins) : FightInput → Prop
  | .message sessionID message now =>
      ∀ p ∈ t.left.playerMap.find sessionID, ∀ q ∈ t.right.playerMap.find sessionID,
        message.checks p = true → message.intervalOver p now = message.intervalOver q now
  | _ => True

/-- Nothing of the earlier clients is seen: once the players are placed, that is in the time
stamps only. -/
def Alike (t : Twins) (input : FightInput) : Prop :=
  if t.placed = true then t.StampsAgree input else t.ReadsAlike input

instance (t : Twins) (input : FightInput) : Decidable (t.ReadsAlike input) := by
  unfold ReadsAlike
  cases input <;> infer_instance

instance (t : Twins) (input : FightInput) : Decidable (t.StampsAgree input) := by
  unfold StampsAgree
  cases input <;> infer_instance

instance (t : Twins) (input : FightInput) : Decidable (t.Alike input) := by
  unfold Alike
  infer_instance

end Twins

/-! ## Twin players -/

/-- The players differ in their time stamps only. -/
def SameButStamps (p q : Player) : Prop :=
  ∃ move attack, q = { p with lastMoveRequestAt := move, lastAttackRequestAt := attack }

/-- Entries of two runs: what a player is assigned is the same, and where `S` says it has
been placed, everything but the time stamps. -/
structure TwinPlayers (S : SessionID → Prop) (a b : SessionID × Player) : Prop where
  key : a.1 = b.1
  sessionID : a.2.sessionID = b.2.sessionID
  team : a.2.team = b.2.team
  contents : a.2.contents = b.2.contents
  placed : S a.1 → SameButStamps a.2 b.2

theorem SameButStamps.twin {p q : Player} (h : SameButStamps p q) (S : SessionID → Prop)
    (id : SessionID) : TwinPlayers S (id, p) (id, q) := by
  obtain ⟨move, attack, rfl⟩ := h
  exact ⟨rfl, rfl, rfl, rfl, fun _ => ⟨move, attack, rfl⟩⟩

namespace PlayerMap

/-- The maps of two runs, in one iteration order. -/
def Twin (S : SessionID → Prop) (m m' : PlayerMap) : Prop := List.Forall₂ (TwinPlayers S) m m'

section

variable {S : SessionID → Prop} {m m' : PlayerMap}

theorem Twin.keys_eq (h : Twin S m m') : m.keys = m'.keys := by
  induction h with
  | nil => rfl
  | cons hab _ ih => exact congrArg₂ List.cons hab.key ih

/-- `S` may be replaced where it says no more about the keys there are. -/
theorem Twin.of_keys {T : SessionID → Prop} (h : Twin S m m')
    (hkeys : ∀ id ∈ m.keys, T id → S id) : Twin T m m' := by
  induction h with
  | nil => exact .nil
  | cons hab _ ih =>
      refine .cons ⟨hab.key, hab.sessionID, hab.team, hab.contents, fun hT => ?_⟩ ?_
      · exact hab.placed (hkeys _ List.mem_cons_self hT)
      · exact ih fun id hid => hkeys id (List.mem_cons_of_mem _ hid)

/-- What is computed from every entry alike is the same list. -/
theorem Twin.map_eq {β : Type} (h : Twin S m m') {F G : SessionID × Player → β}
    (heq : ∀ a b, TwinPlayers S a b → F a = G b) : m.map F = m'.map G := by
  induction h with
  | nil => rfl
  | cons hab _ ih => exact congrArg₂ List.cons (heq _ _ hab) ih

theorem Twin.filter (h : Twin S m m') {P Q : SessionID × Player → Bool}
    (heq : ∀ a b, TwinPlayers S a b → P a = Q b) : Twin S (m.filter P) (m'.filter Q) := by
  induction h with
  | nil => exact .nil
  | cons hab _ ih =>
      rw [List.filter_cons, List.filter_cons, heq _ _ hab]
      split
      · exact .cons hab ih
      · exact ih

theorem Twin.find_none (h : Twin S m m') {id : SessionID} (hnone : m.find id = none) :
    m'.find id = none := by
  rw [find_eq_none] at hnone ⊢
  rwa [← h.keys_eq]

theorem Twin.find_some (h : Twin S m m') {id : SessionID} {p : Player}
    (hsome : m.find id = some p) :
    ∃ q, m'.find id = some q ∧ TwinPlayers S (id, p) (id, q) := by
  induction h with
  | nil => simp [PlayerMap.find] at hsome
  | @cons a b rest rest' hab _ ih =>
      obtain ⟨key, player⟩ := a
      obtain ⟨key', player'⟩ := b
      obtain rfl : key = key' := hab.key
      rw [PlayerMap.find, List.lookup_cons] at hsome
      rw [PlayerMap.find, List.lookup_cons]
      by_cases hkey : id = key
      · subst hkey
        rw [beq_self_eq_true] at hsome ⊢
        rw [Option.some.injEq] at hsome
        exact ⟨player', rfl, hsome ▸ hab⟩
      · rw [beq_false_of_ne hkey] at hsome ⊢
        exact ih hsome

theorem Twin.modify {T : SessionID → Prop} (h : Twin S m m') {id : SessionID} {p q : Player}
    (hpq : TwinPlayers T (id, p) (id, q)) (hmono : ∀ other, other ≠ id → T other → S other) :
    Twin T (m.modify id fun _ => p) (m'.modify id fun _ => q) := by
  refine List.forall₂_map_left_iff.mpr (List.forall₂_map_right_iff.mpr (h.imp fun a b hab => ?_))
  by_cases hkey : a.1 = id
  · rw [if_pos hkey, if_pos (hab.key ▸ hkey), hkey, ← hab.key, hkey]
    exact hpq
  · rw [if_neg hkey, if_neg (hab.key ▸ hkey)]
    exact ⟨hab.key, hab.sessionID, hab.team, hab.contents,
      fun hT => hab.placed (hmono _ hkey hT)⟩

theorem Twin.insert (h : Twin S m m') {id : SessionID} {p q : Player}
    (hpq : TwinPlayers S (id, p) (id, q)) : Twin S (m.insert id p) (m'.insert id q) := by
  unfold PlayerMap.insert
  cases hfind : m.find id with
  | none =>
      rw [h.find_none hfind]
      exact .cons hpq h
  | some old =>
      obtain ⟨old', hfind', _⟩ := h.find_some hfind
      rw [hfind']
      exact h

theorem Twin.erase (h : Twin S m m') (id : SessionID) : Twin S (m.erase id) (m'.erase id) :=
  h.filter fun a b hab => by rw [hab.key]

/-- The first entries that pass tests which answer alike. -/
theorem Twin.find? (h : Twin S m m') {P Q : SessionID × Player → Bool}
    (heq : ∀ a b, TwinPlayers S a b → P a = Q b) :
    (m.find? P = none ∧ m'.find? Q = none) ∨
      ∃ a b, m.find? P = some a ∧ m'.find? Q = some b ∧ TwinPlayers S a b := by
  induction h with
  | nil => exact Or.inl ⟨rfl, rfl⟩
  | @cons a b rest rest' hab _ ih =>
      rw [List.find?_cons, List.find?_cons, ← heq _ _ hab]
      cases P a with
      | true => exact Or.inr ⟨a, b, rfl, rfl, hab⟩
      | false => exact ih

/-- Without anyone placed the maps of any two runs may be compared. -/
theorem Twin.symm (h : Twin (fun _ => False) m m') : Twin (fun _ => False) m' m :=
  List.Forall₂.flip (h.imp fun _ _ hab =>
    ⟨hab.key.symm, hab.sessionID.symm, hab.team.symm, hab.contents.symm, False.elim⟩)

theorem Twin.trans {m'' : PlayerMap} (h : Twin (fun _ => False) m m')
    (h' : Twin (fun _ => False) m' m'') : Twin (fun _ => False) m m'' := by
  induction h generalizing m'' with
  | nil => exact h'
  | cons hab _ ih =>
      cases h' with
      | cons hbc hrest =>
          exact .cons ⟨hab.key.trans hbc.key, hab.sessionID.trans hbc.sessionID,
            hab.team.trans hbc.team, hab.contents.trans hbc.contents, False.elim⟩ (ih hrest)

theorem Twin.arrange (h : Twin S m m') (order : List SessionID) :
    Twin S (m.arrange order) (m'.arrange order) := by
  induction order with
  | nil => exact .nil
  | cons id order ih =>
      simp only [PlayerMap.arrange, List.filterMap_cons]
      cases hfind : m.find id with
      | none =>
          rw [h.find_none hfind]
          exact ih
      | some p =>
          obtain ⟨q, hfind', hpq⟩ := h.find_some hfind
          rw [hfind']
          exact .cons hpq ih

end

/-- Whether an order is one of a map is a matter of its keys. -/
theorem arrange_perm_iff {m : PlayerMap} (hnodup : m.keys.Nodup) (order : List SessionID) :
    (m.arrange order).Perm m ↔ (order.filter (· ∈ m.keys)).Perm m.keys := by
  have hkeys : (m.arrange order).keys = order.filter (· ∈ m.keys) := by
    induction order with
    | nil => rfl
    | cons id order ih =>
        cases hfind : m.find id with
        | none =>
            rw [List.filter_cons_of_neg (by simpa using find_eq_none.mp hfind), ← ih]
            simp only [PlayerMap.arrange, List.filterMap_cons, hfind, Option.map_none]
        | some p =>
            rw [List.filter_cons_of_pos (by simpa using mem_keys_of_find hfind), ← ih]
            simp only [PlayerMap.arrange, List.filterMap_cons, hfind, Option.map_some]
            rfl
  constructor
  · intro hperm
    exact hkeys ▸ hperm.map Prod.fst
  · intro hperm
    have hnodup' : (m.arrange order).keys.Nodup := by
      rw [hkeys]
      exact hperm.nodup_iff.mpr hnodup
    have hsub : m.arrange order ⊆ m := by
      intro entry hmem
      obtain ⟨id, _, hid⟩ := List.mem_filterMap.mp hmem
      obtain ⟨p, hfind, rfl⟩ := Option.map_eq_some_iff.mp hid
      exact mem_of_find hfind
    have hlength : m.length ≤ (m.arrange order).length := by
      have hle := hperm.length_eq
      rw [← hkeys] at hle
      simp only [PlayerMap.keys, List.length_map] at hle
      omega
    exact ((List.Nodup.of_map _ hnodup').subperm hsub).perm_of_length_le hlength

end PlayerMap

/-! ## Handlers by their checks -/

namespace FightContents

/-- What a handler does for a message that passes. -/
def perform (f : FightContents) (sessionID : SessionID) (message : CSMessage) (now : UInt32)
    (player : Player) : FightContents × List Effect :=
  let acted := f.acting sessionID message now player
  let written := message.write now player
  match message with
  | .moveStart dir x y =>
      (acted, [.send (acted.collectOtherSessions sessionID) (.moveStart written.id dir x y)])
  | .moveStop dir x y =>
      (acted, [.send (acted.collectOtherSessions sessionID) (.moveStop written.id dir x y)])
  | .attack type _ _ _ =>
      let attacked := acted.attackPlayer written type
      (attacked.1, [.send (acted.collectOtherSessions sessionID)
        (.attack type written.id written.direction written.x written.y)] ++ attacked.2)
  | .other => (f, [])

section

variable {f : FightContents} {sessionID : SessionID} {message : CSMessage} {now : UInt32}

theorem procMessage_known {player : Player}
    (hfind : f.playerMap.find sessionID = some player) :
    f.procMessage sessionID message now =
      if message.invalid || !message.inSync player then (f, [.disconnect sessionID])
      else if message.isNews player && message.intervalOver player now then
        f.perform sessionID message now player
      else (f, []) := by
  cases message with
  | moveStart dir x y =>
      simp only [procMessage, procCSMoveStart, hfind, CSMessage.invalid, CSMessage.inSync,
        CSMessage.isNews, CSMessage.intervalOver]
      by_cases hdir : isValidMoveDirection dir = true <;>
      by_cases hsync : isPositionSyncValid player x y = true <;>
      by_cases hmove : player.move.toInt = dir.toNat <;>
      by_cases hinterval : canHandleMoveRequest player now = true <;>
      simp [hdir, hsync, hmove, hinterval, perform, acting, written, CSMessage.write]
  | moveStop dir x y =>
      simp only [procMessage, procCSMoveStop, hfind, CSMessage.invalid, CSMessage.inSync,
        CSMessage.isNews, CSMessage.intervalOver]
      by_cases hdir : isValidMoveDirection dir = true <;>
      by_cases hsync : isPositionSyncValid player x y = true <;>
      by_cases hmove : player.move = -1 <;>
      simp [hdir, hsync, hmove, perform, acting, written, CSMessage.write]
  | attack type dir x y =>
      rw [procMessage_attack]
      simp only [procCSAttack, hfind, CSMessage.invalid, CSMessage.inSync, CSMessage.isNews,
        CSMessage.intervalOver]
      by_cases hdir : isValidMoveDirection dir = true <;>
      by_cases hsync : isPositionSyncValid player x y = true <;>
      by_cases hinterval : canHandleAttack player now = true <;>
      simp [hdir, hsync, hinterval, perform, acting, written, CSMessage.write]
  | other => rfl

theorem procMessage_unknown (hfind : f.playerMap.find sessionID = none) :
    f.procMessage sessionID message now =
      (f, if message.invalid then [.disconnect sessionID] else []) := by
  cases message with
  | moveStart dir x y =>
      simp only [procMessage, procCSMoveStart, hfind, CSMessage.invalid]
      by_cases hdir : isValidMoveDirection dir = true <;> simp [hdir]
  | moveStop dir x y =>
      simp only [procMessage, procCSMoveStop, hfind, CSMessage.invalid]
      by_cases hdir : isValidMoveDirection dir = true <;> simp [hdir]
  | attack type dir x y =>
      rw [procMessage_attack]
      simp only [procCSAttack, hfind, CSMessage.invalid]
      by_cases hdir : isValidMoveDirection dir = true <;> simp [hdir]
  | other => rfl

/-- An invalid message is refused whoever sends it. -/
theorem procMessage_invalid (hinvalid : message.invalid = true) :
    f.procMessage sessionID message now = (f, [.disconnect sessionID]) := by
  cases hfind : f.playerMap.find sessionID with
  | none => rw [procMessage_unknown hfind, if_pos hinvalid]
  | some player => rw [procMessage_known hfind, hinvalid, Bool.true_or, if_pos rfl]

theorem passes_eq (message : CSMessage) (player : Player) (now : UInt32) :
    message.passes player now = (message.checks player && message.intervalOver player now) := by
  cases message <;>
    simp [CSMessage.passes, CSMessage.checks, CSMessage.invalid, CSMessage.inSync,
      CSMessage.isNews, CSMessage.intervalOver]

theorem accepted_isSome {player : Player} (hfind : f.playerMap.find sessionID = some player) :
    (f.accepted sessionID message now).isSome =
      (message.checks player && message.intervalOver player now) := by
  rw [accepted, hfind, ← passes_eq]
  cases hpasses : message.passes player now <;> simp [Option.filter, hpasses]

theorem accepted_unknown (hfind : f.playerMap.find sessionID = none) :
    f.accepted sessionID message now = none := by
  rw [accepted, hfind]
  rfl

theorem accepted_invalid (hinvalid : message.invalid = true) :
    f.accepted sessionID message now = none := by
  refine accepted_eq_none.mpr fun player _ => ?_
  rw [passes_eq, CSMessage.checks, hinvalid]
  rfl

end

end FightContents

/-! ## Twin players under the handlers -/

namespace SameButStamps

variable {p q : Player}

theorem write (h : SameButStamps p q) (message : CSMessage) (now : UInt32) :
    SameButStamps (message.write now p) (message.write now q) := by
  obtain ⟨move, attack, rfl⟩ := h
  cases message with
  | moveStart dir x y => exact ⟨now, attack, rfl⟩
  | moveStop dir x y => exact ⟨move, attack, rfl⟩
  | attack type dir x y => exact ⟨move, now, rfl⟩
  | other => exact ⟨move, attack, rfl⟩

theorem damaged (h : SameButStamps p q) (damage : Int) :
    SameButStamps (applyDamage p damage) (applyDamage q damage) := by
  obtain ⟨move, attack, rfl⟩ := h
  exact ⟨move, attack, rfl⟩

theorem moved (h : SameButStamps p q) (frame : Int) :
    SameButStamps (applyMovement p frame) (applyMovement q frame) := by
  obtain ⟨move, attack, rfl⟩ := h
  refine ⟨move, attack, ?_⟩
  unfold applyMovement
  split
  · rfl
  · simp only
    split <;> rfl

theorem inSync_eq (h : SameButStamps p q) (message : CSMessage) :
    message.inSync p = message.inSync q := by
  obtain ⟨move, attack, rfl⟩ := h
  cases message <;> rfl

theorem isNews_eq (h : SameButStamps p q) (message : CSMessage) :
    message.isNews p = message.isNews q := by
  obtain ⟨move, attack, rfl⟩ := h
  cases message <;> rfl

theorem checks_eq (h : SameButStamps p q) (message : CSMessage) :
    message.checks p = message.checks q := by
  rw [CSMessage.checks, CSMessage.checks, h.inSync_eq, h.isNews_eq]

end SameButStamps

/-! ## Twin fights -/

/-- The fights differ in their players only, and these are twins. -/
def TwinFights (S : SessionID → Prop) (f g : FightContents) : Prop :=
  ∃ players, PlayerMap.Twin S f.playerMap players ∧ g = { f with playerMap := players }

/-- The same effects, and twin fights. -/
structure Twinned (S : SessionID → Prop) (out out' : FightContents × List Effect) : Prop where
  effects : out.2 = out'.2
  fights : TwinFights S out.1 out'.1

namespace TwinFights

variable {S : SessionID → Prop} {f g : FightContents}

theorem of_keys {T : SessionID → Prop} (h : TwinFights S f g)
    (hkeys : ∀ id ∈ f.playerMap.keys, T id → S id) : TwinFights T f g := by
  obtain ⟨players, hplayers, rfl⟩ := h
  exact ⟨players, hplayers.of_keys hkeys, rfl⟩

theorem symm (h : TwinFights (fun _ => False) f g) : TwinFights (fun _ => False) g f := by
  obtain ⟨players, hplayers, rfl⟩ := h
  exact ⟨_, hplayers.symm, rfl⟩

theorem trans {k : FightContents} (h : TwinFights (fun _ => False) f g)
    (h' : TwinFights (fun _ => False) g k) : TwinFights (fun _ => False) f k := by
  obtain ⟨players, hplayers, rfl⟩ := h
  obtain ⟨players', hplayers', rfl⟩ := h'
  exact ⟨_, hplayers.trans hplayers', rfl⟩

theorem written {T : SessionID → Prop} (h : TwinFights S f g) {id : SessionID} {p q : Player}
    (hpq : TwinPlayers T (id, p) (id, q)) (hmono : ∀ other, other ≠ id → T other → S other) :
    TwinFights T (f.written id p) (g.written id q) := by
  obtain ⟨players, hplayers, rfl⟩ := h
  exact ⟨_, hplayers.modify hpq hmono, rfl⟩

theorem others_eq (h : TwinFights S f g) (id : SessionID) :
    f.collectOtherSessions id = g.collectOtherSessions id := by
  obtain ⟨players, hplayers, rfl⟩ := h
  have hothers := hplayers.filter fun a b (hab : TwinPlayers S a b) =>
    (by rw [hab.key] : decide (a.1 ≠ id) = decide (b.1 ≠ id))
  exact hothers.map_eq fun a b hab => hab.key

theorem all_eq (h : TwinFights S f g) : f.collectAllSessions = g.collectAllSessions := by
  obtain ⟨players, hplayers, rfl⟩ := h
  exact hplayers.map_eq fun a b hab => hab.key

theorem strike (h : TwinFights (fun _ => True) f g) {p q : Player} (hpq : SameButStamps p q)
    (type : AttackType) {a b : SessionID × Player} (hab : TwinPlayers (fun _ => True) a b) :
    Twinned (fun _ => True) (f.strike p type a) (g.strike q type b) := by
  obtain ⟨key, target⟩ := a
  obtain ⟨key', target'⟩ := b
  obtain rfl : key = key' := hab.key
  have hdamaged := (hab.placed trivial).damaged type.getAttackDamage
  have hfights := h.written (hdamaged.twin (fun _ => True) key) fun _ _ _ => trivial
  refine ⟨?_, hfights⟩
  simp only [FightContents.strike, hfights.all_eq]
  obtain ⟨move, attack, heq⟩ := hdamaged
  obtain ⟨move', attack', rfl⟩ := hpq
  rw [heq]

theorem attackPlayer (h : TwinFights (fun _ => True) f g) {p q : Player}
    (hpq : SameButStamps p q) (type : AttackType) :
    Twinned (fun _ => True) (f.attackPlayer p type) (g.attackPlayer q type) := by
  have hfind : (f.enemyInRange p type = none ∧ g.enemyInRange q type = none) ∨
      ∃ a b, f.enemyInRange p type = some a ∧ g.enemyInRange q type = some b ∧
        TwinPlayers (fun _ => True) a b := by
    obtain ⟨players, hplayers, rfl⟩ := h
    obtain ⟨move, attack, rfl⟩ := hpq
    refine hplayers.find? fun a b hab => ?_
    obtain ⟨move', attack', heq⟩ := hab.placed trivial
    rw [heq]
    rfl
  rw [attackPlayer_eq, attackPlayer_eq]
  rcases hfind with ⟨hnone, hnone'⟩ | ⟨a, b, ha, hb, hab⟩
  · rw [hnone, hnone']
    exact ⟨rfl, h⟩
  · rw [ha, hb]
    exact h.strike hpq type hab

/-- A message that passes in both runs does the same in both. -/
theorem perform (h : TwinFights (fun _ => True) f g) {p q : Player} (hpq : SameButStamps p q)
    (id : SessionID) (message : CSMessage) (now : UInt32) :
    Twinned (fun _ => True) (f.perform id message now p) (g.perform id message now q) := by
  have hwrite := hpq.write message now
  have hacting : TwinFights (fun _ => True) (f.acting id message now p)
      (g.acting id message now q) := h.written (hwrite.twin _ id) fun _ _ _ => trivial
  have hothers := hacting.others_eq id
  have hid : (message.write now p).id = (message.write now q).id := by
    obtain ⟨move, attack, heq⟩ := hwrite
    rw [heq]
  cases message with
  | moveStart dir x y => exact ⟨by simp only [FightContents.perform, hothers, hid], hacting⟩
  | moveStop dir x y => exact ⟨by simp only [FightContents.perform, hothers, hid], hacting⟩
  | attack type dir x y =>
      obtain ⟨heffects, hfights⟩ := hacting.attackPlayer hwrite type
      refine ⟨?_, hfights⟩
      simp only [FightContents.perform, hothers, heffects, hid]
      obtain ⟨move, attack, heq⟩ := hwrite
      rw [heq]
  | other => exact ⟨rfl, h⟩

end TwinFights

/-! ## Leaving and updating -/

theorem checkGameEnd_players (f : FightContents) (players : PlayerMap) :
    ({ f with playerMap := players } : FightContents).checkGameEnd =
      ({ f.checkGameEnd.1 with playerMap := players }, f.checkGameEnd.2) := by
  unfold FightContents.checkGameEnd
  simp only
  split
  · rfl
  · split <;> rfl

theorem removePlayer_snd (f : FightContents) (id : SessionID) (player : Player) :
    (f.removePlayer id player).2 =
      [.send ((f.playerMap.filter fun entry => player.sessionID ≠ entry.2.sessionID).map
        fun entry => entry.2.sessionID) (.delete player.id)] := by
  unfold removePlayer
  cases player.team <;> rfl

namespace TwinFights

variable {S : SessionID → Prop} {f g : FightContents}

theorem slots (h : TwinFights S f g) : g.red = f.red ∧ g.blue = f.blue := by
  obtain ⟨players, _, rfl⟩ := h
  exact ⟨rfl, rfl⟩

/-- The end test answers alike. -/
theorem checked (h : TwinFights S f g) :
    TwinFights S f.checkGameEnd.1 g.checkGameEnd.1 ∧
      (f.checkGameEnd.2 && f.checkGameEnd.1.end_) =
        (g.checkGameEnd.2 && g.checkGameEnd.1.end_) := by
  obtain ⟨players, hplayers, rfl⟩ := h
  obtain ⟨winLoss, hfst⟩ := f.checkGameEnd_fst
  have hplayers' : PlayerMap.Twin S f.checkGameEnd.1.playerMap players := by
    rw [hfst]
    exact hplayers
  rw [checkGameEnd_players f players]
  exact ⟨⟨players, hplayers', rfl⟩, rfl⟩

theorem finish (h : TwinFights S f g) :
    Twinned S f.finishFightAndRelease g.finishFightAndRelease := by
  obtain ⟨players, hplayers, rfl⟩ := h
  refine ⟨?_, players, hplayers, rfl⟩
  have hall : f.playerMap.map (fun entry => Effect.disconnect entry.2.sessionID) =
      players.map fun entry => Effect.disconnect entry.2.sessionID :=
    hplayers.map_eq fun a b hab => by rw [hab.sessionID]
  simp only [finishFightAndRelease, disconnectRemainingPlayers, hall]
  rfl

/-- What the leave of a player shows is its ID. -/
theorem removePlayer (h : TwinFights S f g) {id : SessionID} {p q : Player}
    (hpq : TwinPlayers S (id, p) (id, q)) :
    TwinFights S (f.removePlayer id p).1 (g.removePlayer id q).1 ∧
      ∃ others, (f.removePlayer id p).2 = [.send others (.delete p.id)] ∧
        (g.removePlayer id q).2 = [.send others (.delete q.id)] := by
  obtain ⟨players, hplayers, rfl⟩ := h
  have hsession : p.sessionID = q.sessionID := hpq.sessionID
  have hteam : p.team = q.team := hpq.team
  have hothers := hplayers.filter fun a b (hab : TwinPlayers S a b) =>
    (by rw [hsession, hab.sessionID] :
      decide (p.sessionID ≠ a.2.sessionID) = decide (q.sessionID ≠ b.2.sessionID))
  constructor
  · rw [removePlayer_fst, removePlayer_fst, hteam]
    exact ⟨_, hplayers.erase id, rfl⟩
  · refine ⟨_, removePlayer_snd f id p, ?_⟩
    rw [removePlayer_snd, hothers.map_eq fun a b hab => hab.sessionID]

theorem leave (h : TwinFights S f g) (id : SessionID) :
    TwinFights S (f.onLeave id).1 (g.onLeave id).1 ∧
      ((f.onLeave id).2 = (g.onLeave id).2 ↔
        ∀ p ∈ f.playerMap.find id, ∀ q ∈ g.playerMap.find id, p.id = q.id) := by
  have hfights := h
  obtain ⟨players, hplayers, hrest⟩ := h
  have hmap : g.playerMap = players := by rw [hrest]
  unfold onLeave
  cases hfind : f.playerMap.find id with
  | none =>
      rw [hmap, hplayers.find_none hfind]
      exact ⟨hfights, by simp⟩
  | some p =>
      obtain ⟨q, hfind', hpq⟩ := hplayers.find_some hfind
      rw [hmap, hfind']
      obtain ⟨hremoved, others, hleft, hright⟩ := hfights.removePlayer hpq
      obtain ⟨hchecked, hguard⟩ := hremoved.checked
      have hfinish := hchecked.finish
      simp only [← hguard, hleft, hright, Option.mem_some_iff, forall_eq']
      split
      · refine ⟨hfinish.fights, ?_⟩
        rw [← hfinish.effects, List.append_left_inj]
        simp
      · exact ⟨hchecked, by simp⟩

theorem update (h : TwinFights S f g) (now : UInt32) :
    TwinFights S (f.onUpdate now) (g.onUpdate now) := by
  obtain ⟨players, hplayers, rfl⟩ := h
  refine ⟨_, ?_, rfl⟩
  refine List.forall₂_map_left_iff.mpr (List.forall₂_map_right_iff.mpr ?_)
  refine hplayers.imp fun a b hab => ?_
  generalize (((now - f.oldTick) / 20).toNat : Int) = frame
  -- Whether it moves or not, an update writes nothing but the position.
  have htick : ∀ entry : SessionID × Player, ∃ x y,
      (if entry.2.move ≠ -1 then (entry.1, applyMovement entry.2 frame) else entry) =
        (entry.1, { entry.2 with x := x, y := y }) := by
    intro entry
    split
    · obtain ⟨x, y, hframe⟩ := applyMovement_frame entry.2 frame
      exact ⟨x, y, by rw [hframe]⟩
    · exact ⟨entry.2.x, entry.2.y, rfl⟩
  have hplaced : S a.1 →
      SameButStamps (if a.2.move ≠ -1 then (a.1, applyMovement a.2 frame) else a).2
        (if b.2.move ≠ -1 then (b.1, applyMovement b.2 frame) else b).2 := by
    intro hS
    have hsame := hab.placed hS
    have hmove : b.2.move = a.2.move := by
      obtain ⟨move, attack, heq⟩ := hsame
      rw [heq]
    rw [hmove]
    split
    · exact hsame.moved frame
    · exact hsame
  obtain ⟨x, y, ha⟩ := htick a
  obtain ⟨x', y', hb⟩ := htick b
  rw [ha, hb] at hplaced ⊢
  exact ⟨hab.key, hab.sessionID, hab.team, hab.contents, hplaced⟩

/-! ## Entering and starting -/

theorem countEnter (h : TwinFights S f g) {p q : Player} (hsession : p.sessionID = q.sessionID)
    (hteam : p.team = q.team) (id : SessionID) (found moved : Bool) :
    TwinFights (fun _ => False) (f.countEnter id (if found then some p else none) moved)
      (g.countEnter id (if found then some q else none) moved) := by
  obtain ⟨players, hplayers, rfl⟩ := h.of_keys (T := fun _ => False) fun _ _ => False.elim
  unfold FightContents.countEnter
  cases found with
  | false => exact ⟨players, hplayers, rfl⟩
  | true =>
      cases moved with
      | false => exact ⟨players, hplayers, rfl⟩
      | true =>
          have hinsert : PlayerMap.Twin (fun _ => False)
              (f.playerMap.insert id { p with contents := f.contentsNum })
              (players.insert id { q with contents := f.contentsNum }) :=
            hplayers.insert ⟨rfl, hsession, hteam, rfl, False.elim⟩
          simp only [if_true, enterPlayer_eq]
          exact ⟨_, hinsert, by simp only [hteam]⟩

theorem placePlayer (h : TwinFights S f g) (id : SessionID) (n : Nat) (x : Int) (slot : Nat)
    (direction : UInt8) :
    Twinned (fun other => other = id ∨ S other) (f.placePlayer id n x slot direction)
      (g.placePlayer id n x slot direction) := by
  obtain ⟨players, hplayers, rfl⟩ := h
  cases hfind : f.playerMap.find id with
  | none =>
      simp only [FightContents.placePlayer, hfind, hplayers.find_none hfind]
      refine ⟨rfl, players, hplayers.of_keys fun other hother hS => ?_, rfl⟩
      exact hS.resolve_left fun heq => PlayerMap.find_eq_none.mp hfind (heq ▸ hother)
  | some p =>
      obtain ⟨q, hfind', hpq⟩ := hplayers.find_some hfind
      have hsame : SameButStamps (startPlayer n x slot direction p)
          (startPlayer n x slot direction q) := by
        obtain ⟨_, hsession, hteam, hcontents, _⟩ := hpq
        refine ⟨q.lastMoveRequestAt, q.lastAttackRequestAt, ?_⟩
        simp only at hsession hteam hcontents
        simp only [startPlayer, hsession, hteam, hcontents]
      have hmodify := hplayers.modify (hsame.twin (fun other => other = id ∨ S other) id)
        fun other hne hS => hS.resolve_left hne
      have hsession : p.sessionID = q.sessionID := hpq.sessionID
      simp only [FightContents.placePlayer, hfind, hfind', hsession]
      refine ⟨rfl, _, ?_, rfl⟩
      have hstart : (startPlayer n x slot direction p).sessionID = q.sessionID := hsession
      simp only [startPlayer, hsession] at hmodify
      exact hmodify

/-- The sessions of the slots placed so far. -/
theorem placeSlot {acc acc' : FightContents × List Effect} {slots : List (Fin 3)}
    (hslots : acc.1.red = f.red ∧ acc.1.blue = f.blue)
    (h : Twinned (fun id => id ∈ f.slotSessions slots) acc acc') (i : Fin 3) :
    Twinned (fun id => id ∈ f.slotSessions (i :: slots)) (placeSlot acc i) (placeSlot acc' i) := by
  simp only [FightContents.placeSlot]
  have hred := h.fights.placePlayer (acc.1.red i) i REDX i dfPACKET_MOVE_DIR_RR
  have hkept := acc.1.placePlayer_slots (acc.1.red i) i REDX i dfPACKET_MOVE_DIR_RR
  rw [h.fights.slots.1, h.effects]
  generalize acc.1.placePlayer (acc.1.red i) i REDX i dfPACKET_MOVE_DIR_RR = r at hred hkept
  generalize acc'.1.placePlayer (acc.1.red i) i REDX i dfPACKET_MOVE_DIR_RR = r' at hred
  have hblue := hred.fights.placePlayer (r.1.blue i) (i + 3) BLUEX i dfPACKET_MOVE_DIR_LL
  rw [hred.fights.slots.2, hred.effects]
  refine ⟨by rw [hblue.effects], hblue.fights.of_keys fun id _ hid => ?_⟩
  rw [hkept.2, hslots.1, hslots.2]
  simpa only [slotSessions, List.flatMap_cons, List.mem_append, List.mem_cons, List.not_mem_nil,
    or_false, or_assoc] using hid

theorem announce_eq (h : TwinFights (fun _ => True) f g) :
    f.announcePlayers = g.announcePlayers := by
  obtain ⟨players, hplayers, rfl⟩ := h
  refine hplayers.map_eq fun a b hab => ?_
  have hothers := hplayers.filter fun c d (hcd : TwinPlayers (fun _ => True) c d) =>
    (by rw [hab.sessionID, hcd.sessionID] :
      decide (c.2.sessionID ≠ a.2.sessionID) = decide (d.2.sessionID ≠ b.2.sessionID))
  refine congrArg₂ Effect.send (hothers.map_eq fun c d hcd => hcd.sessionID) ?_
  obtain ⟨move, attack, hsame⟩ := hab.placed trivial
  rw [hsame]

/-- The placing loop overwrites everything but the time stamps. -/
theorem startFight (h : TwinFights S f g)
    (hkeys : ∀ id ∈ f.playerMap.keys, id ∈ f.slotSessions [2, 1, 0]) :
    Twinned (fun _ => True) f.startFight g.startFight := by
  have hnone : Twinned (fun id => id ∈ f.slotSessions []) (f, []) (g, []) :=
    ⟨rfl, h.of_keys fun id _ hid => by simp [slotSessions] at hid⟩
  have hslots₀ := placeSlot_slots (f, []) 0
  have hslots₁ := placeSlot_slots (FightContents.placeSlot (f, []) 0) 1
  have h₀ := placeSlot (f := f) ⟨rfl, rfl⟩ hnone 0
  have h₁ := placeSlot (f := f) hslots₀ h₀ 1
  have h₂ := placeSlot (f := f)
    ⟨hslots₁.1.trans hslots₀.1, hslots₁.2.trans hslots₀.2⟩ h₁ 2
  have hplaced : Twinned (fun _ => True) ([0, 1, 2].foldl FightContents.placeSlot (f, []))
      ([0, 1, 2].foldl FightContents.placeSlot (g, [])) := by
    refine ⟨h₂.effects, h₂.fights.of_keys fun id hid _ => hkeys id ?_⟩
    obtain ⟨players, _, _, hkept, hstart⟩ := f.startFight_quiet.state
    have hplayers : ([0, 1, 2].foldl FightContents.placeSlot (f, [])).1.playerMap = players :=
      congrArg playerMap hstart
    exact hkept.keys.mem_iff.mp (hplayers ▸ hid)
  refine ⟨?_, hplaced.fights⟩
  simp only [FightContents.startFight, hplaced.effects, hplaced.fights.announce_eq]

/-- An enter event tells nothing of its players, and may place them. -/
theorem enter (h : TwinFights S f g) {p q : Player} (hsession : p.sessionID = q.sessionID)
    (hteam : p.team = q.team) (id : SessionID) (found moved : Bool)
    (hkeys : ∀ key ∈ (f.countEnter id (if found then some p else none) moved).playerMap.keys,
      key ∈ f.slotSessions [2, 1, 0]) :
    Twinned (fun _ => Places f (.enter id (if found then some p else none) moved) = true)
      (f.onEnter id (if found then some p else none) moved)
      (g.onEnter id (if found then some q else none) moved) := by
  have hcounted := h.countEnter hsession hteam id found moved
  have hslots : (f.countEnter id (if found then some p else none) moved).slotSessions [2, 1, 0] =
      f.slotSessions [2, 1, 0] := by
    obtain ⟨players, red, blue, hframe⟩ :=
      f.countEnter_frame id (if found then some p else none) moved
    rw [hframe]
    rfl
  rw [← hslots] at hkeys
  simp only [Places, onEnter]
  generalize f.countEnter id (if found then some p else none) moved = left at *
  generalize g.countEnter id (if found then some q else none) moved = right at *
  have hmatched : left.matched = right.matched := by
    obtain ⟨players, _, rfl⟩ := hcounted
    rfl
  obtain ⟨hchecked, hguard⟩ := hcounted.checked
  rw [← hguard, ← hmatched]
  by_cases hsix : left.matched ≥ 6
  · rw [if_pos hsix, if_pos hsix]
    cases hend : left.checkGameEnd.2 && left.checkGameEnd.1.end_ with
    | true =>
        have hfinish := hchecked.finish
        exact ⟨hfinish.effects, hfinish.fights.of_keys fun _ _ hplaces => by simp at hplaces⟩
    | false =>
        obtain ⟨winLoss, hfst⟩ := left.checkGameEnd_fst
        have hstarted := hchecked.startFight (by rw [hfst]; exact hkeys)
        exact ⟨hstarted.effects, hstarted.fights.of_keys fun _ _ _ => trivial⟩
  · rw [if_neg hsix, if_neg hsix]
    exact ⟨rfl, hcounted.of_keys fun _ _ hplaces => by simp [hsix] at hplaces⟩

end TwinFights

/-! ## What a message shows -/

/-- What the others are told of a message that passes. -/
def CSMessage.packet (message : CSMessage) (id : UInt32) : Option SCMessage :=
  match message with
  | .moveStart dir x y => some (.moveStart id dir x y)
  | .moveStop dir x y => some (.moveStop id dir x y)
  | .attack type dir x y => some (.attack type id dir x y)
  | .other => none

/-- What an attack shows of the player it strikes. -/
def strikeEffects (sessions : List SessionID) (id : UInt32) :
    Option (Option SessionID × UInt32 × Int8) → List Effect
  | none => []
  | some (kicked, target, hp) =>
      (kicked.map Effect.disconnect).toList ++ [.send sessions (.damage id target hp.toUInt8)]

theorem strikeEffects_injective (sessions : List SessionID) (id : UInt32) :
    Function.Injective (strikeEffects sessions id) := by
  intro struck struck' h
  cases struck with
  | none =>
      cases struck' with
      | none => rfl
      | some found => simp [strikeEffects] at h
  | some found =>
      cases struck' with
      | none => simp [strikeEffects] at h
      | some found' =>
          obtain ⟨kicked, target, hp⟩ := found
          obtain ⟨kicked', target', hp'⟩ := found'
          simp only [strikeEffects] at h
          obtain ⟨hkick, hdamage⟩ := List.append_inj' h rfl
          simp only [List.cons.injEq, Effect.send.injEq, SCMessage.damage.injEq, true_and,
            and_true] at hdamage
          obtain ⟨rfl, hhp⟩ := hdamage
          obtain rfl : hp = hp' := congrArg UInt8.toInt8 hhp
          cases kicked <;> cases kicked' <;> simp_all

namespace FightContents

variable {f : FightContents} {sessionID : SessionID} {message : CSMessage} {now : UInt32}
  {player : Player}

theorem collectOtherSessions_written (f : FightContents) (id other : SessionID) (player : Player) :
    (f.written id player).collectOtherSessions other = f.collectOtherSessions other := by
  have hkeys : ∀ m : PlayerMap, (m.filter fun entry => decide (entry.1 ≠ other)).map
      (fun entry => entry.1) = m.keys.filter fun key => decide (key ≠ other) := by
    intro m
    rw [PlayerMap.keys, List.filter_map]
    rfl
  simp only [collectOtherSessions, hkeys, written, PlayerMap.keys_modify]

theorem collectAllSessions_written (f : FightContents) (id : SessionID) (player : Player) :
    (f.written id player).collectAllSessions = f.collectAllSessions :=
  f.playerMap.keys_modify id fun _ => player

theorem perform_snd (haccepted : f.accepted sessionID message now = some player) :
    (f.perform sessionID message now player).2 =
      (message.packet player.id).toList.map (.send (f.collectOtherSessions sessionID)) ++
        strikeEffects f.collectAllSessions player.id (f.struck sessionID message now) := by
  cases message with
  | moveStart dir x y =>
      simp [perform, acting, collectOtherSessions_written, CSMessage.packet, struck, hit,
        CSMessage.attackType, strikeEffects, CSMessage.write]
  | moveStop dir x y =>
      simp [perform, acting, collectOtherSessions_written, CSMessage.packet, struck, hit,
        CSMessage.attackType, strikeEffects, CSMessage.write]
  | attack type dir x y =>
      have hstruck : f.struck sessionID (.attack type dir x y) now =
          (((f.acting sessionID (.attack type dir x y) now player).enemyInRange
            ((CSMessage.attack type dir x y).write now player) type).map
              fun entry => (type, entry)).map fun found =>
                let target := applyDamage found.2.2 found.1.getAttackDamage
                (if target.hp ≤ 0 then some target.sessionID else none, target.id, target.hp) := by
        simp only [struck, hit, haccepted, CSMessage.attackType, acting]
      simp only [perform, attackPlayer_eq, hstruck]
      cases (f.acting sessionID (.attack type dir x y) now player).enemyInRange
          ((CSMessage.attack type dir x y).write now player) type with
      | none =>
          simp [acting, collectOtherSessions_written, CSMessage.packet, strikeEffects,
            CSMessage.write]
      | some entry =>
          simp only [Option.map_some, strikeEffects, strike, collectAllSessions_written, acting,
            collectOtherSessions_written, CSMessage.packet, CSMessage.write]
          split <;> rfl
  | other =>
      obtain ⟨_, hpasses⟩ := accepted_eq_some.mp haccepted
      simp [CSMessage.passes] at hpasses

theorem inSync_of_passes (hpasses : message.passes player now = true) :
    message.inSync player = true := by
  rw [passes_eq, CSMessage.checks] at hpasses
  simp only [Bool.and_eq_true] at hpasses
  exact hpasses.1.1.2

theorem procMessage_snd (hinvalid : message.invalid = false)
    (hfind : f.playerMap.find sessionID = some player) :
    (f.procMessage sessionID message now).2 =
      if message.passes player now then (f.perform sessionID message now player).2
      else if message.inSync player then []
      else [.disconnect sessionID] := by
  rw [procMessage_known hfind, passes_eq, CSMessage.checks, hinvalid]
  cases hsync : message.inSync player with
  | false => rfl
  | true => cases message.isNews player <;> cases message.intervalOver player now <;> rfl

/-- What is assigned to the players is not written by a message. -/
theorem written_assigned (hnodup : f.playerMap.keys.Nodup) {id : SessionID} {p q : Player}
    (hmem : (id, p) ∈ f.playerMap) (hpq : TwinPlayers (fun _ => False) (id, p) (id, q)) :
    TwinFights (fun _ => False) f (f.written id q) := by
  refine ⟨_, List.forall₂_map_right_iff.mpr (List.forall₂_same.mpr fun entry hentry => ?_), rfl⟩
  split
  · rename_i hkey
    rw [PlayerMap.eq_of_key hnodup hentry hmem hkey]
    exact hpq
  · exact ⟨rfl, rfl, rfl, rfl, False.elim⟩

theorem procMessage_assigned (hnodup : f.playerMap.keys.Nodup) (sessionID : SessionID)
    (message : CSMessage) (now : UInt32) :
    TwinFights (fun _ => False) f (f.procMessage sessionID message now).1 := by
  have hacting : ∀ player, f.accepted sessionID message now = some player →
      TwinFights (fun _ => False) f (f.acting sessionID message now player) := by
    intro player haccepted
    have hmem := PlayerMap.mem_of_find (accepted_eq_some.mp haccepted).1
    refine written_assigned hnodup hmem ⟨rfl, ?_, (write_team ..).symm, ?_, False.elim⟩
    all_goals cases message <;> rfl
  have hmessaged := f.procMessage_messaged sessionID message now
  generalize f.procMessage sessionID message now = out at hmessaged
  cases hmessaged with
  | refused effects hnone heffects =>
      exact ⟨_, List.forall₂_same.mpr fun entry _ => ⟨rfl, rfl, rfl, rfl, False.elim⟩, rfl⟩
  | acted player packet hpacket haccepted hnone => exact hacting player haccepted
  | struck player packet hpacket type entry haccepted hhit =>
      obtain ⟨_, _, _, hmem, hne, _⟩ := hit_spec hhit
      have hnodup' : (f.acting sessionID message now player).playerMap.keys.Nodup := by
        simp only [acting, written, PlayerMap.keys_modify]
        exact hnodup
      have hstill : entry ∈ (f.acting sessionID message now player).playerMap :=
        PlayerMap.mem_modify.mpr (Or.inl ⟨hmem, hne⟩)
      exact (hacting player haccepted).trans
        (written_assigned hnodup' hstill ⟨rfl, rfl, rfl, rfl, False.elim⟩)

end FightContents

namespace TwinFights

variable {S : SessionID → Prop} {f g : FightContents} {id : SessionID} {message : CSMessage}
  {now : UInt32}

theorem find_iff (h : TwinFights S f g) (id : SessionID) :
    (f.playerMap.find id = none ∧ g.playerMap.find id = none) ∨
      ∃ p q, f.playerMap.find id = some p ∧ g.playerMap.find id = some q ∧
        TwinPlayers S (id, p) (id, q) := by
  obtain ⟨players, hplayers, rfl⟩ := h
  cases hfind : f.playerMap.find id with
  | none => exact Or.inl ⟨rfl, hplayers.find_none hfind⟩
  | some p =>
      obtain ⟨q, hfind', hpq⟩ := hplayers.find_some hfind
      exact Or.inr ⟨p, q, rfl, hfind', hpq⟩

theorem perform_snd_iff (h : TwinFights S f g) {p q : Player}
    (hp : f.accepted id message now = some p) (hq : g.accepted id message now = some q) :
    (f.perform id message now p).2 = (g.perform id message now q).2 ↔
      p.id = q.id ∧ f.struck id message now = g.struck id message now := by
  rw [perform_snd hp, perform_snd hq, h.others_eq, h.all_eq]
  constructor
  · intro heq
    obtain ⟨hpacket, hstruck⟩ := List.append_inj heq (by cases message <;> rfl)
    have hid : p.id = q.id := by
      cases message with
      | other =>
          obtain ⟨_, hpasses⟩ := accepted_eq_some.mp hp
          simp [CSMessage.passes] at hpasses
      | _ => simpa [CSMessage.packet] using hpacket
    rw [hid] at hstruck
    exact ⟨hid, strikeEffects_injective _ _ hstruck⟩
  · rintro ⟨hid, hstruck⟩
    rw [hid, hstruck]

/-- A message does the same in both runs exactly where what it reads is alike. -/
theorem message_iff (h : TwinFights S f g) :
    ((f.procMessage id message now).2 = (g.procMessage id message now).2 ∧
        (f.accepted id message now).isSome = (g.accepted id message now).isSome) ↔
      message.invalid = true ∨
        ∀ p ∈ f.playerMap.find id, ∀ q ∈ g.playerMap.find id,
          message.inSync p = message.inSync q ∧ message.passes p now = message.passes q now ∧
            (message.passes p now = true → p.id = q.id ∧
              f.struck id message now = g.struck id message now) := by
  cases hinvalid : message.invalid with
  | true =>
      simp [procMessage_invalid hinvalid, accepted_invalid hinvalid]
  | false =>
      rcases h.find_iff id with ⟨hnone, hnone'⟩ | ⟨p, q, hp, hq, hpq⟩
      · simp [procMessage_unknown hnone, procMessage_unknown hnone', accepted_unknown hnone,
          accepted_unknown hnone', hnone]
      · rw [procMessage_snd hinvalid hp, procMessage_snd hinvalid hq, accepted_isSome hp,
          accepted_isSome hq, ← passes_eq, ← passes_eq, hp, hq]
        simp only [Option.mem_some_iff, forall_eq', Bool.false_eq_true, false_or]
        cases hleft : message.passes p now with
        | false =>
            cases hright : message.passes q now with
            | false => cases message.inSync p <;> cases message.inSync q <;> simp
            | true => simp
        | true =>
            cases hright : message.passes q now with
            | false => simp
            | true =>
                have hiff := h.perform_snd_iff (accepted_eq_some.mpr ⟨hp, hleft⟩)
                  (accepted_eq_some.mpr ⟨hq, hright⟩)
                simp [inSync_of_passes hleft, inSync_of_passes hright, hiff]

/-- Before the players are placed, a message keeps what is assigned to them. -/
theorem message_assigned (h : TwinFights S f g) (hnodup : f.playerMap.keys.Nodup)
    (id : SessionID) (message : CSMessage) (now : UInt32) :
    TwinFights (fun _ => False) (f.procMessage id message now).1
      (g.procMessage id message now).1 := by
  have hassigned := h.of_keys (T := fun _ => False) fun _ _ => False.elim
  have hnodup' : g.playerMap.keys.Nodup := by
    obtain ⟨players, hplayers, rfl⟩ := h
    exact hplayers.keys_eq ▸ hnodup
  exact ((procMessage_assigned hnodup id message now).symm.trans hassigned).trans
    (procMessage_assigned hnodup' id message now)

/-- Placed players are told apart by a message exactly where it depends on a time stamp. -/
theorem message_placed (h : TwinFights (fun _ => True) f g) (id : SessionID)
    (message : CSMessage) (now : UInt32) :
    (((f.procMessage id message now).2 = (g.procMessage id message now).2 ∧
        (f.accepted id message now).isSome = (g.accepted id message now).isSome) ↔
      ∀ p ∈ f.playerMap.find id, ∀ q ∈ g.playerMap.find id,
        message.checks p = true → message.intervalOver p now = message.intervalOver q now) ∧
      ((∀ p ∈ f.playerMap.find id, ∀ q ∈ g.playerMap.find id,
        message.checks p = true → message.intervalOver p now = message.intervalOver q now) →
        TwinFights (fun _ => True) (f.procMessage id message now).1
          (g.procMessage id message now).1) := by
  rcases h.find_iff id with ⟨hnone, hnone'⟩ | ⟨p, q, hp, hq, hpq⟩
  · simp only [procMessage_unknown hnone, procMessage_unknown hnone', accepted_unknown hnone,
      accepted_unknown hnone', hnone]
    exact ⟨by simp, fun _ => h⟩
  · have hsame := hpq.placed trivial
    have hdone : (message.checks p = true →
        message.intervalOver p now = message.intervalOver q now) →
        Twinned (fun _ => True) (f.procMessage id message now) (g.procMessage id message now) := by
      intro hagree
      rw [procMessage_known hp, procMessage_known hq, ← hsame.inSync_eq, ← hsame.isNews_eq]
      split
      · exact ⟨rfl, h⟩
      · rename_i hvalid
        cases hnews : message.isNews p with
        | false => exact ⟨rfl, h⟩
        | true =>
            have hchecks : message.checks p = true := by
              simpa [CSMessage.checks, hnews] using hvalid
            rw [← hagree hchecks]
            split
            · exact h.perform hsame id message now
            · exact ⟨rfl, h⟩
    simp only [hp, hq, Option.mem_some_iff, forall_eq', accepted_isSome hp, accepted_isSome hq,
      ← hsame.checks_eq]
    refine ⟨⟨?_, ?_⟩, fun hagree => (hdone hagree).fights⟩
    · rintro ⟨_, haccepted⟩ hchecks
      simpa [hchecks] using haccepted
    · intro hagree
      refine ⟨(hdone hagree).effects, ?_⟩
      cases hchecks : message.checks p with
      | false => rfl
      | true => rw [hagree hchecks]

theorem rehash (h : TwinFights S f g) (hnodup : f.playerMap.keys.Nodup)
    (order : List SessionID) :
    TwinFights S (fightStep f (.rehash (f.playerMap.arrange order))).1
      (fightStep g (.rehash (g.playerMap.arrange order))).1 := by
  obtain ⟨players, hplayers, rfl⟩ := h
  have hperm : (f.playerMap.arrange order).isPerm f.playerMap =
      (players.arrange order).isPerm players := by
    rw [Bool.eq_iff_iff, List.isPerm_iff, List.isPerm_iff, PlayerMap.arrange_perm_iff hnodup,
      PlayerMap.arrange_perm_iff (hplayers.keys_eq ▸ hnodup), hplayers.keys_eq]
  simp only [fightStep, hperm]
  split
  · exact ⟨_, hplayers.arrange order, rfl⟩
  · exact ⟨_, hplayers, rfl⟩

end TwinFights

/-! ## Two runs compared -/

namespace Twins

/-- The fights are twins, placed ones once the players are, and every player in the map is
one of the match. -/
structure Inv (t : Twins) : Prop where
  fights : TwinFights (fun _ => t.placed = true) t.left t.right
  nodup : t.left.playerMap.keys.Nodup
  slots : ∀ id ∈ t.left.playerMap.keys, id ∈ t.left.slotSessions [2, 1, 0]

variable {pool pool' : SessionID → Player} {t : Twins}

theorem Inv.next (h : t.Inv) (input : FightInput)
    (hfights : TwinFights (fun _ => (t.next pool pool' input).placed = true)
      (t.outLeft pool input).1 (t.outRight pool' input).1) :
    (t.next pool pool' input).Inv where
  fights := hfights
  nodup := fightStep_keys_nodup h.nodup _
  slots := by
    intro id hid
    obtain ⟨_, _, hred, hblue⟩ := t.left.fightStep_init (input.event pool t.left)
    have hslots : (t.next pool pool' input).left.slotSessions [2, 1, 0] =
        t.left.slotSessions [2, 1, 0] := by
      simp only [slotSessions, Twins.next, outLeft, hred, hblue]
    rw [hslots]
    rcases fightStep_keys hid with hold | hentering
    · exact h.slots id hold
    · cases input with
      | enter team slot found moved =>
          rw [← Option.some.inj hentering]
          exact t.left.slotSession_mem team slot
      | _ => simp [FightInput.event, FightEvent.entering] at hentering

/-- **One input.**  It does the same in both runs exactly where nothing of the earlier
clients is seen, and then the runs stay twins. -/
theorem Inv.step (h : t.Inv) (input : FightInput) :
    (t.SameOutput pool pool' input ↔ t.Alike input) ∧
      (t.Alike input → (t.next pool pool' input).Inv) := by
  cases input with
  | enter team slot found moved =>
      have hslot : t.right.slotSession team slot = t.left.slotSession team slot := by
        cases team <;> simp only [slotSession, h.fights.slots]
      have hright : FightInput.event pool' t.right (.enter team slot found moved) =
          .enter (t.left.slotSession team slot)
            (if found then some (t.left.slotPlayer pool' team slot) else none) moved := by
        simp only [FightInput.event, slotPlayer, hslot]
      have hkeys : ∀ p key, key ∈ (t.left.countEnter (t.left.slotSession team slot)
          (if found then some p else none) moved).playerMap.keys →
            key ∈ t.left.slotSessions [2, 1, 0] := fun _ key hkey =>
        (countEnter_keys hkey).elim (h.slots key) fun heq =>
          heq ▸ t.left.slotSession_mem team slot
      have htwinned := h.fights.enter (p := t.left.slotPlayer pool team slot)
        (q := t.left.slotPlayer pool' team slot) rfl rfl (t.left.slotSession team slot) found moved
        (hkeys _)
      refine ⟨⟨fun _ => ?_, fun _ => ⟨?_, rfl⟩⟩, fun _ => h.next _ ?_⟩
      · unfold Alike
        split <;> trivial
      · rw [outLeft, outRight, hright]
        exact htwinned.effects
      · rw [outLeft, outRight, hright]
        exact htwinned.fights
  | leave sessionID =>
      obtain ⟨hfights, heffects⟩ := h.fights.leave sessionID
      have hsame : t.SameOutput pool pool' (.leave sessionID) ↔
          ∀ p ∈ t.left.playerMap.find sessionID, ∀ q ∈ t.right.playerMap.find sessionID,
            p.id = q.id :=
        ⟨fun hout => heffects.mp hout.1, fun hid => ⟨heffects.mpr hid, rfl⟩⟩
      refine ⟨?_, fun _ => h.next _ hfights⟩
      rw [hsame, Alike]
      split
      · rename_i hplaced
        refine ⟨fun _ => trivial, fun _ => ?_⟩
        rcases h.fights.find_iff sessionID with ⟨hnone, _⟩ | ⟨p, q, hp, hq, hpq⟩
        · simp [hnone]
        · obtain ⟨move, attack, rfl⟩ := hpq.placed hplaced
          simp [hp, hq]
      · exact Iff.rfl
  | update now =>
      refine ⟨⟨fun _ => ?_, fun _ => ⟨rfl, rfl⟩⟩, fun _ => h.next _ (h.fights.update now)⟩
      unfold Alike
      split <;> trivial
  | message sessionID message now =>
      rw [Alike]
      split
      · rename_i hplaced
        have htwin := h.fights.of_keys (T := fun _ => True) fun _ _ _ => hplaced
        obtain ⟨hiff, hkeep⟩ := htwin.message_placed sessionID message now
        exact ⟨hiff, fun hagree => h.next _ ((hkeep hagree).of_keys fun _ _ _ => trivial)⟩
      · rename_i hplaced
        refine ⟨h.fights.message_iff, fun _ => h.next _ ?_⟩
        exact (h.fights.message_assigned h.nodup sessionID message now).of_keys fun _ _ => hplaced
  | rehash order =>
      refine ⟨⟨fun _ => ?_, fun _ => ⟨rfl, rfl⟩⟩, fun _ => h.next _ (h.fights.rehash h.nodup order)⟩
      unfold Alike
      split <;> trivial

/-- Two runs of a fight that is set up. -/
def start (pooled : FightContents) (contentsNum : ContentsNum) (matchID : Int) (group : Group) :
    Twins where
  left := newFight pooled contentsNum matchID group
  right := newFight pooled contentsNum matchID group
  placed := false

theorem start_inv (pooled : FightContents) (contentsNum : ContentsNum) (matchID : Int)
    (group : Group) : (start pooled contentsNum matchID group).Inv where
  fights := ⟨[], .nil, rfl⟩
  nodup := List.nodup_nil
  slots := fun _ hid => absurd hid List.not_mem_nil

end Twins

/-- **What a recycled player carries over.**  Two runs of a fight that differ in the player
objects only do the same at every step exactly where nothing of the earlier clients is seen:
once the players are placed, where every request that passes all other checks finds time
stamps that answer alike. -/
theorem recycled_players_iff (pooled : FightContents) (contentsNum : ContentsNum) (matchID : Int)
    (group : Group) (pool pool' : SessionID → Player) (inputs : List FightInput) :
    (∀ done input rest, inputs = done ++ input :: rest →
      ((Twins.start pooled contentsNum matchID group).run pool pool' done).SameOutput pool pool'
        input) ↔
      ∀ done input rest, inputs = done ++ input :: rest →
        ((Twins.start pooled contentsNum matchID group).run pool pool' done).Alike input := by
  have hstep : ∀ (t : Twins) (input : FightInput), t.Inv → True →
      (t.SameOutput pool pool' input ↔ t.Alike input) := fun t input h _ => (h.step input).1
  have hkeep : ∀ (t : Twins) (input : FightInput), t.Inv → True → t.Alike input →
      (t.next pool pool' input).Inv := fun t input h _ => (h.step input).2
  exact foldl_forall_iff hstep hkeep (Twins.start_inv pooled contentsNum matchID group)
    fun _ _ => trivial

/-- The objects as the pool constructs them. -/
def freshPool (_ : SessionID) : Player := firstPlayer 0 .red

/-- The first session gets an object whose last client has attacked shortly before. -/
def usedPool (sessionID : SessionID) : Player :=
  if sessionID = firstSession 0 then { freshPool sessionID with lastAttackRequestAt := 499900 }
  else freshPool sessionID

/-- The six players enter. -/
def sixEnter : List FightInput :=
  [.enter .red 0 true true, .enter .red 1 true true, .enter .red 2 true true,
    .enter .blue 0 true true, .enter .blue 1 true true, .enter .blue 2 true true]

/-- An attack from the place of the first red slot, a tenth of a second after that of the
object's last client. -/
def firstAttack : FightInput :=
  .message (firstSession 0) (.attack .attack1 dfPACKET_MOVE_DIR_RR 40 90) 500000

/-- It is broadcast for a new object and dropped for a used one. -/
theorem usedPlayer_attack_dropped :
    ¬ ∀ done input rest, sixEnter ++ [firstAttack] = done ++ input :: rest →
      ((Twins.start pooledFight 1 1 firstGroup).run freshPool usedPool done).SameOutput freshPool
        usedPool input := by
  intro h
  have hattack := h sixEnter firstAttack [] rfl
  have hdropped : ¬ ((Twins.start pooledFight 1 1 firstGroup).run freshPool usedPool
      sixEnter).SameOutput freshPool usedPool firstAttack := by
    decide +kernel
  exact hdropped hattack

end SessionServer.Battle
