/-
  Battle/Started.lean --- the start of a fight.

  The enter event that finds five others handled places the players: each is in the map
  under a session of the group and gets the start values of a slot of that session.  From
  then on no enter event is left.
-/
import SessionServer.Battle.Messages
import SessionServer.Foundation.Run

set_option autoImplicit false

namespace SessionServer.Battle

open SessionServer.Foundation FightContents

/-! ## Keys -/

namespace PlayerMap

theorem keys_insert_nodup {m : PlayerMap} (h : m.keys.Nodup) (sessionID : SessionID)
    (player : Player) : (m.insert sessionID player).keys.Nodup := by
  unfold PlayerMap.insert
  split
  · exact h
  · rename_i hnone
    have hfind : m.find sessionID = none := by simpa using hnone
    exact List.nodup_cons.mpr ⟨find_eq_none.mp hfind, h⟩

theorem keys_erase_nodup {m : PlayerMap} (h : m.keys.Nodup) (sessionID : SessionID) :
    (m.erase sessionID).keys.Nodup :=
  h.sublist (List.filter_sublist.map Prod.fst)

/-- Two entries under one key are the same. -/
theorem eq_of_key {m : PlayerMap} (h : m.keys.Nodup) {a b : SessionID × Player} (ha : a ∈ m)
    (hb : b ∈ m) (hkey : a.1 = b.1) : a = b := by
  have hfind := find_of_mem h ha
  rw [hkey, find_of_mem h hb, Option.some.injEq] at hfind
  exact Prod.ext hkey hfind.symm

end PlayerMap

namespace FightContents

theorem counted_keys_nodup {f : FightContents} (h : f.playerMap.keys.Nodup) (event : FightEvent) :
    (f.counted event).playerMap.keys.Nodup := by
  cases event with
  | enter sessionID found moved =>
      simp only [counted, countEnter]
      cases found with
      | none => exact h
      | some player =>
          cases moved with
          | false => exact h
          | true =>
              simp only [if_true, enterPlayer_eq]
              exact PlayerMap.keys_insert_nodup h _ _
  | leave sessionID =>
      simp only [counted]
      split
      · exact h
      · rw [removePlayer_fst]
        exact PlayerMap.keys_erase_nodup h sessionID
  | _ => exact h

theorem fightStep_keys_nodup {f : FightContents} (h : f.playerMap.keys.Nodup)
    (event : FightEvent) : (fightStep f event).1.playerMap.keys.Nodup :=
  (f.fightStep_kept event).keys.nodup_iff.mpr (counted_keys_nodup h event)

theorem countEnter_keys {f : FightContents} {sessionID : SessionID} {found : Option Player}
    {moved : Bool} {id : SessionID}
    (h : id ∈ (f.countEnter sessionID found moved).playerMap.keys) :
    id ∈ f.playerMap.keys ∨ sessionID = id := by
  unfold countEnter at h
  cases found with
  | none => exact Or.inl h
  | some player =>
      cases moved with
      | false => exact Or.inl h
      | true =>
          simp only [if_true, enterPlayer_eq, PlayerMap.mem_keys_insert] at h
          exact h.symm.imp_right Eq.symm

/-- A session in the map was there, or the event is its enter event. -/
theorem fightStep_keys {f : FightContents} {event : FightEvent} {id : SessionID}
    (h : id ∈ (fightStep f event).1.playerMap.keys) :
    id ∈ f.playerMap.keys ∨ event.entering = some id := by
  rw [(f.fightStep_kept event).keys.mem_iff] at h
  cases event with
  | enter sessionID found moved => exact (countEnter_keys h).imp_right (congrArg some)
  | leave sessionID =>
      simp only [counted] at h
      split at h
      · exact Or.inl h
      · rw [removePlayer_fst] at h
        exact Or.inl (PlayerMap.mem_keys_erase.mp h).1
  | _ => exact Or.inl h

theorem fightRun_keys {events : List FightEvent} {f : FightContents} {id : SessionID}
    (h : id ∈ (fightRun f events).playerMap.keys) :
    id ∈ f.playerMap.keys ∨ id ∈ events.filterMap FightEvent.entering := by
  induction events generalizing f with
  | nil => exact Or.inl h
  | cons event events ih =>
      rcases ih h with hkey | hmem
      · rcases fightStep_keys hkey with hold | hentering
        · exact Or.inl hold
        · exact Or.inr (List.mem_filterMap.mpr ⟨event, List.mem_cons_self, hentering⟩)
      · obtain ⟨other, hother, heq⟩ := List.mem_filterMap.mp hmem
        exact Or.inr (List.mem_filterMap.mpr ⟨other, List.mem_cons_of_mem _ hother, heq⟩)

theorem fightRun_keys_nodup {events : List FightEvent} {f : FightContents}
    (h : f.playerMap.keys.Nodup) : (fightRun f events).playerMap.keys.Nodup := by
  induction events generalizing f with
  | nil => exact h
  | cons event events ih => exact ih (fightStep_keys_nodup h event)

/-- The slots are those `Init` has set. -/
theorem fightRun_slots (f : FightContents) (events : List FightEvent) :
    (fightRun f events).red = f.red ∧ (fightRun f events).blue = f.blue := by
  induction events generalizing f with
  | nil => exact ⟨rfl, rfl⟩
  | cons event events ih =>
      obtain ⟨hred, hblue⟩ := ih (fightStep f event).1
      obtain ⟨_, _, hred', hblue'⟩ := f.fightStep_init event
      exact ⟨hred.trans hred', hblue.trans hblue'⟩

/-! ## The start values -/

/-- The start values of a slot. -/
def startPlayer (id : Nat) (x : Int) (slot : Nat) (direction : UInt8) (player : Player) : Player :=
  { player with
    id := UInt32.ofNat id
    hp := 100
    move := -1
    x := UInt16.ofNat x.toNat
    y := UInt16.ofNat (dfRANGE_MOVE_TOP + 40 + TEAMY * slot).toNat
    direction := direction }

/-- A player with the start values of a slot of its session. -/
def Spawned (red blue : Fin 3 → SessionID) (entry : SessionID × Player) : Prop :=
  ∃ (i : Fin 3) (player : Player),
    entry = (red i, startPlayer i REDX i dfPACKET_MOVE_DIR_RR player) ∨
      entry = (blue i, startPlayer (i + 3) BLUEX i dfPACKET_MOVE_DIR_LL player)

theorem placePlayer_fst (f : FightContents) (sessionID : SessionID) (id : Nat) (x : Int)
    (slot : Nat) (direction : UInt8) :
    (f.placePlayer sessionID id x slot direction).1 =
      match f.playerMap.find sessionID with
      | none => f
      | some player => f.written sessionID (startPlayer id x slot direction player) := by
  unfold placePlayer
  cases f.playerMap.find sessionID <;> rfl

/-- Placing a slot places its session, and takes nobody's place away. -/
theorem placePlayer_spawned {f : FightContents} {S : SessionID × Player → Prop}
    {placed : List SessionID} (h : ∀ entry ∈ f.playerMap, entry.1 ∈ placed → S entry)
    (sessionID : SessionID) (id : Nat) (x : Int) (slot : Nat) (direction : UInt8)
    (hplace : ∀ player, S (sessionID, startPlayer id x slot direction player)) :
    ∀ entry ∈ (f.placePlayer sessionID id x slot direction).1.playerMap,
      entry.1 ∈ sessionID :: placed → S entry := by
  intro entry hmem hkey
  rw [placePlayer_fst] at hmem
  split at hmem
  · rename_i hfind
    refine h entry hmem ((List.mem_cons.mp hkey).resolve_left fun heq => ?_)
    exact PlayerMap.find_eq_none.mp hfind (heq ▸ List.mem_map_of_mem hmem)
  · rename_i player hfind
    rcases PlayerMap.mem_modify.mp hmem with ⟨hold, hne⟩ | ⟨_, rfl⟩
    · exact h entry hold ((List.mem_cons.mp hkey).resolve_left hne)
    · exact hplace player

theorem placePlayer_slots (f : FightContents) (sessionID : SessionID) (id : Nat) (x : Int)
    (slot : Nat) (direction : UInt8) :
    (f.placePlayer sessionID id x slot direction).1.red = f.red ∧
      (f.placePlayer sessionID id x slot direction).1.blue = f.blue := by
  rw [placePlayer_fst]
  split <;> exact ⟨rfl, rfl⟩

/-- The sessions of the slots in `slots`. -/
def slotSessions (f : FightContents) (slots : List (Fin 3)) : List SessionID :=
  slots.flatMap fun i => [f.blue i, f.red i]

theorem placeSlot_slots (acc : FightContents × List Effect) (i : Fin 3) :
    (placeSlot acc i).1.red = acc.1.red ∧ (placeSlot acc i).1.blue = acc.1.blue := by
  simp only [placeSlot]
  have hred := acc.1.placePlayer_slots (acc.1.red i) i REDX i dfPACKET_MOVE_DIR_RR
  generalize (acc.1.placePlayer (acc.1.red i) i REDX i dfPACKET_MOVE_DIR_RR).1 = r at hred
  have hblue := r.placePlayer_slots (r.blue i) (i + 3) BLUEX i dfPACKET_MOVE_DIR_LL
  exact ⟨hblue.1.trans hred.1, hblue.2.trans hred.2⟩

theorem placeSlot_spawned {f : FightContents} {acc : FightContents × List Effect}
    {slots : List (Fin 3)} (hslots : acc.1.red = f.red ∧ acc.1.blue = f.blue)
    (h : ∀ entry ∈ acc.1.playerMap, entry.1 ∈ f.slotSessions slots → Spawned f.red f.blue entry)
    (i : Fin 3) :
    ((placeSlot acc i).1.red = f.red ∧ (placeSlot acc i).1.blue = f.blue) ∧
      ∀ entry ∈ (placeSlot acc i).1.playerMap, entry.1 ∈ f.slotSessions (i :: slots) →
        Spawned f.red f.blue entry := by
  have hkept := placeSlot_slots acc i
  refine ⟨⟨hkept.1.trans hslots.1, hkept.2.trans hslots.2⟩, ?_⟩
  simp only [placeSlot]
  have hred := placePlayer_spawned h (acc.1.red i) i REDX i dfPACKET_MOVE_DIR_RR
    fun player => ⟨i, player, Or.inl (by rw [hslots.1])⟩
  have hslots₁ := acc.1.placePlayer_slots (acc.1.red i) i REDX i dfPACKET_MOVE_DIR_RR
  generalize (acc.1.placePlayer (acc.1.red i) i REDX i dfPACKET_MOVE_DIR_RR).1 = r at hred hslots₁
  have hblue := placePlayer_spawned hred (r.blue i) (i + 3) BLUEX i dfPACKET_MOVE_DIR_LL
    fun player => ⟨i, player, Or.inr (by rw [hslots₁.2, hslots.2])⟩
  rw [hslots₁.2, hslots.1, hslots.2] at hblue
  rw [hslots₁.2, hslots.2]
  exact hblue

/-- The start of a fight places every session of its slots. -/
theorem startFight_spawned (f : FightContents) :
    ∀ entry ∈ f.startFight.1.playerMap, entry.1 ∈ f.slotSessions [2, 1, 0] →
      Spawned f.red f.blue entry := by
  have hnone : ∀ entry ∈ f.playerMap, entry.1 ∈ f.slotSessions [] → Spawned f.red f.blue entry :=
    fun _ _ hkey => by simp [slotSessions] at hkey
  have h₀ := @placeSlot_spawned f (f, []) [] ⟨rfl, rfl⟩ hnone 0
  have h₁ := placeSlot_spawned h₀.1 h₀.2 1
  exact (placeSlot_spawned h₁.1 h₁.2 2).2

end FightContents

/-! ## Started fights -/

/-- The enter event `event`, handled after `before`, starts a fight: it is the sixth, and
the fight is not over. -/
structure Starts (f : FightContents) (event : FightEvent) : Prop where
  enters : event.entering.isSome
  sixth : f.matched = 5
  runs : ¬ f.Ends event

instance (f : FightContents) (event : FightEvent) : Decidable (f.Ends event) := by
  unfold Ends Tested
  cases event <;> infer_instance

instance (f : FightContents) (event : FightEvent) : Decidable (Starts f event) :=
  decidable_of_iff (event.entering.isSome ∧ f.matched = 5 ∧ ¬ f.Ends event)
    ⟨fun h => ⟨h.1, h.2.1, h.2.2⟩, fun h => ⟨h.1, h.2, h.3⟩⟩

/-- The event that starts a fight runs `startFight`. -/
theorem Starts.out {f : FightContents} {event : FightEvent} (h : Starts f event) :
    fightStep f event = (f.counted event).checkGameEnd.1.startFight := by
  obtain ⟨henters, hsixth, hruns⟩ := h
  cases event with
  | enter sessionID found moved =>
      have hmatched := f.countEnter_matched sessionID found moved
      have hend := f.counted_end (.enter sessionID found moved)
      have hsnd := (f.countEnter sessionID found moved).checkGameEnd_snd
      obtain ⟨winLoss, hfst⟩ := (f.countEnter sessionID found moved).checkGameEnd_fst
      simp only [Ends, Tested, counted, not_and] at hruns hend
      have hguard : ((f.countEnter sessionID found moved).checkGameEnd.2 &&
          (f.countEnter sessionID found moved).checkGameEnd.1.end_) = false := by
        rw [hsnd, hfst]
        cases hf : (f.countEnter sessionID found moved).end_ with
        | false => simp
        | true => simpa using hruns (by omega) hf
      have hsix : (f.countEnter sessionID found moved).matched ≥ 6 := by omega
      simp only [fightStep, onEnter, counted, hsix, if_true, hguard, Bool.false_eq_true, if_false]
  | _ => simp [FightEvent.entering] at henters

/-- The players it places. -/
theorem Starts.spawned {f : FightContents} {event : FightEvent} (h : Starts f event)
    {entry : SessionID × Player} (hmem : entry ∈ (fightStep f event).1.playerMap)
    (hkey : entry.1 ∈ (⟨f.red, f.blue⟩ : Group).sessions) : Spawned f.red f.blue entry := by
  rw [h.out] at hmem
  obtain ⟨players, red, blue, matched, hcounted⟩ := f.counted_frame event
  obtain ⟨winLoss, hchecked⟩ := (f.counted event).checkGameEnd_fst
  have hred : (f.counted event).checkGameEnd.1.red = f.red := by rw [hchecked, hcounted]
  have hblue : (f.counted event).checkGameEnd.1.blue = f.blue := by rw [hchecked, hcounted]
  have hspawned := startFight_spawned _ entry hmem
  rw [hred, hblue] at hspawned
  refine hspawned ?_
  simp only [slotSessions, hred, hblue, Group.sessions, List.flatMap_cons, List.flatMap_nil,
    List.mem_append, List.mem_cons, List.not_mem_nil, or_false] at hkey ⊢
  rcases hkey with heq | heq | heq | heq | heq | heq <;> simp [heq]

/-- A run of a fight that its sixth enter event starts; `after` follows it. -/
structure StartedRun (pooled : FightContents) (contentsNum : ContentsNum) (matchID : Int)
    (group : Group) (before : List FightEvent) (event : FightEvent) (after : List FightEvent) :
    Prop where
  scheduled : Scheduled group (before ++ event :: after)
  starts : Starts (fightRun (newFight pooled contentsNum matchID group) before) event

section

variable {pooled : FightContents} {contentsNum : ContentsNum} {matchID : Int} {group : Group}
  {before after : List FightEvent} {event : FightEvent}

/-- The sixth enter event is the last one. -/
theorem StartedRun.no_enter (h : StartedRun pooled contentsNum matchID group before event after) :
    ∀ later ∈ after, later.entering = none := by
  have hcount := h.scheduled.length_le
  have hmatched := (newFight pooled contentsNum matchID group).fightRun_matched before
  rw [h.starts.sixth] at hmatched
  have hzero : (newFight pooled contentsNum matchID group).matched = 0 := rfl
  obtain ⟨id, hid⟩ := Option.isSome_iff_exists.mp h.starts.enters
  rw [List.filterMap_append, List.length_append, List.filterMap_cons, hid] at hcount
  simp only [Group.sessions, List.length_cons, List.length_nil] at hcount
  have hnone : after.filterMap FightEvent.entering = [] := by
    rw [← List.length_eq_zero_iff]
    omega
  exact List.filterMap_eq_nil_iff.mp hnone

/-- The fight its sixth enter event has started. -/
def startedFight (pooled : FightContents) (contentsNum : ContentsNum) (matchID : Int)
    (group : Group) (before : List FightEvent) (event : FightEvent) : FightContents :=
  (fightStep (fightRun (newFight pooled contentsNum matchID group) before) event).1

theorem startedFight_keys_nodup (pooled : FightContents) (contentsNum : ContentsNum)
    (matchID : Int) (group : Group) (before : List FightEvent) (event : FightEvent) :
    (startedFight pooled contentsNum matchID group before event).playerMap.keys.Nodup := by
  refine fightStep_keys_nodup (fightRun_keys_nodup ?_) event
  simp [newFight, FightContents.init, FightContents.clear, PlayerMap.keys]

/-- Every player of a fight that has just started has the start values of a slot. -/
theorem StartedRun.spawned (h : StartedRun pooled contentsNum matchID group before event after) :
    ∀ entry ∈ (startedFight pooled contentsNum matchID group before event).playerMap,
      Spawned group.red group.blue entry := by
  intro entry hmem
  obtain ⟨hred, hblue⟩ := (newFight pooled contentsNum matchID group).fightRun_slots before
  have hkey : entry.1 ∈ group.sessions := by
    have hcome : entry.1 ∈ (before ++ event :: after).filterMap FightEvent.entering := by
      rw [List.filterMap_append, List.mem_append, List.mem_filterMap, List.mem_filterMap]
      rcases fightStep_keys (List.mem_map_of_mem hmem) with hold | hnew
      · rcases fightRun_keys hold with hnone | hrun
        · simp [newFight, FightContents.init, FightContents.clear, PlayerMap.keys] at hnone
        · exact Or.inl (List.mem_filterMap.mp hrun)
      · exact Or.inr ⟨event, List.mem_cons_self, hnew⟩
    exact h.scheduled.subset hcome
  have hspawned := h.starts.spawned hmem
  rw [hred, hblue] at hspawned
  exact hspawned hkey

end

/-! ## The players of a fight that goes on -/

namespace FightContents

variable {f : FightContents} {entry : SessionID × Player}

/-- The players after a leave are the others. -/
theorem mem_onLeave {sessionID : SessionID} :
    entry ∈ (f.onLeave sessionID).1.playerMap ↔ entry ∈ f.playerMap ∧ entry.1 ≠ sessionID := by
  have herase : entry ∈ f.playerMap.erase sessionID ↔
      entry ∈ f.playerMap ∧ entry.1 ≠ sessionID := by
    simp [PlayerMap.erase, List.mem_filter]
  unfold onLeave
  split
  · rename_i hfind
    refine ⟨fun hmem => ⟨hmem, fun heq => ?_⟩, And.left⟩
    exact PlayerMap.find_eq_none.mp hfind (heq ▸ List.mem_map_of_mem hmem)
  · rename_i player hfind
    obtain ⟨winLoss, hchecked⟩ := (f.removePlayer sessionID player).1.checkGameEnd_fst
    have herased : (f.removePlayer sessionID player).1.checkGameEnd.1.playerMap =
        f.playerMap.erase sessionID := by rw [hchecked, removePlayer_fst]
    rw [← herase]
    simp only
    split <;> simp only [finishFightAndRelease, herased]

/-- The players after a change of the iteration order are the same. -/
theorem mem_rehash {order : PlayerMap} :
    entry ∈ (fightStep f (.rehash order)).1.playerMap ↔ entry ∈ f.playerMap := by
  simp only [fightStep]
  split
  · rename_i hperm
    exact (List.isPerm_iff.mp hperm).mem_iff
  · exact Iff.rfl

theorem applyMovement_frame (player : Player) (frame : Int) :
    ∃ x y, applyMovement player frame = { player with x := x, y := y } := by
  unfold applyMovement
  split
  · exact ⟨player.x, player.y, rfl⟩
  · simp only
    split
    all_goals exact ⟨_, _, rfl⟩

/-- The players after a frame update are those before it, the moving ones further on. -/
theorem mem_onUpdate {now : UInt32} (hmem : entry ∈ (f.onUpdate now).playerMap) :
    entry ∈ f.playerMap ∨
      ∃ player frame, (entry.1, player) ∈ f.playerMap ∧ entry.2 = applyMovement player frame := by
  obtain ⟨old, hold, rfl⟩ := List.mem_map.mp hmem
  split
  · exact Or.inr ⟨old.2, _, hold, rfl⟩
  · exact Or.inl hold

/-- **Where a player comes from.**  Once the enter events are over, a player in the map was
there under the same key with the same ID, and its hp are those it had, or the event is a
message that has hit it. -/
theorem fightStep_from {event : FightEvent} (hevent : event.entering = none)
    (hmem : entry ∈ (fightStep f event).1.playerMap) :
    ∃ old ∈ f.playerMap, entry.1 = old.1 ∧ entry.2.id = old.2.id ∧
      (entry.2.hp = old.2.hp ∨ ∃ sessionID message now type,
        event = .message sessionID message now ∧
        f.hit sessionID message now = some (type, old) ∧
        entry.2.hp = (applyDamage old.2 type.getAttackDamage).hp) := by
  cases event with
  | enter sessionID found moved => simp [FightEvent.entering] at hevent
  | leave sessionID => exact ⟨entry, (mem_onLeave.mp hmem).1, rfl, rfl, Or.inl rfl⟩
  | update now =>
      rcases mem_onUpdate hmem with hold | ⟨player, frame, hold, heq⟩
      · exact ⟨entry, hold, rfl, rfl, Or.inl rfl⟩
      · obtain ⟨x, y, hframe⟩ := applyMovement_frame player frame
        rw [hframe] at heq
        exact ⟨_, hold, rfl, by rw [heq], Or.inl (by rw [heq])⟩
  | message sessionID message now =>
      rcases (f.procMessage_messaged sessionID message now).mem hmem with
        hold | ⟨player, haccepted, rfl⟩ | ⟨type, target, hhit, rfl⟩
      · exact ⟨entry, hold, rfl, rfl, Or.inl rfl⟩
      · have hold := PlayerMap.mem_of_find (accepted_eq_some.mp haccepted).1
        exact ⟨_, hold, rfl, write_id message now player, Or.inl (write_hp message now player)⟩
      · obtain ⟨_, _, _, htarget, _⟩ := hit_spec hhit
        exact ⟨target, htarget, rfl, rfl, Or.inr ⟨_, _, _, type, rfl, hhit, rfl⟩⟩
  | rehash order => exact ⟨entry, mem_rehash.mp hmem, rfl, rfl, Or.inl rfl⟩

/-- A message that passes the checks of its handler meets the condition. -/
def MessagesMeet (condition : CSMessage → Prop) (f : FightContents) : FightEvent → Prop
  | .message sessionID message now =>
      (f.accepted sessionID message now).isSome → condition message
  | _ => True

/-- **A property of the players.**  It does not depend on the hp, the frame update keeps it,
and a message that passes writes it exactly where it meets a condition; then a message that
passes is all that can end it. -/
theorem fightStep_players_iff {P : Player → Prop} {condition : CSMessage → Prop}
    (hframe : ∀ player frame, P player → P (applyMovement player frame))
    (hdamage : ∀ player damage, P player → P (applyDamage player damage))
    (hwrite : ∀ player message now, P player → message.passes player now = true →
      (P (message.write now player) ↔ condition message))
    (h : ∀ entry ∈ f.playerMap, P entry.2) {event : FightEvent}
    (hevent : event.entering = none) :
    (∀ entry ∈ (fightStep f event).1.playerMap, P entry.2) ↔ MessagesMeet condition f event := by
  cases event with
  | enter sessionID found moved => simp [FightEvent.entering] at hevent
  | leave sessionID =>
      exact iff_of_true (fun entry hmem => h entry (mem_onLeave.mp hmem).1) trivial
  | update now =>
      refine iff_of_true (fun entry hmem => ?_) trivial
      rcases mem_onUpdate hmem with hold | ⟨player, frame, hold, heq⟩
      · exact h entry hold
      · exact heq ▸ hframe player frame (h _ hold)
  | message sessionID message now =>
      have hmessaged := f.procMessage_messaged sessionID message now
      have hwritten : ∀ player, f.accepted sessionID message now = some player →
          (P (message.write now player) ↔ condition message) := by
        intro player haccepted
        obtain ⟨hfind, hpasses⟩ := accepted_eq_some.mp haccepted
        exact hwrite player message now (h _ (PlayerMap.mem_of_find hfind)) hpasses
      constructor
      · intro hafter haccepted
        obtain ⟨player, hplayer⟩ := Option.isSome_iff_exists.mp haccepted
        exact (hwritten player hplayer).mp (hafter _ (hmessaged.written_mem hplayer))
      · intro hmeets entry hmem
        rcases hmessaged.mem hmem with
          hold | ⟨player, haccepted, rfl⟩ | ⟨type, target, hhit, rfl⟩
        · exact h entry hold
        · have hsome := Option.isSome_iff_exists.mpr ⟨player, haccepted⟩
          exact (hwritten player haccepted).mpr (hmeets hsome)
        · obtain ⟨_, _, _, htarget, _⟩ := hit_spec hhit
          exact hdamage target.2 _ (h target htarget)
  | rehash order => exact iff_of_true (fun entry hmem => h entry (mem_rehash.mp hmem)) trivial

end FightContents

/-! A first fight that starts. -/

/-- Five players enter. -/
def fiveEnter : List FightEvent := (List.range 5).map firstEnter

/-- The sixth has entered. -/
def firstStarted : FightContents :=
  startedFight pooledFight 1 1 firstGroup fiveEnter (firstEnter 5)

theorem fiveEnter_started {after : List FightEvent}
    (h : ∀ later ∈ after, later.entering = none) :
    StartedRun pooledFight 1 1 firstGroup fiveEnter (firstEnter 5) after where
  scheduled := by
    have hnone : after.filterMap FightEvent.entering = [] := List.filterMap_eq_nil_iff.mpr h
    have heq : (fiveEnter ++ firstEnter 5 :: after).filterMap FightEvent.entering =
        firstGroup.sessions ++ after.filterMap FightEvent.entering := by
      rw [List.filterMap_append, List.filterMap_cons]
      rfl
    rw [Scheduled, heq, hnone, List.append_nil]
  starts := by decide +kernel

end SessionServer.Battle
