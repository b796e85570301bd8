/-
  Battle/Roster.lean --- who is in a fight, and how many.

  The counters, the player map, the slot arrays and the teams of the players are written by
  different handlers.  The teams come from the matching, so that a session is on the team of
  its slot; every event keeps the counters at the number of the keys on each team, and the
  arrays the handlers fill from the map have room for the six sessions of the slots.
-/
import SessionServer.Battle.Recycled

set_option autoImplicit false

namespace SessionServer.Battle

open SessionServer.Foundation FightContents

/-! ## Runs -/

/-- The slot an enter event is for. -/
def FightInput.slot : FightInput → Option (Team × Fin 3)
  | .enter team slot _ _ => some (team, slot)
  | _ => none

/-- The fight after a run, on the objects the pool has handed out to the sessions. -/
def inputRun (pool : SessionID → Player) (f : FightContents) (inputs : List FightInput) :
    FightContents :=
  inputs.foldl (fun f input => (fightStep f (input.event pool f)).1) f

/-- The events of a run. -/
def inputEvents (pool : SessionID → Player) : FightContents → List FightInput → List FightEvent
  | _, [] => []
  | f, input :: inputs =>
      input.event pool f :: inputEvents pool (fightStep f (input.event pool f)).1 inputs

/-- The counters are the numbers of the players of each team, who are in the slots of their
team and no more than six. -/
structure Rostered (f : FightContents) : Prop where
  red : f.redCount = (f.playerMap.filter fun entry => entry.2.team = .red).length
  blue : f.blueCount = (f.playerMap.filter fun entry => entry.2.team = .blue).length
  inSlots : ∀ entry ∈ f.playerMap, ∃ slot, entry.1 = f.slotSession entry.2.team slot
  size : f.playerMap.length ≤ 6

/-- The players have the IDs of their slots, 0 to 2 for red and 3 to 5 for blue. -/
structure Numbered (f : FightContents) : Prop where
  ids : ∀ entry ∈ f.playerMap, ∃ slot : Fin 3,
    (entry.2.team = .red ∧ entry.1 = f.red slot ∧ entry.2.id = UInt32.ofNat slot) ∨
      (entry.2.team = .blue ∧ entry.1 = f.blue slot ∧ entry.2.id = UInt32.ofNat (slot + 3))
  distinct : (f.playerMap.map fun entry => entry.2.id).Nodup

/-! ## Slots -/

def allSlots : List (Team × Fin 3) :=
  [(.red, 0), (.red, 1), (.red, 2), (.blue, 0), (.blue, 1), (.blue, 2)]

theorem mem_allSlots (slot : Team × Fin 3) : slot ∈ allSlots := by
  obtain ⟨team, slot⟩ := slot
  cases team <;> fin_cases slot <;> decide

namespace FightContents

variable {f : FightContents} {pool : SessionID → Player}

/-- The six sessions of the slots are distinct. -/
def Distinct (f : FightContents) : Prop := (⟨f.red, f.blue⟩ : Group).sessions.Nodup

theorem sessions_eq (f : FightContents) : (⟨f.red, f.blue⟩ : Group).sessions =
    allSlots.map fun slot => f.slotSession slot.1 slot.2 := rfl

theorem Distinct.slot_eq (h : f.Distinct) {team team' : Team} {slot slot' : Fin 3}
    (heq : f.slotSession team slot = f.slotSession team' slot') :
    (team, slot) = (team', slot') := by
  rw [Distinct, sessions_eq] at h
  exact List.inj_on_of_nodup_map h (mem_allSlots (team, slot)) (mem_allSlots (team', slot')) heq

/-- The session is in the array of the team. -/
def onTeam (f : FightContents) (team : Team) (sessionID : SessionID) : Bool :=
  decide (∃ slot, f.slotSession team slot = sessionID)

theorem Distinct.onTeam_slot (h : f.Distinct) (team team' : Team) (slot : Fin 3) :
    f.onTeam team' (f.slotSession team slot) = decide (team = team') := by
  rw [onTeam, decide_eq_decide]
  constructor
  · rintro ⟨slot', heq⟩
    exact (Prod.mk.inj (h.slot_eq heq)).1.symm
  · rintro rfl
    exact ⟨slot, rfl⟩

/-- The invariant of a fight. -/
structure Roster (f : FightContents) : Prop where
  nodup : f.playerMap.keys.Nodup
  inSlots : ∀ entry ∈ f.playerMap, ∃ slot, entry.1 = f.slotSession entry.2.team slot
  counts : ∀ team, f.count team = (f.playerMap.keys.countP (f.onTeam team) : Nat)

theorem Roster.onTeam_entry (h : f.Roster) (hdistinct : f.Distinct)
    {entry : SessionID × Player} (hmem : entry ∈ f.playerMap) (team : Team) :
    f.onTeam team entry.1 = decide (entry.2.team = team) := by
  obtain ⟨slot, hslot⟩ := h.inSlots entry hmem
  rw [hslot, hdistinct.onTeam_slot]

theorem Roster.count_eq (h : f.Roster) (hdistinct : f.Distinct) (team : Team) :
    f.count team = (f.playerMap.filter fun entry => entry.2.team = team).length := by
  rw [h.counts, PlayerMap.keys, List.countP_map, ← List.countP_eq_length_filter]
  refine congrArg Nat.cast (List.countP_congr fun entry hmem => ?_)
  rw [Function.comp_apply, h.onTeam_entry hdistinct hmem]

theorem Roster.size_le (h : f.Roster) : f.playerMap.length ≤ 6 := by
  have hsub : f.playerMap.keys ⊆ (⟨f.red, f.blue⟩ : Group).sessions := by
    intro id hid
    obtain ⟨entry, hmem, rfl⟩ := List.mem_map.mp hid
    obtain ⟨slot, hslot⟩ := h.inSlots entry hmem
    rw [hslot, sessions_eq]
    exact List.mem_map_of_mem (mem_allSlots (entry.2.team, slot))
  have hle := (h.nodup.subperm hsub).length_le
  rwa [PlayerMap.keys, List.length_map] at hle

theorem Roster.rostered (h : f.Roster) (hdistinct : f.Distinct) : Rostered f where
  red := h.count_eq hdistinct .red
  blue := h.count_eq hdistinct .blue
  inSlots := h.inSlots
  size := h.size_le

/-! ## Counting -/

theorem Distinct.player_team (h : f.Distinct) (team : Team) (slot : Fin 3) (team' : Team) :
    (if f.onTeam team' (f.slotSession team slot) = true then 1 else 0 : Nat) =
      if team = team' then 1 else 0 := by
  rw [h.onTeam_slot]
  simp only [decide_eq_true_eq]

/-- A session that was not there enters with the team of its slot. -/
theorem Roster.enter (h : f.Roster) (hdistinct : f.Distinct) {team : Team} {slot : Fin 3}
    (hnew : f.slotSession team slot ∉ f.playerMap.keys) (found moved : Bool) :
    (f.countEnter (f.slotSession team slot)
      (if found then some (f.slotPlayer pool team slot) else none) moved).Roster := by
  cases found with
  | false => exact ⟨h.nodup, h.inSlots, h.counts⟩
  | true =>
      cases moved with
      | false => exact ⟨h.nodup, h.inSlots, h.counts⟩
      | true =>
          have hnone : (f.playerMap.find (f.slotSession team slot)).isSome = false := by
            rw [PlayerMap.find_eq_none.mpr hnew]
            rfl
          simp only [countEnter, if_true, enterPlayer_eq, PlayerMap.insert, hnone,
            Bool.false_eq_true, if_false]
          refine ⟨List.nodup_cons.mpr ⟨hnew, h.nodup⟩, fun entry hmem => ?_, fun team' => ?_⟩
          · rcases List.mem_cons.mp hmem with rfl | hold
            · exact ⟨slot, rfl⟩
            · exact h.inSlots entry hold
          · have hbefore := h.counts team'
            have hone := hdistinct.player_team team slot team'
            show _ = ((f.slotSession team slot :: f.playerMap.keys).countP (f.onTeam team') : Int)
            rw [List.countP_cons, hone]
            cases team' <;> cases team <;>
              simp_all [count, slotPlayer, assignTeam]

theorem keys_erase {m : PlayerMap} (hnodup : m.keys.Nodup) (sessionID : SessionID) :
    (m.erase sessionID).keys = m.keys.erase sessionID := by
  rw [hnodup.erase_eq_filter, PlayerMap.keys, PlayerMap.erase, PlayerMap.keys, List.filter_map]
  refine congrArg (List.map Prod.fst) (List.filter_congr fun entry _ => ?_)
  simp [bne, Bool.beq_eq_decide_eq]

/-- A player leaves with the team of its slot. -/
theorem Roster.leave (h : f.Roster) (hdistinct : f.Distinct) {sessionID : SessionID}
    {player : Player} (hfind : f.playerMap.find sessionID = some player) :
    (f.removePlayer sessionID player).1.Roster := by
  have hmem := PlayerMap.mem_of_find hfind
  have hkey := PlayerMap.mem_keys_of_find hfind
  rw [removePlayer_fst]
  refine ⟨PlayerMap.keys_erase_nodup h.nodup sessionID, fun entry hentry => ?_, fun team => ?_⟩
  · exact h.inSlots entry (List.mem_of_mem_filter hentry)
  · have hbefore := h.counts team
    have hteam := h.onTeam_entry hdistinct hmem team
    have hpos : f.onTeam team sessionID = true → 0 < f.playerMap.keys.countP (f.onTeam team) :=
      fun hon => List.countP_pos_iff.mpr ⟨sessionID, hkey, hon⟩
    show _ = (((f.playerMap.erase sessionID).keys.countP (f.onTeam team) : Nat) : Int)
    rw [keys_erase h.nodup, List.countP_erase]
    dsimp only at hteam
    cases hplayer : player.team <;> cases team <;> simp_all [count]

/-! ## One event -/

/-- The players of `m'` are under the keys and on the teams they have in `m`. -/
def SameTeams (m m' : PlayerMap) : Prop :=
  ∀ entry ∈ m', ∃ old ∈ m, old.1 = entry.1 ∧ old.2.team = entry.2.team

theorem SameTeams.of_subset {m m' : PlayerMap} (h : ∀ entry ∈ m', entry ∈ m) : SameTeams m m' :=
  fun entry hmem => ⟨entry, h entry hmem, rfl, rfl⟩

theorem SameTeams.trans {m m' m'' : PlayerMap} (h : SameTeams m m') (h' : SameTeams m' m'') :
    SameTeams m m'' := by
  intro entry hmem
  obtain ⟨middle, hmiddle, hkey, hteam⟩ := h' entry hmem
  obtain ⟨old, hold, hkey', hteam'⟩ := h middle hmiddle
  exact ⟨old, hold, hkey'.trans hkey, hteam'.trans hteam⟩

theorem placePlayer_sameTeams (f : FightContents) (sessionID : SessionID) (id : Nat) (x : Int)
    (slot : Nat) (direction : UInt8) :
    SameTeams f.playerMap (f.placePlayer sessionID id x slot direction).1.playerMap := by
  rw [placePlayer_fst]
  cases hfind : f.playerMap.find sessionID with
  | none => exact SameTeams.of_subset fun _ hmem => hmem
  | some player =>
      intro entry hmem
      rcases PlayerMap.mem_modify.mp hmem with ⟨hold, _⟩ | ⟨_, rfl⟩
      · exact ⟨entry, hold, rfl, rfl⟩
      · exact ⟨_, PlayerMap.mem_of_find hfind, rfl, rfl⟩

theorem placeSlot_sameTeams (acc : FightContents × List Effect) (i : Fin 3) :
    SameTeams acc.1.playerMap (placeSlot acc i).1.playerMap :=
  (placePlayer_sameTeams acc.1 (acc.1.red i) i REDX i dfPACKET_MOVE_DIR_RR).trans
    (placePlayer_sameTeams _ _ (i + 3) BLUEX i dfPACKET_MOVE_DIR_LL)

theorem startFight_sameTeams (f : FightContents) :
    SameTeams f.playerMap f.startFight.1.playerMap :=
  ((placeSlot_sameTeams (f, []) 0).trans (placeSlot_sameTeams _ 1)).trans
    (placeSlot_sameTeams _ 2)

/-- **Nobody changes teams.** -/
theorem fightStep_sameTeams (f : FightContents) (event : FightEvent) :
    SameTeams (f.counted event).playerMap (fightStep f event).1.playerMap := by
  cases event with
  | enter sessionID found moved =>
      obtain ⟨winLoss, hchecked⟩ := (f.countEnter sessionID found moved).checkGameEnd_fst
      have hmap : (f.countEnter sessionID found moved).checkGameEnd.1.playerMap =
          (f.countEnter sessionID found moved).playerMap := by rw [hchecked]
      have hstart := startFight_sameTeams (f.countEnter sessionID found moved).checkGameEnd.1
      rw [hmap] at hstart
      simp only [fightStep, onEnter, counted]
      split
      · split
        · simp only [finishFightAndRelease]
          rw [hmap]
          exact SameTeams.of_subset fun _ hmem => hmem
        · exact hstart
      · exact SameTeams.of_subset fun _ hmem => hmem
  | leave sessionID =>
      refine SameTeams.of_subset fun entry hmem => ?_
      obtain ⟨hold, hne⟩ := mem_onLeave.mp hmem
      simp only [counted]
      split
      · exact hold
      · rw [removePlayer_fst]
        simpa [PlayerMap.erase, List.mem_filter] using ⟨hold, hne⟩
  | update now =>
      intro entry hmem
      rcases mem_onUpdate hmem with hold | ⟨player, frame, hold, heq⟩
      · exact ⟨entry, hold, rfl, rfl⟩
      · obtain ⟨x, y, hframe⟩ := applyMovement_frame player frame
        exact ⟨_, hold, rfl, by rw [heq, hframe]⟩
  | message sessionID message now =>
      intro entry hmem
      rcases (f.procMessage_messaged sessionID message now).mem hmem with
        hold | ⟨player, haccepted, rfl⟩ | ⟨type, target, hhit, rfl⟩
      · exact ⟨entry, hold, rfl, rfl⟩
      · have hold := PlayerMap.mem_of_find (accepted_eq_some.mp haccepted).1
        exact ⟨_, hold, rfl, (write_team message now player).symm⟩
      · obtain ⟨_, _, _, htarget, _⟩ := hit_spec hhit
        exact ⟨target, htarget, rfl, rfl⟩
  | rehash order => exact SameTeams.of_subset fun entry hmem => mem_rehash.mp hmem

theorem slotSession_congr {g : FightContents} (hred : g.red = f.red) (hblue : g.blue = f.blue) :
    g.slotSession = f.slotSession := by
  funext team
  cases team
  · exact hred
  · exact hblue

/-- Once an event has been counted, the rest of it keeps the roster. -/
theorem Roster.of_counted {event : FightEvent} (h : (f.counted event).Roster) :
    (fightStep f event).1.Roster := by
  obtain ⟨players, tick, winLoss, end_, hout⟩ := f.fightStep_fst event
  have hkept := (f.fightStep_kept event).keys
  have hslots : (fightStep f event).1.slotSession = (f.counted event).slotSession :=
    slotSession_congr (by rw [hout]) (by rw [hout])
  refine ⟨hkept.nodup_iff.mpr h.nodup, fun entry hmem => ?_, fun team => ?_⟩
  · obtain ⟨old, hold, hkey, hteam⟩ := f.fightStep_sameTeams event entry hmem
    obtain ⟨slot, hslot⟩ := h.inSlots old hold
    exact ⟨slot, by rw [hslots, ← hkey, ← hteam, hslot]⟩
  · have hcount : (fightStep f event).1.count team = (f.counted event).count team := by
      rw [hout]
      cases team <;> rfl
    have honTeam : (fightStep f event).1.onTeam team = (f.counted event).onTeam team := by
      unfold onTeam
      rw [hslots]
    rw [hcount, h.counts, honTeam, hkept.countP_eq]

/-- **An event keeps the roster**, if it does not enter a session that is there. -/
theorem Roster.step (h : f.Roster) (hdistinct : f.Distinct) {input : FightInput}
    (hnew : ∀ team slot, input.slot = some (team, slot) →
      f.slotSession team slot ∉ f.playerMap.keys) :
    (fightStep f (input.event pool f)).1.Roster := by
  refine Roster.of_counted ?_
  cases input with
  | enter team slot found moved => exact h.enter hdistinct (hnew team slot rfl) found moved
  | leave sessionID =>
      simp only [FightInput.event, counted]
      split
      · exact h
      · rename_i player hfind
        exact h.leave hdistinct hfind
  | update now => exact h
  | message sessionID message now => exact h
  | rehash order => exact h

/-! ## The arrays of sessions -/

/-- A packet goes to no more sessions than an array `sessionA[6]` holds. -/
def InArrays (effects : List Effect) : Prop :=
  ∀ sessions packet, .send sessions packet ∈ effects → sessions.length ≤ 6

theorem InArrays.append {effects more : List Effect} (h : InArrays effects)
    (h' : InArrays more) : InArrays (effects ++ more) := by
  intro sessions packet hmem
  rcases List.mem_append.mp hmem with hmem | hmem
  · exact h sessions packet hmem
  · exact h' sessions packet hmem

theorem InArrays.nil : InArrays [] := by
  intro sessions packet hmem
  cases hmem

theorem InArrays.send {sessions : List SessionID} (h : sessions.length ≤ 6)
    (packet : SCMessage) : InArrays [.send sessions packet] := by
  intro sessions' packet' hmem
  cases List.mem_singleton.mp hmem
  exact h

theorem InArrays.disconnect (sessionID : SessionID) : InArrays [.disconnect sessionID] := by
  intro sessions packet hmem
  cases List.mem_singleton.mp hmem

theorem finish_inArrays (f : FightContents) : InArrays f.finishFightAndRelease.2 := by
  intro sessions packet hmem
  simp [finishFightAndRelease, disconnectRemainingPlayers] at hmem

theorem placePlayer_inArrays (f : FightContents) (sessionID : SessionID) (id : Nat) (x : Int)
    (slot : Nat) (direction : UInt8) :
    InArrays (f.placePlayer sessionID id x slot direction).2 := by
  unfold placePlayer
  split
  · exact InArrays.nil
  · exact InArrays.send (by simp) _

theorem placeSlot_inArrays {acc : FightContents × List Effect} (h : InArrays acc.2)
    (i : Fin 3) : InArrays (placeSlot acc i).2 :=
  (h.append (placePlayer_inArrays _ _ _ _ _ _)).append (placePlayer_inArrays _ _ _ _ _ _)

theorem startFight_inArrays {f : FightContents} (h : f.startFight.1.playerMap.length ≤ 6) :
    InArrays f.startFight.2 := by
  have h₀ := @placeSlot_inArrays (f, []) InArrays.nil 0
  have h₁ := placeSlot_inArrays (placeSlot_inArrays h₀ 1) 2
  refine InArrays.append h₁ fun sessions packet hmem => ?_
  obtain ⟨entry, _, heq⟩ := List.mem_map.mp hmem
  rw [Effect.send.injEq] at heq
  rw [← heq.1, List.length_map]
  exact (List.length_filter_le _ _).trans h

theorem strike_inArrays {f : FightContents} (h : f.playerMap.length ≤ 6) (attacker : Player)
    (type : AttackType) (entry : SessionID × Player) :
    InArrays (f.strike attacker type entry).2 := by
  simp only [strike]
  refine InArrays.append ?_ (InArrays.send ?_ _)
  · split
    · exact InArrays.disconnect _
    · exact InArrays.nil
  · simpa only [collectAllSessions, written, PlayerMap.modify, List.length_map] using h

theorem Messaged.inArrays {sessionID : SessionID} {message : CSMessage} {now : UInt32}
    {out : FightContents × List Effect} (hout : Messaged f sessionID message now out)
    (h : f.playerMap.length ≤ 6) : InArrays out.2 := by
  have hacting : ∀ player, (f.acting sessionID message now player).playerMap.length ≤ 6 := by
    intro player
    simpa only [acting, written, PlayerMap.modify, List.length_map] using h
  have hothers : ∀ player,
      ((f.acting sessionID message now player).collectOtherSessions sessionID).length ≤ 6 := by
    intro player
    rw [collectOtherSessions, List.length_map]
    exact (List.length_filter_le _ _).trans (hacting player)
  cases hout with
  | refused effects hnone heffects =>
      rcases heffects with rfl | rfl
      · exact InArrays.nil
      · exact InArrays.disconnect sessionID
  | acted player packet hpacket haccepted hnone => exact InArrays.send (hothers player) packet
  | struck player packet hpacket type entry haccepted hhit =>
      exact (InArrays.send (hothers player) packet).append
        (strike_inArrays (hacting player) _ type entry)

/-- **The arrays are not overrun** while six players at most are in the map. -/
theorem fightStep_inArrays {event : FightEvent} (hbefore : f.playerMap.length ≤ 6)
    (hafter : (fightStep f event).1.playerMap.length ≤ 6) : InArrays (fightStep f event).2 := by
  cases event with
  | enter sessionID found moved =>
      simp only [fightStep, onEnter] at hafter ⊢
      split_ifs at hafter ⊢
      · exact finish_inArrays _
      · exact startFight_inArrays hafter
      · exact InArrays.nil
  | leave sessionID =>
      have hothers : ∀ player : Player, InArrays (f.removePlayer sessionID player).2 := by
        intro player
        refine InArrays.send ?_ _
        rw [List.length_map]
        refine (List.length_filter_le _ _).trans ?_
        cases player.team <;> exact hbefore
      simp only [fightStep, onLeave]
      split
      · exact InArrays.nil
      · split
        · exact (hothers _).append (finish_inArrays _)
        · exact hothers _
  | update now => exact InArrays.nil
  | message sessionID message now =>
      exact (f.procMessage_messaged sessionID message now).inArrays hbefore
  | rehash order => exact InArrays.nil

/-! ## Whole runs -/

theorem step_slotSession (f : FightContents) (event : FightEvent) :
    (fightStep f event).1.slotSession = f.slotSession := by
  obtain ⟨_, _, hred, hblue⟩ := f.fightStep_init event
  exact slotSession_congr hred hblue

theorem Distinct.step (h : f.Distinct) (event : FightEvent) : (fightStep f event).1.Distinct := by
  rw [Distinct, sessions_eq, step_slotSession, ← sessions_eq]
  exact h

theorem input_entering (pool : SessionID → Player) (f : FightContents) (input : FightInput) :
    (input.event pool f).entering = input.slot.map fun slot => f.slotSession slot.1 slot.2 := by
  cases input <;> rfl

/-- A run in which no slot is entered twice, or is taken before, keeps the roster. -/
theorem Roster.run {inputs : List FightInput} (h : f.Roster) (hdistinct : f.Distinct)
    (hslots : (inputs.filterMap FightInput.slot).Nodup)
    (hnew : ∀ slot ∈ inputs.filterMap FightInput.slot,
      f.slotSession slot.1 slot.2 ∉ f.playerMap.keys) : (inputRun pool f inputs).Roster := by
  induction inputs generalizing f with
  | nil => exact h
  | cons input inputs ih =>
      have hfirst : ∀ team slot, input.slot = some (team, slot) →
          f.slotSession team slot ∉ f.playerMap.keys := by
        intro team slot hslot
        exact hnew (team, slot) (List.mem_filterMap.mpr ⟨input, List.mem_cons_self, hslot⟩)
      have hrest : ∀ slot ∈ inputs.filterMap FightInput.slot,
          slot ∈ (input :: inputs).filterMap FightInput.slot := by
        intro slot hslot
        obtain ⟨later, hlater, heq⟩ := List.mem_filterMap.mp hslot
        exact List.mem_filterMap.mpr ⟨later, List.mem_cons_of_mem _ hlater, heq⟩
      refine ih (h.step hdistinct hfirst) (hdistinct.step _) ?_ fun slot hslot hkey => ?_
      · rw [List.filterMap_cons] at hslots
        split at hslots
        · exact hslots
        · exact (List.nodup_cons.mp hslots).2
      · rw [step_slotSession] at hkey
        rcases fightStep_keys hkey with hold | hentering
        · exact hnew slot (hrest slot hslot) hold
        · rw [input_entering, Option.map_eq_some_iff] at hentering
          obtain ⟨entered, hentered, heq⟩ := hentering
          have hsame : entered = slot := hdistinct.slot_eq heq
          rw [List.filterMap_cons, hentered, hsame] at hslots
          exact (List.nodup_cons.mp hslots).1 hslot

theorem inputRun_append (pool : SessionID → Player) (f : FightContents)
    (inputs more : List FightInput) :
    inputRun pool f (inputs ++ more) = inputRun pool (inputRun pool f inputs) more :=
  List.foldl_append

theorem fightRun_inputEvents (pool : SessionID → Player) (f : FightContents)
    (inputs : List FightInput) :
    fightRun f (inputEvents pool f inputs) = inputRun pool f inputs := by
  induction inputs generalizing f with
  | nil => rfl
  | cons input inputs ih => exact ih _

theorem inputEvents_append (pool : SessionID → Player) (f : FightContents)
    (inputs more : List FightInput) :
    inputEvents pool f (inputs ++ more) =
      inputEvents pool f inputs ++ inputEvents pool (inputRun pool f inputs) more := by
  induction inputs generalizing f with
  | nil => rfl
  | cons input inputs ih => exact congrArg (List.cons _) (ih _)

theorem inputEvents_entering (pool : SessionID → Player) (f : FightContents)
    (inputs : List FightInput) :
    (inputEvents pool f inputs).filterMap FightEvent.entering =
      (inputs.filterMap FightInput.slot).map fun slot => f.slotSession slot.1 slot.2 := by
  induction inputs generalizing f with
  | nil => rfl
  | cons input inputs ih =>
      rw [inputEvents, List.filterMap_cons, List.filterMap_cons, input_entering, ih,
        step_slotSession]
      cases input.slot <;> rfl

/-- The enter events of such a run are among the six posted for the match. -/
theorem inputEvents_scheduled {pooled : FightContents} {contentsNum : ContentsNum}
    {matchID : Int} {group : Group} {inputs : List FightInput}
    (hslots : (inputs.filterMap FightInput.slot).Nodup) :
    Scheduled group
      (inputEvents pool (newFight pooled contentsNum matchID group) inputs) := by
  rw [Scheduled, inputEvents_entering]
  obtain ⟨posted, hperm, hsub⟩ := hslots.subperm fun slot _ => mem_allSlots slot
  exact ⟨posted.map _, hperm.map _, hsub.map _⟩

/-! ## IDs -/

/-- The players have the IDs of the slots of their sessions. -/
def SlotIDs (f : FightContents) : Prop :=
  ∀ entry ∈ f.playerMap, ∃ slot : Fin 3,
    (entry.1 = f.red slot ∧ entry.2.id = UInt32.ofNat slot) ∨
      (entry.1 = f.blue slot ∧ entry.2.id = UInt32.ofNat (slot + 3))

theorem SlotIDs.step (h : f.SlotIDs) {event : FightEvent} (hevent : event.entering = none) :
    (fightStep f event).1.SlotIDs := by
  intro entry hmem
  obtain ⟨_, _, hred, hblue⟩ := f.fightStep_init event
  obtain ⟨old, hold, hkey, hid, _⟩ := fightStep_from hevent hmem
  rw [hred, hblue, hkey, hid]
  exact h old hold

theorem SlotIDs.run {events : List FightEvent} (h : f.SlotIDs)
    (hevents : ∀ event ∈ events, event.entering = none) : (fightRun f events).SlotIDs := by
  induction events generalizing f with
  | nil => exact h
  | cons event events ih =>
      exact ih (h.step (hevents event List.mem_cons_self))
        fun later hlater => hevents later (List.mem_cons_of_mem _ hlater)

/-- With the roster, the IDs go with the teams and are distinct. -/
theorem SlotIDs.numbered (h : f.SlotIDs) (hroster : f.Roster) (hdistinct : f.Distinct) :
    Numbered f := by
  have hids : ∀ entry ∈ f.playerMap, ∃ slot : Fin 3,
      (entry.2.team = .red ∧ entry.1 = f.red slot ∧ entry.2.id = UInt32.ofNat slot) ∨
        (entry.2.team = .blue ∧ entry.1 = f.blue slot ∧ entry.2.id = UInt32.ofNat (slot + 3)) := by
    intro entry hmem
    obtain ⟨own, hown⟩ := hroster.inSlots entry hmem
    obtain ⟨slot, ⟨hkey, hid⟩ | ⟨hkey, hid⟩⟩ := h entry hmem
    · have hsame := hdistinct.slot_eq (show f.slotSession entry.2.team own =
        f.slotSession .red slot from hown.symm.trans hkey)
      exact ⟨slot, Or.inl ⟨(Prod.mk.inj hsame).1, hkey, hid⟩⟩
    · have hsame := hdistinct.slot_eq (show f.slotSession entry.2.team own =
        f.slotSession .blue slot from hown.symm.trans hkey)
      exact ⟨slot, Or.inr ⟨(Prod.mk.inj hsame).1, hkey, hid⟩⟩
  refine ⟨hids, List.Nodup.map_on (fun a ha b hb hab => ?_) (List.Nodup.of_map _ hroster.nodup)⟩
  -- The IDs 0 .. 5 are different numbers, so that one ID is one slot.
  have hred : ∀ i j : Fin 3, UInt32.ofNat i = UInt32.ofNat j → i = j := by decide
  have hblue : ∀ i j : Fin 3, UInt32.ofNat (i + 3) = UInt32.ofNat (j + 3) → i = j := by decide
  have hacross : ∀ i j : Fin 3, UInt32.ofNat i ≠ UInt32.ofNat (j + 3) := by decide
  refine PlayerMap.eq_of_key hroster.nodup ha hb ?_
  obtain ⟨i, ⟨_, hkeyA, hidA⟩ | ⟨_, hkeyA, hidA⟩⟩ := hids a ha
  · obtain ⟨j, ⟨_, hkeyB, hidB⟩ | ⟨_, hkeyB, hidB⟩⟩ := hids b hb
    · rw [hkeyA, hkeyB, hred i j (hidA.symm.trans (hab.trans hidB))]
    · exact absurd (hidA.symm.trans (hab.trans hidB)) (hacross i j)
  · obtain ⟨j, ⟨_, hkeyB, hidB⟩ | ⟨_, hkeyB, hidB⟩⟩ := hids b hb
    · exact absurd (hidB.symm.trans (hab.symm.trans hidA)) (hacross j i)
    · rw [hkeyA, hkeyB, hblue i j (hidA.symm.trans (hab.trans hidB))]

end FightContents

/-- The start values of a slot come with its ID. -/
theorem Spawned.slotID {red blue : Fin 3 → SessionID} {entry : SessionID × Player}
    (h : Spawned red blue entry) : ∃ slot : Fin 3,
      (entry.1 = red slot ∧ entry.2.id = UInt32.ofNat slot) ∨
        (entry.1 = blue slot ∧ entry.2.id = UInt32.ofNat (slot + 3)) := by
  obtain ⟨slot, player, rfl | rfl⟩ := h
  · exact ⟨slot, Or.inl ⟨rfl, rfl⟩⟩
  · exact ⟨slot, Or.inr ⟨rfl, rfl⟩⟩

section

variable {pool : SessionID → Player} {pooled : FightContents} {contentsNum : ContentsNum}
  {matchID : Int} {group : Group}

theorem newFight_roster (pooled : FightContents) (contentsNum : ContentsNum) (matchID : Int)
    (group : Group) : (newFight pooled contentsNum matchID group).Roster where
  nodup := List.nodup_nil
  inSlots _ hmem := absurd hmem List.not_mem_nil
  counts team := by cases team <;> rfl

theorem inputRun_slots (inputs : List FightInput) :
    (inputRun pool (newFight pooled contentsNum matchID group) inputs).red = group.red ∧
      (inputRun pool (newFight pooled contentsNum matchID group) inputs).blue = group.blue := by
  rw [← fightRun_inputEvents]
  exact fightRun_slots _ _

/-- A run of inputs that starts the fight, as events. -/
theorem startedRun_of_inputs {earlier later : List FightInput} {input : FightInput}
    (hslots : ((earlier ++ input :: later).filterMap FightInput.slot).Nodup)
    (hstarts : Starts (inputRun pool (newFight pooled contentsNum matchID group) earlier)
      (input.event pool (inputRun pool (newFight pooled contentsNum matchID group) earlier))) :
    StartedRun pooled contentsNum matchID group
      (inputEvents pool (newFight pooled contentsNum matchID group) earlier)
      (input.event pool (inputRun pool (newFight pooled contentsNum matchID group) earlier))
      (inputEvents pool (inputRun pool (newFight pooled contentsNum matchID group)
        (earlier ++ [input])) later) := by
  have hscheduled := @inputEvents_scheduled pool pooled contentsNum matchID group _ hslots
  rw [inputEvents_append, inputEvents] at hscheduled
  refine ⟨?_, ?_⟩
  · rwa [inputRun_append]
  · rwa [fightRun_inputEvents]

/-- From the start on the players have the IDs of the slots. -/
theorem slotIDs_of_inputs {earlier later : List FightInput} {input : FightInput}
    (hslots : ((earlier ++ input :: later).filterMap FightInput.slot).Nodup)
    (hstarts : Starts (inputRun pool (newFight pooled contentsNum matchID group) earlier)
      (input.event pool (inputRun pool (newFight pooled contentsNum matchID group) earlier))) :
    (inputRun pool (newFight pooled contentsNum matchID group)
      (earlier ++ input :: later)).SlotIDs := by
  have hrun := startedRun_of_inputs hslots hstarts
  have hstarted : startedFight pooled contentsNum matchID group
      (inputEvents pool (newFight pooled contentsNum matchID group) earlier)
      (input.event pool (inputRun pool (newFight pooled contentsNum matchID group) earlier)) =
        inputRun pool (newFight pooled contentsNum matchID group) (earlier ++ [input]) := by
    rw [startedFight, fightRun_inputEvents, inputRun_append]
    rfl
  have hids : (inputRun pool (newFight pooled contentsNum matchID group)
      (earlier ++ [input])).SlotIDs := by
    intro entry hmem
    obtain ⟨hred, hblue⟩ := @inputRun_slots pool pooled contentsNum matchID group
      (earlier ++ [input])
    rw [← hstarted] at hmem
    rw [hred, hblue]
    exact Spawned.slotID (hrun.spawned entry hmem)
  have hlater := hids.run hrun.no_enter
  rwa [fightRun_inputEvents, ← inputRun_append, List.append_assoc] at hlater

/-- **The roster of a fight.**  In every run of a fight of six distinct sessions that enters
each slot at most once: the counters are the numbers of the players of the teams, everybody is
in a slot of the own team, the arrays of sessions are not overrun, and from the sixth enter
event on, if it does not end the fight, the IDs are those of the slots. -/
theorem roster_kept {inputs : List FightInput} (hgroup : group.sessions.Nodup)
    (hslots : (inputs.filterMap FightInput.slot).Nodup) :
    Rostered (inputRun pool (newFight pooled contentsNum matchID group) inputs) ∧
      ∀ earlier input later, inputs = earlier ++ input :: later →
        let f := inputRun pool (newFight pooled contentsNum matchID group) earlier
        InArrays (fightStep f (input.event pool f)).2 ∧
          (Starts f (input.event pool f) →
            Numbered (inputRun pool (newFight pooled contentsNum matchID group) inputs)) := by
  have hroster : ∀ run, run <+: inputs →
      (inputRun pool (newFight pooled contentsNum matchID group) run).Roster := by
    intro run hrun
    refine (newFight_roster pooled contentsNum matchID group).run hgroup ?_ ?_
    · exact hslots.sublist (hrun.sublist.filterMap _)
    · exact fun _ _ => List.not_mem_nil
  have hdistinct : (inputRun pool (newFight pooled contentsNum matchID group) inputs).Distinct := by
    obtain ⟨hred, hblue⟩ := @inputRun_slots pool pooled contentsNum matchID group inputs
    rw [Distinct, hred, hblue]
    exact hgroup
  refine ⟨(hroster inputs List.prefix_rfl).rostered hdistinct, ?_⟩
  rintro earlier input later rfl f
  have hafter := hroster (earlier ++ [input]) ⟨later, by simp⟩
  rw [inputRun_append] at hafter
  refine ⟨fightStep_inArrays (hroster earlier (List.prefix_append _ _)).size_le hafter.size_le,
    fun hstarts => ?_⟩
  exact (slotIDs_of_inputs hslots hstarts).numbered (hroster _ List.prefix_rfl) hdistinct

end

/-! ## A match -/

/-- All six enter, the blue team first, and one red player leaves. -/
def firstInputs : List FightInput :=
  [.enter .blue 2 true true, .enter .blue 0 true true, .enter .blue 1 true true,
   .enter .red 0 true true, .enter .red 2 true true, .enter .red 1 true true,
   .leave (firstSession 1)]

/-- The pool object a session has got, before it has a team. -/
def firstPool (_ : SessionID) : Player := firstPlayer 0 .red

theorem firstInputs_rostered :
    Rostered (inputRun firstPool firstFight firstInputs) ∧
      Numbered (inputRun firstPool firstFight firstInputs) := by
  obtain ⟨hgroup, hslots, hstarts⟩ : firstGroup.sessions.Nodup ∧
      (firstInputs.filterMap FightInput.slot).Nodup ∧
      Starts (inputRun firstPool firstFight (firstInputs.take 5))
        (FightInput.event firstPool (inputRun firstPool firstFight (firstInputs.take 5))
          (.enter .red 1 true true)) := by
    decide +kernel
  obtain ⟨hroster, hevents⟩ := @roster_kept firstPool pooledFight 1 1 firstGroup firstInputs
    hgroup hslots
  exact ⟨hroster, (hevents (firstInputs.take 5) _ _ rfl).2 hstarts⟩

end SessionServer.Battle
