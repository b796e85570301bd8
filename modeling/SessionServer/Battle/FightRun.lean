/-
  Battle/FightRun.lean --- what one event of a fight can do, and what follows for
  whole runs.

  Messages, updates and rehashes never touch the counters that decide a fight
  (`Quiet`).  Only an enter or a leave event does, and both end in the same test,
  `CheckGameEnd() && _end`.  `fightStep_cases` says this once; the run results are
  read off it.
-/
import SessionServer.Battle.Fight
import SessionServer.Battle.Rows

set_option autoImplicit false

namespace SessionServer.Battle

/-! ## Keys of the player map -/

namespace PlayerMap

/-- The session IDs in the map. -/
def keys (m : PlayerMap) : List SessionID := m.map Prod.fst

/-- Every player is stored under its own session ID. -/
def Keyed (m : PlayerMap) : Prop := ∀ entry ∈ m, entry.2.sessionID = entry.1

/-- Writing through the pointers of `m` gave `m'`: the keys are the same, in some
order, and the players still sit under their own IDs. -/
structure Kept (m m' : PlayerMap) : Prop where
  keys : m'.keys.Perm m.keys
  keyed : m.Keyed → m'.Keyed

theorem Kept.refl (m : PlayerMap) : m.Kept m := ⟨List.Perm.refl _, id⟩

theorem Kept.trans {m m' m'' : PlayerMap} (h : m.Kept m') (h' : m'.Kept m'') : m.Kept m'' :=
  ⟨h'.keys.trans h.keys, fun hk => h'.keyed (h.keyed hk)⟩

theorem Kept.perm {m m' : PlayerMap} (h : m'.Perm m) : m.Kept m' :=
  ⟨h.map Prod.fst, fun hk entry hmem => hk entry (h.mem_iff.mp hmem)⟩

/-- A write to every player that keeps the session IDs. -/
theorem Kept.map {m : PlayerMap} {write : SessionID × Player → SessionID × Player}
    (hkey : ∀ entry, (write entry).1 = entry.1)
    (hid : ∀ entry, (write entry).2.sessionID = entry.2.sessionID) : m.Kept (m.map write) where
  keys := by
    simp only [PlayerMap.keys, List.map_map]
    refine List.Perm.of_eq (List.map_congr_left fun entry _ => hkey entry)
  keyed := by
    intro hk entry hmem
    obtain ⟨old, hold, rfl⟩ := List.mem_map.mp hmem
    rw [hid, hkey, hk old hold]

theorem mem_of_find {m : PlayerMap} {sessionID : SessionID} {player : Player}
    (h : m.find sessionID = some player) : (sessionID, player) ∈ m := by
  unfold find at h
  induction m with
  | nil => simp at h
  | cons entry m ih =>
      rw [List.lookup_cons] at h
      split at h
      · rename_i heq
        simp only [beq_iff_eq] at heq
        simp only [Option.some.injEq] at h
        exact List.mem_cons.mpr (Or.inl (by rw [heq, ← h]))
      · exact List.mem_cons_of_mem _ (ih h)

theorem mem_keys_insert {m : PlayerMap} {sessionID : SessionID} {player : Player}
    {id : SessionID} : id ∈ (m.insert sessionID player).keys ↔ id = sessionID ∨ id ∈ m.keys := by
  unfold PlayerMap.insert
  split
  · rename_i hsome
    refine ⟨Or.inr, ?_⟩
    rintro (rfl | h)
    · obtain ⟨old, hold⟩ := Option.isSome_iff_exists.mp hsome
      exact List.mem_map_of_mem (mem_of_find hold)
    · exact h
  · simp [PlayerMap.keys]

theorem mem_keys_erase {m : PlayerMap} {sessionID id : SessionID} :
    id ∈ (m.erase sessionID).keys ↔ id ∈ m.keys ∧ id ≠ sessionID := by
  simp only [PlayerMap.keys, PlayerMap.erase, List.mem_map, List.mem_filter]
  constructor
  · rintro ⟨entry, ⟨hmem, hne⟩, rfl⟩
    exact ⟨⟨entry, hmem, rfl⟩, by simpa using hne⟩
  · rintro ⟨⟨entry, hmem, rfl⟩, hne⟩
    exact ⟨entry, ⟨hmem, by simpa using hne⟩, rfl⟩

/-- A write to the player of an entry. -/
theorem Kept.modify {m : PlayerMap} {sessionID : SessionID} {player player' : Player}
    (hmem : (sessionID, player) ∈ m) (hid : player'.sessionID = player.sessionID) :
    m.Kept (m.modify sessionID fun _ => player') where
  keys := by
    simp only [PlayerMap.keys, PlayerMap.modify, List.map_map]
    refine List.Perm.of_eq (List.map_congr_left fun entry _ => ?_)
    simp only [Function.comp_apply]
    split <;> rfl
  keyed := by
    intro hk entry hmem'
    obtain ⟨old, hold, rfl⟩ := List.mem_map.mp hmem'
    split
    · rename_i heq
      rw [hid, hk _ hmem, heq]
    · exact hk old hold

end PlayerMap

/-! ## Quiet handlers -/

/-- The requests only `FinishFightAndRelease` makes. -/
def Effect.isFinish : Effect → Bool
  | .send _ _ => false
  | .disconnect _ => false
  | .requestSave _ => true
  | .fightFree => true

/-- No finishing request is among the effects. -/
def QuietEffects (effects : List Effect) : Prop := ∀ effect ∈ effects, effect.isFinish = false

/-- The handler left everything but what the players hold, the clock and `_winLoss`
alone, and finished nothing. -/
structure Quiet (f : FightContents) (out : FightContents × List Effect) : Prop where
  state : ∃ players tick winLoss, f.playerMap.Kept players ∧
    out.1 = { f with playerMap := players, oldTick := tick, winLoss := winLoss }
  effects : QuietEffects out.2

theorem QuietEffects.nil : QuietEffects [] := by
  intro effect h
  cases h

theorem QuietEffects.append {xs ys : List Effect} (hx : QuietEffects xs)
    (hy : QuietEffects ys) : QuietEffects (xs ++ ys) := by
  intro effect h
  rcases List.mem_append.mp h with h | h
  · exact hx effect h
  · exact hy effect h

theorem QuietEffects.send (sessions : List SessionID) (message : SCMessage) :
    QuietEffects [.send sessions message] := by
  intro effect h
  rw [List.mem_singleton.mp h]
  rfl

theorem QuietEffects.disconnect (sessionID : SessionID) :
    QuietEffects [.disconnect sessionID] := by
  intro effect h
  rw [List.mem_singleton.mp h]
  rfl

theorem QuietEffects.requestSave_notMem {effects : List Effect} (h : QuietEffects effects)
    (result : BattleResult) : .requestSave result ∉ effects := by
  intro hmem
  cases h _ hmem

/-- Doing nothing, with quiet effects. -/
theorem Quiet.same (f : FightContents) {effects : List Effect} (h : QuietEffects effects) :
    Quiet f (f, effects) :=
  ⟨⟨f.playerMap, f.oldTick, f.winLoss, PlayerMap.Kept.refl _, rfl⟩, h⟩

/-- Changing the players only. -/
theorem Quiet.players (f : FightContents) {players : PlayerMap} {effects : List Effect}
    (hkept : f.playerMap.Kept players) (h : QuietEffects effects) :
    Quiet f ({ f with playerMap := players }, effects) :=
  ⟨⟨players, f.oldTick, f.winLoss, hkept, rfl⟩, h⟩

/-- A quiet handler after a quiet handler. -/
theorem Quiet.trans {f : FightContents} {first second : FightContents × List Effect}
    (h₁ : Quiet f first) (h₂ : Quiet first.1 second) :
    Quiet f (second.1, first.2 ++ second.2) := by
  obtain ⟨⟨p₁, t₁, w₁, k₁, e₁⟩, q₁⟩ := h₁
  obtain ⟨⟨p₂, t₂, w₂, k₂, e₂⟩, q₂⟩ := h₂
  rw [e₁] at k₂
  refine ⟨⟨p₂, t₂, w₂, k₁.trans k₂, ?_⟩, q₁.append q₂⟩
  rw [e₂, e₁]

namespace FightContents

theorem attackPlayer_quiet (f : FightContents) (attacker : Player) (type : AttackType) :
    Quiet f (f.attackPlayer attacker type) := by
  unfold attackPlayer
  split
  · exact Quiet.same f QuietEffects.nil
  · rename_i entry hfind
    refine Quiet.players f (PlayerMap.Kept.modify (List.mem_of_find?_eq_some hfind) rfl)
      (QuietEffects.append ?_ (QuietEffects.send _ _))
    split
    · exact QuietEffects.disconnect _
    · exact QuietEffects.nil

/-- The handlers of the client messages begin with the same checks. -/
theorem checked_rule {f : FightContents} {sessionID : SessionID} {dir : UInt8} {x y : UInt16}
    {body : Player → FightContents × List Effect} {P : FightContents × List Effect → Prop}
    (hinvalid : isValidMoveDirection dir = false → P (f, [.disconnect sessionID]))
    (hunknown : f.playerMap.find sessionID = none → P (f, []))
    (hout : ∀ player, f.playerMap.find sessionID = some player →
      isPositionSyncValid player x y = false → P (f, [.disconnect sessionID]))
    (hbody : isValidMoveDirection dir = true → ∀ player,
      f.playerMap.find sessionID = some player → isPositionSyncValid player x y = true →
        P (body player)) :
    P (if !isValidMoveDirection dir then (f, [.disconnect sessionID])
      else match f.playerMap.find sessionID with
      | none => (f, [])
      | some player =>
          if !isPositionSyncValid player x y then (f, [.disconnect sessionID])
          else body player) := by
  split
  · rename_i hdir
    exact hinvalid (by simpa using hdir)
  · rename_i hdir
    split
    · rename_i hfind
      exact hunknown hfind
    · rename_i player hfind
      split
      · rename_i hsync
        exact hout player hfind (by simpa using hsync)
      · rename_i hsync
        exact hbody (by simpa using hdir) player hfind (by simpa using hsync)

theorem checked_quiet {f : FightContents} {sessionID : SessionID} {dir : UInt8} {x y : UInt16}
    {body : Player → FightContents × List Effect}
    (hbody : ∀ player, f.playerMap.find sessionID = some player → Quiet f (body player)) :
    Quiet f
      (if !isValidMoveDirection dir then (f, [.disconnect sessionID])
      else match f.playerMap.find sessionID with
      | none => (f, [])
      | some player =>
          if !isPositionSyncValid player x y then (f, [.disconnect sessionID])
          else body player) :=
  checked_rule (fun _ => Quiet.same f (QuietEffects.disconnect _))
    (fun _ => Quiet.same f QuietEffects.nil)
    (fun _ _ _ => Quiet.same f (QuietEffects.disconnect _))
    fun _ player hfind _ => hbody player hfind

theorem procCSMoveStart_quiet (f : FightContents) (sessionID : SessionID) (dir : UInt8)
    (x y : UInt16) (now : UInt32) : Quiet f (f.procCSMoveStart sessionID dir x y now) := by
  refine checked_quiet fun player hfind => ?_
  split
  · exact Quiet.same f QuietEffects.nil
  · split
    · exact Quiet.same f QuietEffects.nil
    · exact Quiet.players f (PlayerMap.Kept.modify (PlayerMap.mem_of_find hfind) rfl)
        (QuietEffects.send _ _)

theorem procCSMoveStop_quiet (f : FightContents) (sessionID : SessionID) (dir : UInt8)
    (x y : UInt16) : Quiet f (f.procCSMoveStop sessionID dir x y) := by
  refine checked_quiet fun player hfind => ?_
  split
  · exact Quiet.same f QuietEffects.nil
  · exact Quiet.players f (PlayerMap.Kept.modify (PlayerMap.mem_of_find hfind) rfl)
      (QuietEffects.send _ _)

theorem procCSAttack_quiet (f : FightContents) (type : AttackType) (sessionID : SessionID)
    (dir : UInt8) (x y : UInt16) (now : UInt32) :
    Quiet f (f.procCSAttack type sessionID dir x y now) := by
  refine checked_quiet fun player hfind => ?_
  split
  · exact Quiet.same f QuietEffects.nil
  · refine Quiet.trans
      (Quiet.players f (PlayerMap.Kept.modify (PlayerMap.mem_of_find hfind) ?_)
        (QuietEffects.send _ _))
      (attackPlayer_quiet _ _ type)
    rfl

/-- The three attack handlers are one but for the attack type. -/
theorem procMessage_attack (f : FightContents) (type : AttackType) (sessionID : SessionID)
    (dir : UInt8) (x y : UInt16) (now : UInt32) :
    f.procMessage sessionID (.attack type dir x y) now =
      f.procCSAttack type sessionID dir x y now := by
  cases type <;> rfl

theorem procMessage_quiet (f : FightContents) (sessionID : SessionID) (message : CSMessage)
    (now : UInt32) : Quiet f (f.procMessage sessionID message now) := by
  cases message with
  | moveStart dir x y => exact procCSMoveStart_quiet f sessionID dir x y now
  | moveStop dir x y => exact procCSMoveStop_quiet f sessionID dir x y
  | attack type dir x y =>
      rw [procMessage_attack]
      exact procCSAttack_quiet f type sessionID dir x y now
  | other => exact Quiet.same f (QuietEffects.disconnect sessionID)

theorem placePlayer_quiet (f : FightContents) (sessionID : SessionID) (id : Nat) (x : Int)
    (slot : Nat) (direction : UInt8) :
    Quiet f (f.placePlayer sessionID id x slot direction) := by
  unfold placePlayer
  split
  · exact Quiet.same f QuietEffects.nil
  · rename_i hfind
    exact Quiet.players f (PlayerMap.Kept.modify (PlayerMap.mem_of_find hfind) rfl)
      (QuietEffects.send _ _)

theorem placeSlot_quiet {f : FightContents} {acc : FightContents × List Effect}
    (h : Quiet f acc) (i : Fin 3) : Quiet f (placeSlot acc i) := by
  have hr := h.trans (placePlayer_quiet acc.1 (acc.1.red i) i REDX i dfPACKET_MOVE_DIR_RR)
  exact hr.trans (placePlayer_quiet _ _ (i + 3) BLUEX i dfPACKET_MOVE_DIR_LL)

theorem startFight_quiet (f : FightContents) : Quiet f f.startFight := by
  have hplaced : ∀ (slots : List (Fin 3)) (acc : FightContents × List Effect),
      Quiet f acc → Quiet f (slots.foldl placeSlot acc) := by
    intro slots
    induction slots with
    | nil => intro acc h; exact h
    | cons i slots ih => intro acc h; exact ih _ (placeSlot_quiet h i)
  have h := hplaced [0, 1, 2] (f, []) (Quiet.same f QuietEffects.nil)
  refine ⟨h.state, h.effects.append ?_⟩
  intro effect hmem
  obtain ⟨entry, _, rfl⟩ := List.mem_map.mp hmem
  rfl

theorem applyMovement_sessionID (player : Player) (frame : Int) :
    (applyMovement player frame).sessionID = player.sessionID := by
  unfold applyMovement
  split
  · rfl
  · simp only
    split <;> rfl

/-! ## The end test -/

/-- The number of players of a team that are counted in. -/
def count (f : FightContents) : Team → Int
  | .red => f.redCount
  | .blue => f.blueCount

/-- Some team has nobody counted in. -/
def TeamEmpty (f : FightContents) : Prop := f.redCount = 0 ∨ f.blueCount = 0

instance (f : FightContents) : Decidable f.TeamEmpty :=
  inferInstanceAs (Decidable (_ ∨ _))

theorem checkGameEnd_snd (f : FightContents) : f.checkGameEnd.2 = decide f.TeamEmpty := by
  unfold checkGameEnd TeamEmpty
  split
  · simp_all
  · split <;> simp_all

/-- `CheckGameEnd` writes `_winLoss` and nothing else. -/
theorem checkGameEnd_fst (f : FightContents) :
    ∃ winLoss, f.checkGameEnd.1 = { f with winLoss := winLoss } := by
  unfold checkGameEnd
  split
  · exact ⟨1, rfl⟩
  · split
    · exact ⟨2, rfl⟩
    · exact ⟨f.winLoss, rfl⟩

theorem checkGameEnd_quiet (f : FightContents) : Quiet f (f.checkGameEnd.1, []) := by
  obtain ⟨winLoss, h⟩ := f.checkGameEnd_fst
  exact ⟨⟨f.playerMap, f.oldTick, winLoss, PlayerMap.Kept.refl _, h⟩, QuietEffects.nil⟩

/-! ## One event -/

/-- The contents after the counting part of an event, before any end test. -/
def counted (f : FightContents) : FightEvent → FightContents
  | .enter sessionID found moved => f.countEnter sessionID found moved
  | .leave sessionID =>
      match f.playerMap.find sessionID with
      | none => f
      | some player => (f.removePlayer sessionID player).1
  | .update _ => f
  | .message _ _ _ => f
  | .rehash _ => f

/-- The event reaches the test `CheckGameEnd() && _end`. -/
def Tested (f : FightContents) : FightEvent → Prop
  | .enter _ _ _ => f.matched + 1 ≥ 6
  | .leave sessionID => (f.playerMap.find sessionID).isSome
  | .update _ => False
  | .message _ _ _ => False
  | .rehash _ => False

/-- The event ends the fight. -/
def Ends (f : FightContents) (event : FightEvent) : Prop :=
  f.Tested event ∧ (f.counted event).end_ = true ∧ (f.counted event).TeamEmpty

theorem enterPlayer_eq (f : FightContents) (sessionID : SessionID) (player : Player) :
    f.enterPlayer sessionID player =
      { f with
          playerMap := f.playerMap.insert sessionID { player with contents := f.contentsNum }
          redCount := f.redCount + if player.team = .red then 1 else 0
          blueCount := f.blueCount + if player.team = .blue then 1 else 0 } := by
  unfold enterPlayer
  cases h : player.team <;> simp

theorem removePlayer_fst (f : FightContents) (sessionID : SessionID) (player : Player) :
    (f.removePlayer sessionID player).1 =
      { f with
          playerMap := f.playerMap.erase sessionID
          redCount := f.redCount - if player.team = .red then 1 else 0
          blueCount := f.blueCount - if player.team = .blue then 1 else 0 } := by
  unfold removePlayer
  cases h : player.team <;> simp

theorem countEnter_frame (f : FightContents) (sessionID : SessionID) (found : Option Player)
    (moved : Bool) :
    ∃ players red blue, f.countEnter sessionID found moved =
      { f with playerMap := players, redCount := red, blueCount := blue,
               matched := f.matched + 1 } := by
  unfold countEnter
  cases found with
  | none => exact ⟨_, _, _, rfl⟩
  | some player =>
      cases moved with
      | false => exact ⟨_, _, _, rfl⟩
      | true =>
          simp only [if_true, enterPlayer_eq]
          exact ⟨_, _, _, rfl⟩

theorem countEnter_matched (f : FightContents) (sessionID : SessionID) (found : Option Player)
    (moved : Bool) : (f.countEnter sessionID found moved).matched = f.matched + 1 := by
  obtain ⟨players, red, blue, h⟩ := f.countEnter_frame sessionID found moved
  rw [h]

/-- Counting changes the players and the three counters only. -/
theorem counted_frame (f : FightContents) (event : FightEvent) :
    ∃ players red blue matched, f.counted event =
      { f with playerMap := players, redCount := red, blueCount := blue,
               matched := matched } := by
  cases event with
  | enter sessionID found moved =>
      obtain ⟨players, red, blue, h⟩ := f.countEnter_frame sessionID found moved
      exact ⟨players, red, blue, f.matched + 1, h⟩
  | leave sessionID =>
      simp only [counted]
      split
      · exact ⟨_, _, _, _, rfl⟩
      · exact ⟨_, _, _, _, removePlayer_fst f sessionID _⟩
  | update now => exact ⟨_, _, _, _, rfl⟩
  | message sessionID message now => exact ⟨_, _, _, _, rfl⟩
  | rehash order => exact ⟨_, _, _, _, rfl⟩

/-- The two outcomes of the end test. -/
theorem guardedFinish (f : FightContents) (pre : List Effect) (hpre : QuietEffects pre)
    (next : FightContents × List Effect)
    (hnext : Quiet f.checkGameEnd.1 next) :
    let checked := f.checkGameEnd
    let out := if checked.2 && checked.1.end_ then
        (checked.1.finishFightAndRelease.1, pre ++ checked.1.finishFightAndRelease.2)
      else (next.1, pre ++ next.2)
    (f.end_ = true ∧ f.TeamEmpty ∧
      out = (checked.1.finishFightAndRelease.1, pre ++ checked.1.finishFightAndRelease.2)) ∨
    (¬ (f.end_ = true ∧ f.TeamEmpty) ∧ Quiet f out) := by
  intro checked out
  have hend : checked.1.end_ = f.end_ := by
    obtain ⟨winLoss, h⟩ := f.checkGameEnd_fst
    rw [show checked.1 = _ from h]
  have htest : (checked.2 && checked.1.end_) = true ↔ f.end_ = true ∧ f.TeamEmpty := by
    rw [hend, show checked.2 = decide f.TeamEmpty from f.checkGameEnd_snd]
    simp [and_comm]
  by_cases h : f.end_ = true ∧ f.TeamEmpty
  · left
    refine ⟨h.1, h.2, ?_⟩
    simp only [out, htest.mpr h, if_true]
  · right
    refine ⟨h, ?_⟩
    have hfalse : ¬ (checked.2 && checked.1.end_) = true := fun hc => h (htest.mp hc)
    have hquiet : Quiet f (checked.1, pre) := ⟨f.checkGameEnd_quiet.state, hpre⟩
    simp only [out, if_neg hfalse]
    exact hquiet.trans hnext

/-- **Everything one event can do.**  It ends the fight through
`FinishFightAndRelease` on the counted contents, or it is quiet after counting. -/
theorem fightStep_cases (f : FightContents) (event : FightEvent) :
    (f.Ends event ∧ ∃ pre, QuietEffects pre ∧
      fightStep f event =
        ((f.counted event).checkGameEnd.1.finishFightAndRelease.1,
          pre ++ (f.counted event).checkGameEnd.1.finishFightAndRelease.2)) ∨
    (¬ f.Ends event ∧ Quiet (f.counted event) (fightStep f event)) := by
  cases event with
  | enter sessionID found moved =>
      have hm := countEnter_matched f sessionID found moved
      simp only [fightStep, onEnter, Ends, counted, Tested, ← hm]
      by_cases h6 : (f.countEnter sessionID found moved).matched ≥ 6
      · have h := guardedFinish (f.countEnter sessionID found moved) [] QuietEffects.nil _
          (startFight_quiet (f.countEnter sessionID found moved).checkGameEnd.1)
        simp only [List.nil_append] at h
        simp only [h6, true_and]
        rcases h with ⟨hend, hempty, hout⟩ | ⟨hnot, hquiet⟩
        · exact Or.inl ⟨⟨hend, hempty⟩, [], QuietEffects.nil, by simpa using hout⟩
        · exact Or.inr ⟨hnot, by simpa using hquiet⟩
      · simp only [h6, false_and, not_false_eq_true, true_and, false_or]
        exact Quiet.same _ QuietEffects.nil
  | leave sessionID =>
      simp only [fightStep, onLeave, Ends, counted, Tested]
      cases hfind : f.playerMap.find sessionID with
      | none =>
          simp only [Option.isSome_none, Bool.false_eq_true, false_and, not_false_eq_true,
            true_and, false_or]
          exact Quiet.same f QuietEffects.nil
      | some player =>
          have hpre : QuietEffects (f.removePlayer sessionID player).2 := QuietEffects.send _ _
          have h := guardedFinish (f.removePlayer sessionID player).1 _ hpre _
            (Quiet.same _ QuietEffects.nil)
          simp only [List.append_nil] at h
          simp only [Option.isSome_some, true_and]
          rcases h with ⟨hend, hempty, hout⟩ | ⟨hnot, hquiet⟩
          · exact Or.inl ⟨⟨hend, hempty⟩, _, hpre, hout⟩
          · exact Or.inr ⟨hnot, hquiet⟩
  | update now =>
      refine Or.inr ⟨fun h => h.1, ?_⟩
      refine ⟨⟨_, _, f.winLoss, PlayerMap.Kept.map ?_ ?_, rfl⟩, QuietEffects.nil⟩
      · intro entry
        split <;> rfl
      · intro entry
        split
        · exact applyMovement_sessionID _ _
        · rfl
  | message sessionID message now =>
      exact Or.inr ⟨fun h => h.1, procMessage_quiet f sessionID message now⟩
  | rehash order =>
      refine Or.inr ⟨fun h => h.1, ?_⟩
      simp only [fightStep, counted]
      split
      · rename_i hperm
        exact Quiet.players f (PlayerMap.Kept.perm (List.isPerm_iff.mp hperm)) QuietEffects.nil
      · exact Quiet.same f QuietEffects.nil

theorem counted_end (f : FightContents) (event : FightEvent) :
    (f.counted event).end_ = f.end_ := by
  obtain ⟨players, red, blue, matched, h⟩ := f.counted_frame event
  rw [h]

/-- The fields an event leaves as the counting part has them. -/
theorem fightStep_fst (f : FightContents) (event : FightEvent) :
    ∃ players tick winLoss end_, (fightStep f event).1 =
      { f.counted event with
          playerMap := players, oldTick := tick, winLoss := winLoss, end_ := end_ } := by
  rcases fightStep_cases f event with ⟨_, pre, _, hout⟩ | ⟨_, hquiet⟩
  · obtain ⟨winLoss, h⟩ := (f.counted event).checkGameEnd_fst
    rw [hout, h]
    exact ⟨_, _, _, _, rfl⟩
  · obtain ⟨players, tick, winLoss, _, h⟩ := hquiet.state
    exact ⟨players, tick, winLoss, _, h⟩

/-- No event touches what `Init` set. -/
theorem fightStep_init (f : FightContents) (event : FightEvent) :
    (fightStep f event).1.contentsNum = f.contentsNum ∧
      (fightStep f event).1.matchID = f.matchID ∧
      (fightStep f event).1.red = f.red ∧ (fightStep f event).1.blue = f.blue := by
  obtain ⟨players, tick, winLoss, end_, h⟩ := f.fightStep_fst event
  obtain ⟨players', red, blue, matched, h'⟩ := f.counted_frame event
  rw [h, h']
  exact ⟨rfl, rfl, rfl, rfl⟩

/-- After counting, an event keeps the keys of the player map. -/
theorem fightStep_kept (f : FightContents) (event : FightEvent) :
    (f.counted event).playerMap.Kept (fightStep f event).1.playerMap := by
  rcases fightStep_cases f event with ⟨_, pre, _, hout⟩ | ⟨_, hquiet⟩
  · obtain ⟨winLoss, h⟩ := (f.counted event).checkGameEnd_fst
    rw [hout, h]
    exact PlayerMap.Kept.refl _
  · obtain ⟨players, tick, winLoss, hkept, h⟩ := hquiet.state
    rw [h]
    exact hkept

/-- `_end` is cleared by the event that ends the fight, and by no other. -/
theorem fightStep_end (f : FightContents) (event : FightEvent) :
    (f.Ends event → (fightStep f event).1.end_ = false) ∧
      (¬ f.Ends event → (fightStep f event).1.end_ = f.end_) := by
  rcases fightStep_cases f event with ⟨hends, pre, _, hout⟩ | ⟨hnot, hquiet⟩
  · refine ⟨fun _ => ?_, fun hnot => absurd hends hnot⟩
    rw [hout]
    rfl
  · refine ⟨fun hends => absurd hends hnot, fun _ => ?_⟩
    obtain ⟨players, tick, winLoss, _, h⟩ := hquiet.state
    rw [h]
    exact f.counted_end event

/-- `FinishFightAndRelease` asks for exactly one result. -/
theorem requestSave_mem_finish {f : FightContents} {result : BattleResult} :
    .requestSave result ∈ f.finishFightAndRelease.2 ↔ result = f.buildBattleResult := by
  simp [finishFightAndRelease, disconnectRemainingPlayers, buildBattleResult]

/-- An event saves a result exactly when it ends the fight, and then the result of
the contents `CheckGameEnd` has just judged. -/
theorem requestSave_mem_iff {f : FightContents} {event : FightEvent} {result : BattleResult} :
    .requestSave result ∈ (fightStep f event).2 ↔
      f.Ends event ∧ result = (f.counted event).checkGameEnd.1.buildBattleResult := by
  rcases fightStep_cases f event with ⟨hends, pre, hpre, hout⟩ | ⟨hnot, hquiet⟩
  · rw [hout, List.mem_append, requestSave_mem_finish]
    simp [hends, hpre.requestSave_notMem result]
  · simp [hnot, hquiet.effects.requestSave_notMem result]

/-- The judged result carries the code of a team that has nobody left: of red
when red is empty, else of blue. -/
theorem checkGameEnd_winLoss {f : FightContents} (h : f.TeamEmpty) :
    f.checkGameEnd.1.winLoss = if f.redCount = 0 then Team.red.code else Team.blue.code := by
  unfold checkGameEnd
  rcases h with h | h <;> split <;> simp_all [Team.code]

end FightContents

/-! ## The winner -/

/-- In every run of a fight, an event that saves a result while exactly one team
has nobody left names that team, and so never names the team that is still
standing. -/
theorem finish_names_empty_team (pooled : FightContents) (contentsNum : ContentsNum)
    (matchID : Int) (group : Group) (events : List FightEvent) (event : FightEvent)
    (result : BattleResult) (team : Team)
    (hsave : .requestSave result ∈
      (fightStep (fightRun (newFight pooled contentsNum matchID group) events) event).2)
    (hempty :
      (fightStep (fightRun (newFight pooled contentsNum matchID group) events) event).1.count
        team = 0)
    (hother : 0 <
      (fightStep (fightRun (newFight pooled contentsNum matchID group) events) event).1.count
        team.other) :
    result.NamesWinner team ∧ ¬ result.NamesWinner team.other := by
  generalize fightRun (newFight pooled contentsNum matchID group) events = f at *
  obtain ⟨hends, rfl⟩ := FightContents.requestSave_mem_iff.mp hsave
  obtain ⟨players, tick, winLoss, end_, hfst⟩ := f.fightStep_fst event
  rw [hfst] at hempty hother
  have hwin := FightContents.checkGameEnd_winLoss hends.2.2
  have hcode : (f.counted event).checkGameEnd.1.winLoss = team.code := by
    cases team with
    | red =>
        have hred : (f.counted event).redCount = 0 := hempty
        rw [hwin, if_pos hred]
    | blue =>
        have hred : ¬ (f.counted event).redCount = 0 := by
          have hpos : 0 < (f.counted event).redCount := hother
          omega
        rw [hwin, if_neg hred]
  have hnames : (f.counted event).checkGameEnd.1.buildBattleResult.NamesWinner _ :=
    BattleResult.namesWinner_of_code hcode
  exact ⟨hnames, hnames.not_other⟩

/-! A first match of the server: six sessions in the slots 0 .. 5, with the keys
1 .. 6. -/

/-- The session ID of the `i`-th accepted client, in slot `i`. -/
def firstSession (i : Nat) : SessionID := (i + 1) + i * 2 ^ 48

/-- A player object as the pool constructs it, accepted and assigned to a team. -/
def firstPlayer (i : Nat) (team : Team) : Player where
  sessionID := firstSession i
  id := 0
  direction := 0
  x := 0
  y := 0
  hp := 100
  move := -1
  team := team
  lastMoveRequestAt := 0
  lastAttackRequestAt := 0
  contents := MATCH

/-- A fight object as the pool constructs it. -/
def pooledFight : FightContents where
  contentsNum := 0
  playerMap := []
  red := fun _ => 0
  blue := fun _ => 0
  matchID := 0
  matched := 0
  redCount := 0
  blueCount := 0
  winLoss := 0
  oldTick := 0
  end_ := true

def firstGroup : Group where
  red := fun i => firstSession i
  blue := fun i => firstSession (i + 3)

def firstFight : FightContents := newFight pooledFight 1 1 firstGroup

/-- The enter event of the `i`-th session, found and moved. -/
def firstEnter (i : Nat) : FightEvent :=
  .enter (firstSession i) (some (firstPlayer i (if i < 3 then .red else .blue))) true

/-- Six players enter and two red ones leave. -/
def redLosing : List FightEvent :=
  (List.range 6).map firstEnter ++ [.leave (firstSession 0), .leave (firstSession 1)]

/-- When the last red player leaves three blue ones behind, red is saved as the
winner and the blue rows are losses. -/
theorem last_red_leaves_red_wins :
    let out := fightStep (fightRun firstFight redLosing) (.leave (firstSession 2))
    let result : BattleResult := ⟨1, 1, firstGroup.red, firstGroup.blue⟩
    out.1.redCount = 0 ∧ out.1.blueCount = 3 ∧ .requestSave result ∈ out.2 ∧
      ¬ result.NamesWinner .blue := by
  decide +kernel

theorem last_red_leaves_names_red :
    (⟨1, 1, firstGroup.red, firstGroup.blue⟩ : BattleResult).NamesWinner .red ∧
      ¬ (⟨1, 1, firstGroup.red, firstGroup.blue⟩ : BattleResult).NamesWinner .blue :=
  finish_names_empty_team pooledFight 1 1 firstGroup redLosing (.leave (firstSession 2))
    ⟨1, 1, firstGroup.red, firstGroup.blue⟩ .red
    (by decide +kernel) (by decide +kernel) (by decide +kernel)

/-! ## When a fight may end -/

/-- The sessions of a group: the six enter events `HandleFightAlloc` posts. -/
def Group.sessions (group : Group) : List SessionID :=
  [group.red 0, group.red 1, group.red 2, group.blue 0, group.blue 1, group.blue 2]

/-- The session an enter event is for. -/
def FightEvent.entering : FightEvent → Option SessionID
  | .enter sessionID _ _ => some sessionID
  | _ => none

/-- The enter events of a run are among the six posted for the group, each handled
at most once. -/
def Scheduled (group : Group) (events : List FightEvent) : Prop :=
  (events.filterMap FightEvent.entering).Subperm group.sessions

/-- An `OnLeave` that would end a fight some of whose six enter events are still on
their way: the fight is running, fewer than six enter events have been handled,
and the leaving player is the last one present of its team or meets an opposing
team of which nobody is present. -/
def EarlyLastLeave (f : FightContents) (sessionID : SessionID) : Prop :=
  f.matched < 6 ∧ f.end_ = true ∧
    ∃ player, f.playerMap.find sessionID = some player ∧
      (f.count player.team = 1 ∨ f.count player.team.other = 0)

instance (f : FightContents) (sessionID : SessionID) : Decidable (EarlyLastLeave f sessionID) :=
  inferInstanceAs (Decidable (_ ∧ _ ∧ ∃ player ∈ f.playerMap.find sessionID, _))

namespace FightContents

/-- One event adds one to `_matched` if it is an enter event, and nothing else. -/
theorem fightStep_matched (f : FightContents) (event : FightEvent) :
    (fightStep f event).1.matched = f.matched + event.entering.toList.length := by
  obtain ⟨players, tick, winLoss, end_, h⟩ := f.fightStep_fst event
  rw [h]
  cases event with
  | enter sessionID found moved => exact countEnter_matched f sessionID found moved
  | leave sessionID =>
      simp only [counted]
      split
      · simp [FightEvent.entering]
      · simp [FightEvent.entering, removePlayer_fst]
  | update now => simp [counted, FightEvent.entering]
  | message sessionID message now => simp [counted, FightEvent.entering]
  | rehash order => simp [counted, FightEvent.entering]

theorem fightRun_matched (f : FightContents) (events : List FightEvent) :
    (fightRun f events).matched =
      f.matched + (events.filterMap FightEvent.entering).length := by
  induction events generalizing f with
  | nil => simp [fightRun]
  | cons event events ih =>
      have hrun : fightRun f (event :: events) = fightRun (fightStep f event).1 events := rfl
      rw [hrun, ih, fightStep_matched, List.filterMap_cons]
      cases event.entering with
      | none => simp
      | some sessionID => simp; omega

/-- A leave event ends the fight exactly when its player is present, the fight is
running, and the leave empties its team or meets an empty one. -/
theorem ends_leave_iff {f : FightContents} {sessionID : SessionID} :
    f.Ends (.leave sessionID) ↔ f.end_ = true ∧
      ∃ player, f.playerMap.find sessionID = some player ∧
        (f.count player.team = 1 ∨ f.count player.team.other = 0) := by
  simp only [Ends, Tested, counted_end]
  cases hfind : f.playerMap.find sessionID with
  | none => simp
  | some player =>
      have hempty : (f.counted (.leave sessionID)).TeamEmpty ↔
          f.count player.team = 1 ∨ f.count player.team.other = 0 := by
        simp only [counted, hfind, removePlayer_fst, TeamEmpty]
        cases player.team <;> simp [count, Team.other] <;> omega
      simp [hempty]

end FightContents

/-- **The runs in which no fight ends early are exactly those without an early last
leave.**  A run of a fight, over any order of its enter events with leaves,
messages and updates, saves a result only with `_matched = 6` if and only if none
of its leaves is an `EarlyLastLeave`. -/
theorem ends_with_six_matched_iff (pooled : FightContents) (contentsNum : ContentsNum)
    (matchID : Int) (group : Group) (events : List FightEvent)
    (hsched : Scheduled group events) :
    (∀ before event after, events = before ++ event :: after →
      (∃ result, .requestSave result ∈
        (fightStep (fightRun (newFight pooled contentsNum matchID group) before) event).2) →
      (fightStep (fightRun (newFight pooled contentsNum matchID group) before) event).1.matched
        = 6) ↔
    (∀ before sessionID after, events = before ++ .leave sessionID :: after →
      ¬ EarlyLastLeave (fightRun (newFight pooled contentsNum matchID group) before)
        sessionID) := by
  constructor
  · intro h before sessionID after hsplit hearly
    obtain ⟨hlt, hend, hleave⟩ := hearly
    have hsix := h before (.leave sessionID) after hsplit
      ⟨_, FightContents.requestSave_mem_iff.mpr
        ⟨FightContents.ends_leave_iff.mpr ⟨hend, hleave⟩, rfl⟩⟩
    rw [FightContents.fightStep_matched] at hsix
    simp [FightEvent.entering] at hsix
    omega
  · intro h before event after hsplit ⟨result, hsave⟩
    obtain ⟨hends, _⟩ := FightContents.requestSave_mem_iff.mp hsave
    have hcount : (events.filterMap FightEvent.entering).length ≤ 6 := hsched.length_le
    rw [hsplit, List.filterMap_append, List.length_append, List.filterMap_cons] at hcount
    have hrun := (newFight pooled contentsNum matchID group).fightRun_matched before
    have hzero : (newFight pooled contentsNum matchID group).matched = 0 := rfl
    rw [FightContents.fightStep_matched]
    cases event with
    | enter sessionID found moved =>
        have h6 : _ + 1 ≥ (6 : Int) := hends.1
        simp [FightEvent.entering] at hcount ⊢
        omega
    | leave sessionID =>
        have hnot := h before sessionID after hsplit
        have hleave := FightContents.ends_leave_iff.mp hends
        have hge : ¬ (fightRun (newFight pooled contentsNum matchID group) before).matched < 6 :=
          fun hlt => hnot ⟨hlt, hleave⟩
        simp [FightEvent.entering] at hcount ⊢
        omega
    | update now => exact absurd hends.1 id
    | message sessionID message now => exact absurd hends.1 id
    | rehash order => exact absurd hends.1 id

/-- A full run: six enters and three red leaves. -/
theorem redLosing_scheduled_iff :
    Scheduled firstGroup (redLosing ++ [.leave (firstSession 2)]) ∧
    ((∀ before event after, redLosing ++ [.leave (firstSession 2)] = before ++ event :: after →
      (∃ result, .requestSave result ∈ (fightStep (fightRun firstFight before) event).2) →
      (fightStep (fightRun firstFight before) event).1.matched = 6) ↔
    (∀ before sessionID after,
      redLosing ++ [.leave (firstSession 2)] = before ++ .leave sessionID :: after →
      ¬ EarlyLastLeave (fightRun firstFight before) sessionID)) := by
  have hsched : Scheduled firstGroup (redLosing ++ [.leave (firstSession 2)]) := by
    have heq : (redLosing ++ [FightEvent.leave (firstSession 2)]).filterMap FightEvent.entering =
        firstGroup.sessions := by decide +kernel
    rw [Scheduled, heq]
  exact ⟨hsched, ends_with_six_matched_iff pooledFight 1 1 firstGroup _ hsched⟩

/-- A red player enters first and disconnects at once: the fight is over and saved
with one of its six enter events handled. -/
theorem first_leave_ends_with_one_matched :
    let f := fightRun firstFight [firstEnter 0]
    let out := fightStep f (.leave (firstSession 0))
    (∃ result, .requestSave result ∈ out.2) ∧ .fightFree ∈ out.2 ∧ out.1.matched = 1 := by
  refine ⟨⟨⟨1, 1, firstGroup.red, firstGroup.blue⟩, ?_⟩, ?_, ?_⟩ <;> decide +kernel

end SessionServer.Battle
