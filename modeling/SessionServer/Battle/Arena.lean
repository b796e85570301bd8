/-
  Battle/Arena.lean --- the positions of the players.

  The frame update stops at the walls of the arena.  A message is checked against the
  position its player has, within an error range, and its coordinates are then taken as
  they are: near a wall they may lie outside.
-/
import SessionServer.Battle.Started

set_option autoImplicit false

namespace SessionServer.Battle

open SessionServer.Foundation FightContents

/-! ## Inside -/

/-- The coordinates lie in the arena. -/
def Inside (x y : UInt16) : Prop :=
  (dfRANGE_MOVE_LEFT ≤ x.toNat ∧ x.toNat ≤ dfRANGE_MOVE_RIGHT) ∧
    dfRANGE_MOVE_TOP ≤ y.toNat ∧ y.toNat ≤ dfRANGE_MOVE_BOTTOM

instance (x y : UInt16) : Decidable (Inside x y) := inferInstanceAs (Decidable ((_ ∧ _) ∧ _ ∧ _))

/-- Every player in the map is in the arena. -/
def FightContents.InArena (f : FightContents) : Prop :=
  ∀ entry ∈ f.playerMap, Inside entry.2.x entry.2.y

instance (f : FightContents) : Decidable f.InArena :=
  inferInstanceAs (Decidable (∀ entry ∈ f.playerMap, _))

/-- The coordinates of a message lie in the arena. -/
def CSMessage.PositionInside : CSMessage → Prop
  | .moveStart _ x y => Inside x y
  | .moveStop _ x y => Inside x y
  | .attack _ _ x y => Inside x y
  | .other => True

instance (message : CSMessage) : Decidable message.PositionInside := by
  unfold CSMessage.PositionInside
  cases message <;> infer_instance

/-- A message that passes the checks of its handler has coordinates in the arena. -/
def StaysInside (f : FightContents) : FightEvent → Prop
  | .message sessionID message now =>
      (f.accepted sessionID message now).isSome → message.PositionInside
  | _ => True

instance (f : FightContents) : (event : FightEvent) → Decidable (StaysInside f event)
  | .message _ _ _ => inferInstanceAs (Decidable (_ → _))
  | .enter _ _ _ => instDecidableTrue
  | .leave _ => instDecidableTrue
  | .update _ => instDecidableTrue
  | .rehash _ => instDecidableTrue

/-! ## The frame update -/

theorem toUInt16_toNat {n : Int} (hpos : 0 ≤ n) (hlt : n < 65536) :
    ((toUInt16 n).toNat : Int) = n := by
  have hmod : (n % 65536).toNat = n.toNat := by rw [Int.emod_eq_of_lt hpos hlt]
  rw [toUInt16, hmod, UInt16.toNat_ofNat']
  omega

theorem inside_toUInt16 {x y : Int} (hx : dfRANGE_MOVE_LEFT ≤ x ∧ x ≤ dfRANGE_MOVE_RIGHT)
    (hy : dfRANGE_MOVE_TOP ≤ y ∧ y ≤ dfRANGE_MOVE_BOTTOM) :
    Inside (toUInt16 x) (toUInt16 y) := by
  simp only [dfRANGE_MOVE_LEFT, dfRANGE_MOVE_RIGHT, dfRANGE_MOVE_TOP, dfRANGE_MOVE_BOTTOM] at hx hy
  simp only [Inside, dfRANGE_MOVE_LEFT, dfRANGE_MOVE_RIGHT, dfRANGE_MOVE_TOP,
    dfRANGE_MOVE_BOTTOM]
  rw [toUInt16_toNat (by omega) (by omega), toUInt16_toNat (by omega) (by omega)]
  exact ⟨hx, hy⟩

/-- Frames that fit before a wall: walking them ends before it. -/
theorem maxFrame_bounds {room step : Int} (hroom : 0 ≤ room) (hstep : 0 < step) :
    0 ≤ maxFrame room step ∧ step * maxFrame room step ≤ room := by
  have hdiv : maxFrame room step = room / step := Int.tdiv_eq_ediv_of_nonneg hroom
  rw [hdiv]
  exact ⟨Int.ediv_nonneg hroom (Int.le_of_lt hstep), Int.mul_ediv_self_le (Int.ne_of_gt hstep)⟩

/-- **A frame update keeps a player in the arena.** -/
theorem applyMovement_inside {player : Player} (frame : Int) (h : Inside player.x player.y) :
    Inside (applyMovement player frame).x (applyMovement player frame).y := by
  unfold applyMovement
  split
  · exact h
  · rename_i hframe
    obtain ⟨⟨hleft, hright⟩, htop, hbottom⟩ := id h
    simp only
    generalize (player.x.toNat : Int) = x at hleft hright ⊢
    generalize (player.y.toNat : Int) = y at htop hbottom ⊢
    -- What is walked in any direction ends before the wall there.
    have hl := maxFrame_bounds (by omega : 0 ≤ x - dfRANGE_MOVE_LEFT) (by omega : (0 : Int) < 3)
    have hr := maxFrame_bounds (by omega : 0 ≤ dfRANGE_MOVE_RIGHT - x) (by omega : (0 : Int) < 3)
    have hu := maxFrame_bounds (by omega : 0 ≤ y - dfRANGE_MOVE_TOP) (by omega : (0 : Int) < 2)
    have hd := maxFrame_bounds (by omega : 0 ≤ dfRANGE_MOVE_BOTTOM - y) (by omega : (0 : Int) < 2)
    split
    all_goals first | exact h | exact inside_toUInt16 (by omega) (by omega)

/-! ## One event -/

/-- A message that passes puts its player at its coordinates. -/
theorem write_inside_iff {message : CSMessage} {player : Player} {now : UInt32}
    (h : message.passes player now = true) :
    Inside (message.write now player).x (message.write now player).y ↔ message.PositionInside := by
  cases message with
  | moveStart dir x y => exact Iff.rfl
  | moveStop dir x y => exact Iff.rfl
  | attack type dir x y => exact Iff.rfl
  | other => simp [CSMessage.passes] at h

/-- **One event** of a fight that goes on keeps the players in the arena exactly where a
message it accepts has coordinates in it. -/
theorem fightStep_inArena_iff {f : FightContents} (h : f.InArena) {event : FightEvent}
    (hevent : event.entering = none) :
    (fightStep f event).1.InArena ↔ StaysInside f event := by
  have hiff := fightStep_players_iff (P := fun player => Inside player.x player.y)
    (fun _ frame => applyMovement_inside frame) (fun _ _ hinside => hinside)
    (fun _ _ _ _ => write_inside_iff) h hevent
  refine hiff.trans ?_
  cases event <;> exact Iff.rfl

/-! ## Every run -/

theorem spawned_inside {red blue : Fin 3 → SessionID} {entry : SessionID × Player}
    (h : Spawned red blue entry) : Inside entry.2.x entry.2.y := by
  have hred : ∀ i : Fin 3, Inside (UInt16.ofNat REDX.toNat)
      (UInt16.ofNat (dfRANGE_MOVE_TOP + 40 + TEAMY * i).toNat) := by decide
  have hblue : ∀ i : Fin 3, Inside (UInt16.ofNat BLUEX.toNat)
      (UInt16.ofNat (dfRANGE_MOVE_TOP + 40 + TEAMY * i).toNat) := by decide
  obtain ⟨i, player, rfl | rfl⟩ := h
  · exact hred i
  · exact hblue i

/-- **The players of a started fight stay in the arena in exactly the runs in which every
message that passes the checks of its handler has coordinates in the arena.** -/
theorem in_arena_iff (pooled : FightContents) (contentsNum : ContentsNum) (matchID : Int)
    (group : Group) (before : List FightEvent) (event : FightEvent) (after : List FightEvent)
    (hstarted : StartedRun pooled contentsNum matchID group before event after) :
    (∀ run, run <+: after →
      (fightRun (startedFight pooled contentsNum matchID group before event) run).InArena) ↔
    (∀ done next rest, after = done ++ next :: rest →
      StaysInside (fightRun (startedFight pooled contentsNum matchID group before event) done)
        next) := by
  have hstart : (startedFight pooled contentsNum matchID group before event).InArena :=
    fun entry hmem => spawned_inside (hstarted.spawned entry hmem)
  have hiff : ∀ (f : FightContents) (next : FightEvent), f.InArena → next.entering = none →
      ((fightStep f next).1.InArena ↔ StaysInside f next) :=
    fun f next hinside hnext => fightStep_inArena_iff hinside hnext
  exact foldl_prefix_iff hiff hstart hstarted.no_enter

/-- A red player walks to the left and stops before the wall, where the frame update has
brought it. -/
def walkInside : List FightEvent :=
  [.message (firstSession 0) (.moveStart dfPACKET_MOVE_DIR_LL 40 90) 1000, .update 20,
    .update 2000, .message (firstSession 0) (.moveStop dfPACKET_MOVE_DIR_LL 12 90) 2000]

theorem walkInside_in_arena :
    StartedRun pooledFight 1 1 firstGroup fiveEnter (firstEnter 5) walkInside ∧
      ∀ run, run <+: walkInside → (fightRun firstStarted run).InArena := by
  have hstarted : StartedRun pooledFight 1 1 firstGroup fiveEnter (firstEnter 5) walkInside :=
    fiveEnter_started (by decide +kernel)
  refine ⟨hstarted, ?_⟩
  refine (in_arena_iff pooledFight 1 1 firstGroup fiveEnter (firstEnter 5) walkInside hstarted).mpr
    ?_
  exact (forall_splits_iff (R := StaysInside)).mpr (by decide +kernel)

/-- A red player that has not moved says it starts to walk at the left edge of the window:
that is within the error range of its place, and beyond the wall. -/
def edgeStart : List FightEvent :=
  [.message (firstSession 0) (.moveStart dfPACKET_MOVE_DIR_LL 0 90) 1000]

theorem edgeStart_leaves_arena :
    StartedRun pooledFight 1 1 firstGroup fiveEnter (firstEnter 5) edgeStart ∧
      ¬ ∀ run, run <+: edgeStart → (fightRun firstStarted run).InArena := by
  refine ⟨fiveEnter_started (by decide +kernel), fun hinside => ?_⟩
  exact absurd (hinside edgeStart (List.prefix_refl _)) (by decide +kernel)

end SessionServer.Battle
