/-
  Battle/Facing.lean --- the facing of the players.

  A player faces left or right: the start of a fight says so, and the two move handlers
  turn the direction of a message to one of the two.  An attack is taken as it comes, with
  any of the eight directions, and from then on the attacks of its player reach nobody.
-/
import SessionServer.Battle.Requests

set_option autoImplicit false

namespace SessionServer.Battle

open SessionServer.Foundation FightContents

/-! ## Sideways -/

/-- The direction is plain left or plain right. -/
def Sideways (dir : UInt8) : Prop := dir = dfPACKET_MOVE_DIR_LL ∨ dir = dfPACKET_MOVE_DIR_RR

instance (dir : UInt8) : Decidable (Sideways dir) := inferInstanceAs (Decidable (_ ∨ _))

/-- Every player in the map faces left or right. -/
def FightContents.FacesSideways (f : FightContents) : Prop :=
  ∀ entry ∈ f.playerMap, Sideways entry.2.direction

instance (f : FightContents) : Decidable f.FacesSideways :=
  inferInstanceAs (Decidable (∀ entry ∈ f.playerMap, _))

/-- The direction of a message, if it is an attack. -/
def CSMessage.attackDirection : CSMessage → Option UInt8
  | .attack _ dir _ _ => some dir
  | _ => none

/-- An attack that passes the checks of its handler has a direction to the side. -/
def AttacksSideways (f : FightContents) : FightEvent → Prop
  | .message sessionID message now =>
      (f.accepted sessionID message now).isSome → ∀ dir ∈ message.attackDirection, Sideways dir
  | _ => True

instance (f : FightContents) : (event : FightEvent) → Decidable (AttacksSideways f event)
  | .message _ _ _ => inferInstanceAs (Decidable (_ → _))
  | .enter _ _ _ => instDecidableTrue
  | .leave _ => instDecidableTrue
  | .update _ => instDecidableTrue
  | .rehash _ => instDecidableTrue

/-- An attack reaches to the side only. -/
theorem InReach.sideways {type : AttackType} {dir : UInt8} {x y : UInt16} {target : Player}
    (h : InReach type dir x y target) : Sideways dir :=
  h.1.imp And.left And.left

/-- The directions in which an attack can hit. -/
theorem range_sideways_iff (dir : UInt8) :
    (∃ attacker target type, attacker.direction = dir ∧
      isTargetInAttackRange attacker target type = true) ↔ Sideways dir := by
  constructor
  · rintro ⟨attacker, target, type, rfl, hrange⟩
    exact (isTargetInAttackRange_iff.mp hrange).sideways
  · intro hdir
    refine ⟨{ firstPlayer 0 .red with direction := dir }, firstPlayer 3 .blue, .attack1, rfl, ?_⟩
    rcases hdir with rfl | rfl <;> decide

/-! ## One event -/

/-- The move handlers keep a facing or turn it to the side. -/
theorem facing_sideways {player : Player} (h : Sideways player.direction) (dir : UInt8) :
    Sideways (facing player dir) := by
  unfold facing
  split
  · exact Or.inl rfl
  · split
    · exact Or.inr rfl
    · exact h

theorem write_sideways_iff {message : CSMessage} {player : Player} (now : UInt32)
    (h : Sideways player.direction) :
    Sideways (message.write now player).direction ↔
      ∀ dir ∈ message.attackDirection, Sideways dir := by
  cases message with
  | moveStart dir x y =>
      exact iff_of_true (facing_sideways h dir) (by simp [CSMessage.attackDirection])
  | moveStop dir x y =>
      exact iff_of_true (facing_sideways h dir) (by simp [CSMessage.attackDirection])
  | attack type dir x y => simp [CSMessage.write, CSMessage.attackDirection]
  | other => exact iff_of_true h (by simp [CSMessage.attackDirection])

/-- **One event** of a fight that goes on keeps the players facing to the side exactly
where an attack it accepts is directed there. -/
theorem fightStep_sideways_iff {f : FightContents} (h : f.FacesSideways) {event : FightEvent}
    (hevent : event.entering = none) :
    (fightStep f event).1.FacesSideways ↔ AttacksSideways f event := by
  have hframe : ∀ player frame, Sideways player.direction →
      Sideways (applyMovement player frame).direction := by
    intro player frame hside
    obtain ⟨x, y, heq⟩ := applyMovement_frame player frame
    rw [heq]
    exact hside
  have hiff := fightStep_players_iff (P := fun player => Sideways player.direction) hframe
    (fun _ _ hside => hside) (fun _ _ now hside _ => write_sideways_iff now hside) h hevent
  refine hiff.trans ?_
  cases event <;> exact Iff.rfl

/-! ## Every run -/

theorem spawned_sideways {red blue : Fin 3 → SessionID} {entry : SessionID × Player}
    (h : Spawned red blue entry) : Sideways entry.2.direction := by
  obtain ⟨i, player, rfl | rfl⟩ := h
  · exact Or.inr rfl
  · exact Or.inl rfl

/-- **The players of a started fight face left or right, the two directions in which an
attack can hit, in exactly the runs in which every attack that passes the checks of its
handler is directed to the left or right.** -/
theorem faces_sideways_iff (pooled : FightContents) (contentsNum : ContentsNum) (matchID : Int)
    (group : Group) (before : List FightEvent) (event : FightEvent) (after : List FightEvent)
    (hstarted : StartedRun pooled contentsNum matchID group before event after) :
    ((∀ run, run <+: after →
        (fightRun (startedFight pooled contentsNum matchID group before event)
          run).FacesSideways) ∧
      ∀ dir, (∃ attacker target type, attacker.direction = dir ∧
        isTargetInAttackRange attacker target type = true) ↔ Sideways dir) ↔
    (∀ done next rest, after = done ++ next :: rest →
      AttacksSideways (fightRun (startedFight pooled contentsNum matchID group before event) done)
        next) := by
  have hstart : (startedFight pooled contentsNum matchID group before event).FacesSideways :=
    fun entry hmem => spawned_sideways (hstarted.spawned entry hmem)
  have hiff : ∀ (f : FightContents) (next : FightEvent), f.FacesSideways → next.entering = none →
      ((fightStep f next).1.FacesSideways ↔ AttacksSideways f next) :=
    fun f next hsideways hnext => fightStep_sideways_iff hsideways hnext
  rw [and_iff_left range_sideways_iff]
  exact foldl_prefix_iff hiff hstart hstarted.no_enter

/-- A red player moves up to the right and back to the left, and attacks to the right. -/
def turnsBack : List FightEvent :=
  [.message (firstSession 0) (.moveStart dfPACKET_MOVE_DIR_RU 40 90) 1000, .update 40,
    .message (firstSession 0) (.moveStop dfPACKET_MOVE_DIR_LL 46 86) 1100,
    .message (firstSession 0) (.attack .attack1 dfPACKET_MOVE_DIR_RR 46 86) 1200]

theorem turnsBack_sideways :
    (∀ run, run <+: turnsBack → (fightRun firstStarted run).FacesSideways) ∧
      ∀ dir, (∃ attacker target type, attacker.direction = dir ∧
        isTargetInAttackRange attacker target type = true) ↔ Sideways dir :=
  (faces_sideways_iff pooledFight 1 1 firstGroup fiveEnter (firstEnter 5) turnsBack
    (fiveEnter_started (by decide +kernel))).mpr
      ((forall_splits_iff (R := AttacksSideways)).mpr (by decide +kernel))

/-- A red player attacks with the direction up to the left. -/
def attacksUp : List FightEvent :=
  [.message (firstSession 0) (.attack .attack1 dfPACKET_MOVE_DIR_LU 40 90) 1000]

theorem attacksUp_faces_up :
    StartedRun pooledFight 1 1 firstGroup fiveEnter (firstEnter 5) attacksUp ∧
      isValidMoveDirection dfPACKET_MOVE_DIR_LU = true ∧
      ¬ ∀ run, run <+: attacksUp → (fightRun firstStarted run).FacesSideways := by
  refine ⟨fiveEnter_started (by decide +kernel), by decide, fun hsideways => ?_⟩
  exact absurd (hsideways attacksUp (List.prefix_refl _)) (by decide +kernel)

end SessionServer.Battle
