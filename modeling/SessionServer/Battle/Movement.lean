/-
  Battle/Movement.lean --- the frame update, one frame at a time.

  `ApplyMovement` moves a player by any number of frames at once, with a division for each
  wall.  A player in the arena is moved as if the frames came one by one, each of them the
  whole step of its direction or none; how the frames are batched makes no difference.
-/
import SessionServer.Battle.Arena
import SessionServer.Foundation.Walk

set_option autoImplicit false

namespace SessionServer.Battle

open SessionServer.Foundation FightContents

/-! ## One frame -/

/-- What one frame adds to the position of a player that moves. -/
def stride (move : Int8) : Int × Int :=
  match move.toInt with
  | 0 => (-3, 0)
  | 1 => (-3, -2)
  | 2 => (0, -2)
  | 3 => (3, -2)
  | 4 => (3, 0)
  | 5 => (3, 2)
  | 6 => (0, 2)
  | 7 => (-3, 2)
  | _ => (0, 0)

/-- The position lies in the arena. -/
def InsideAt (place : Int × Int) : Prop :=
  (dfRANGE_MOVE_LEFT ≤ place.1 ∧ place.1 ≤ dfRANGE_MOVE_RIGHT) ∧
    dfRANGE_MOVE_TOP ≤ place.2 ∧ place.2 ≤ dfRANGE_MOVE_BOTTOM

instance : DecidablePred InsideAt := fun _ => inferInstanceAs (Decidable ((_ ∧ _) ∧ _ ∧ _))

namespace Player

/-- The position of a player. -/
def place (player : Player) : Int × Int := (player.x.toNat, player.y.toNat)

/-- The two casts that store a position. -/
def movedTo (player : Player) (place : Int × Int) : Player :=
  { player with x := toUInt16 place.1, y := toUInt16 place.2 }

/-- One frame: the whole step if it stays in the arena, and otherwise nothing. -/
def moveOnce (player : Player) : Player :=
  player.movedTo (stepWithin InsideAt (stride player.move) player.place)

end Player

/-! ## The position before the casts -/

/-- The frames that fit before the walls in the direction of `move`. -/
def framesToWall (move : Int8) (place : Int × Int) : Int :=
  let left := maxFrame (place.1 - dfRANGE_MOVE_LEFT) 3
  let right := maxFrame (dfRANGE_MOVE_RIGHT - place.1) 3
  let up := maxFrame (place.2 - dfRANGE_MOVE_TOP) 2
  let down := maxFrame (dfRANGE_MOVE_BOTTOM - place.2) 2
  match move.toInt with
  | 0 => left
  | 1 => min left up
  | 2 => up
  | 3 => min right up
  | 4 => right
  | 5 => min right down
  | 6 => down
  | 7 => min left down
  | _ => 0

/-- `newX` and `newY` of `ApplyMovement`, before they are cast to `std::uint16_t`. -/
def newPlace (player : Player) (frame : Int) : Int × Int :=
  if frame ≤ 0 then player.place
  else
    let n := min frame (framesToWall player.move player.place)
    (player.place.1 + (stride player.move).1 * n, player.place.2 + (stride player.move).2 * n)

theorem toUInt16_coe (x : UInt16) : toUInt16 x.toNat = x := by
  have hlt := x.toNat_lt
  refine UInt16.toNat_inj.mp ?_
  have h := toUInt16_toNat (n := x.toNat) (by omega) (by omega)
  omega

theorem movedTo_place (player : Player) : player.movedTo player.place = player := by
  simp only [Player.movedTo, Player.place, toUInt16_coe]

/-- `ApplyMovement` stores what it has computed. -/
theorem applyMovement_eq (player : Player) (frame : Int) :
    applyMovement player frame = player.movedTo (newPlace player frame) := by
  unfold applyMovement newPlace
  split
  · exact (movedTo_place player).symm
  · simp only [framesToWall, stride]
    split
    all_goals simp_all [Player.movedTo, Player.place, toUInt16_coe, Int.sub_eq_add_neg]

/-! ## Frames that fit -/

theorem inside_iff (player : Player) :
    Inside player.x player.y ↔ InsideAt player.place := Iff.rfl

/-- So many steps towards a wall end before it. -/
theorem le_maxFrame {room step k : Int} (hroom : 0 ≤ room) (hstep : 0 < step) :
    k ≤ maxFrame room step ↔ k * step ≤ room := by
  rw [maxFrame, Int.tdiv_eq_ediv_of_nonneg hroom, Int.le_ediv_iff_mul_le hstep]

/-- **The divisions count the frames that fit.** -/
theorem insideAt_strides_iff {move : Int8} {place : Int × Int} (h : InsideAt place)
    (hmove : stride move ≠ 0) (k : Nat) :
    InsideAt (place + k • stride move) ↔ (k : Int) ≤ framesToWall move place := by
  obtain ⟨x, y⟩ := place
  obtain ⟨⟨hleft, hright⟩, htop, hbottom⟩ := id h
  simp only at hleft hright htop hbottom
  have hl := le_maxFrame (k := k) (by omega : 0 ≤ x - dfRANGE_MOVE_LEFT) (by omega : (0 : Int) < 3)
  have hr := le_maxFrame (k := k) (by omega : 0 ≤ dfRANGE_MOVE_RIGHT - x) (by omega : (0 : Int) < 3)
  have hu := le_maxFrame (k := k) (by omega : 0 ≤ y - dfRANGE_MOVE_TOP) (by omega : (0 : Int) < 2)
  have hd := le_maxFrame (k := k) (by omega : 0 ≤ dfRANGE_MOVE_BOTTOM - y)
    (by omega : (0 : Int) < 2)
  unfold stride at hmove ⊢
  unfold framesToWall
  split at hmove
  all_goals
    simp only [InsideAt, Prod.smul_mk, Prod.mk_add_mk, nsmul_eq_mul, le_min_iff, hl, hr, hu, hd]
  all_goals first | exact absurd rfl hmove | omega

/-- The position of a player after so many frames, taken one by one. -/
theorem newPlace_eq_iterate {player : Player} (h : Inside player.x player.y) (frame : Nat) :
    newPlace player frame =
      (stepWithin InsideAt (stride player.move))^[frame] player.place := by
  unfold newPlace
  split
  · rename_i hnone
    obtain rfl : frame = 0 := by omega
    rfl
  · by_cases hmove : stride player.move = 0
    · rw [hmove, iterate_stepWithin_zero]
      simp
    · have hiff : ∀ k : Nat, InsideAt (player.place + k • stride player.move) ↔
          (k : Int) ≤ framesToWall player.move player.place := insideAt_strides_iff h hmove
      have hnonneg : 0 ≤ framesToWall player.move player.place := by
        simpa using (hiff 0).mp (by simpa using (inside_iff player).mp h)
      have hfit : ∀ k : Nat, InsideAt (player.place + k • stride player.move) ↔
          k ≤ (framesToWall player.move player.place).toNat :=
        fun k => (hiff k).trans (by omega)
      have hmin : ((min frame (framesToWall player.move player.place).toNat : Nat) : Int) =
          min (frame : Int) (framesToWall player.move player.place) := by omega
      rw [iterate_stepWithin hfit]
      refine Prod.ext ?_ ?_ <;> simp [← hmin, mul_comm]

/-- Any number of frames keeps the position in the arena. -/
theorem newPlace_inside {player : Player} (h : Inside player.x player.y) (frame : Nat) :
    InsideAt (newPlace player frame) := by
  rw [newPlace_eq_iterate h]
  exact iterate_stepWithin_mem ((inside_iff player).mp h) frame

/-- A position in the arena is stored as it is. -/
theorem place_movedTo (player : Player) {place : Int × Int} (h : InsideAt place) :
    (player.movedTo place).place = place := by
  obtain ⟨⟨hleft, hright⟩, htop, hbottom⟩ := h
  simp only [dfRANGE_MOVE_LEFT, dfRANGE_MOVE_RIGHT, dfRANGE_MOVE_TOP, dfRANGE_MOVE_BOTTOM] at *
  exact Prod.ext (toUInt16_toNat (by omega) (by omega)) (toUInt16_toNat (by omega) (by omega))

/-- Frames one by one store what the walk of the position comes to. -/
theorem iterate_moveOnce {player : Player} (h : Inside player.x player.y) (frame : Nat) :
    Player.moveOnce^[frame] player =
      player.movedTo ((stepWithin InsideAt (stride player.move))^[frame] player.place) := by
  induction frame with
  | zero => exact (movedTo_place player).symm
  | succ frame ih =>
      have hinside :
          InsideAt ((stepWithin InsideAt (stride player.move))^[frame] player.place) :=
        iterate_stepWithin_mem ((inside_iff player).mp h) frame
      rw [Function.iterate_succ_apply', Function.iterate_succ_apply', ih, Player.moveOnce,
        place_movedTo player hinside]
      rfl

/-! ## Batches -/

/-- **Frames at once are frames one by one.** -/
theorem applyMovement_eq_iterate {player : Player} (h : Inside player.x player.y) (frame : Nat) :
    applyMovement player frame = Player.moveOnce^[frame] player := by
  rw [applyMovement_eq, newPlace_eq_iterate h, iterate_moveOnce h]

/-- How a player moves, whatever the batches: as by single frames, in the arena, and the
position computed is a `std::uint16_t`, which is stored as it is. -/
structure Batched (player : Player) : Prop where
  batches : ∀ a b : Nat,
    applyMovement player (a + b : Nat) = applyMovement (applyMovement player a) b
  frames : ∀ n : Nat, applyMovement player n = Player.moveOnce^[n] player
  inside : ∀ n : Nat, Inside (applyMovement player n).x (applyMovement player n).y
  fits : ∀ n : Nat, (0 ≤ (newPlace player n).1 ∧ (newPlace player n).1 < 65536) ∧
    0 ≤ (newPlace player n).2 ∧ (newPlace player n).2 < 65536
  stored : ∀ n : Nat, (applyMovement player n).place = newPlace player n

/-- **Movement does not depend on how the frames are batched.** -/
theorem movement_batched (player : Player) (h : Inside player.x player.y) : Batched player where
  batches := by
    intro a b
    have ha := applyMovement_inside (a : Int) h
    rw [applyMovement_eq_iterate ha, applyMovement_eq_iterate h, applyMovement_eq_iterate h,
      Nat.add_comm, Function.iterate_add_apply]
  frames := applyMovement_eq_iterate h
  inside := fun n => applyMovement_inside (n : Int) h
  fits := by
    intro n
    obtain ⟨⟨hleft, hright⟩, htop, hbottom⟩ := newPlace_inside h n
    simp only [dfRANGE_MOVE_LEFT, dfRANGE_MOVE_RIGHT, dfRANGE_MOVE_TOP, dfRANGE_MOVE_BOTTOM] at *
    exact ⟨⟨by omega, by omega⟩, by omega, by omega⟩
  stored := by
    intro n
    rw [applyMovement_eq, place_movedTo player (newPlace_inside h n)]

/-- A player two frames from the left wall, on its way up and to the left. -/
def towardsWall : Player :=
  { firstPlayer 0 .red with x := 17, y := 90, move := 1 }

theorem towardsWall_batched : Batched towardsWall := movement_batched towardsWall (by decide)

example : (applyMovement towardsWall 5).place = (11, 86) := by decide

end SessionServer.Battle
