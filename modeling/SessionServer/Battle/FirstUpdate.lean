/-
  Battle/FirstUpdate.lean --- the first update of a fight.

  `HandleFightAlloc` clears the fight, and `Clear` sets `_oldTick` to 0 instead of the time.
  The first update then passes all the frames since the clock was at 0, which a player feels
  whose move message has been handled before it.
-/
import SessionServer.Battle.FrameClock

set_option autoImplicit false

namespace SessionServer.Battle

open SessionServer.Foundation FightContents

/-! ## Frames applied to a player -/

/-- The session has a player in the map that moves: an update applies its frames to it. -/
def FightContents.moves (f : FightContents) (id : SessionID) : Bool :=
  (f.playerMap.find id).any fun player => decide (player.move ≠ -1)

/-- The frames an event applies to the player of a session. -/
def applied (id : SessionID) (f : FightContents) : FightEvent → Nat
  | .update now => if f.moves id then f.frames now else 0
  | _ => 0

/-- The frames a run applies to the player of a session. -/
def framesApplied (id : SessionID) : FightContents → List FightEvent → Nat :=
  totalOf (applied id)

/-- Once all the events have been handled, no player has been moved by more frames than have
passed since `start`, and one. -/
def WithinTime (start : Nat) (f : FightContents) (events : List (Nat × FightEvent)) : Prop :=
  ∀ (until_ : Nat) (id : SessionID), (∀ entry ∈ events, entry.1 ≤ until_) →
    framesApplied id f (handled events) ≤ (until_ - start) / 20 + 1

theorem applied_le (id : SessionID) (f : FightContents) (now : UInt32) :
    applied id f (.update now) ≤ f.frames now := by
  simp only [applied]
  split <;> omega

theorem applied_of_not_update (id : SessionID) (f : FightContents) {event : FightEvent}
    (h : ∀ now, event ≠ .update now) : applied id f event = 0 := by
  cases event with
  | update now => exact absurd rfl (h now)
  | _ => rfl

/-! ## Runs without an update -/

/-- Without an update the tick stays, and nobody is moved. -/
theorem run_without_update {events : List FightEvent}
    (h : ∀ event ∈ events, ∀ now, event ≠ .update now) (f : FightContents) :
    (fightRun f events).oldTick = f.oldTick ∧ ∀ id, framesApplied id f events = 0 := by
  induction events generalizing f with
  | nil => exact ⟨rfl, fun _ => rfl⟩
  | cons event events ih =>
      have hfirst := h event List.mem_cons_self
      have hrest := fun e he => h e (List.mem_cons_of_mem event he)
      obtain ⟨htick, hnone⟩ := ih hrest (fightStep f event).1
      refine ⟨htick.trans (fightStep_oldTick hfirst), fun id => ?_⟩
      rw [framesApplied, totalOf, ← framesApplied, hnone, applied_of_not_update id f hfirst]

/-! ## Runs from a tick that shows a time -/

/-- From a tick that shows the time `origin` on, the frames applied fit into the time since
then. -/
theorem framesApplied_le {events : List (Nat × FightEvent)} :
    ∀ {origin last until_ : Nat} {f : FightContents}, f.oldTick = clock origin → origin ≤ last →
      Timed last events → last ≤ until_ → (∀ entry ∈ events, entry.1 ≤ until_) →
      ∀ id, origin + 20 * framesApplied id f (handled events) ≤ until_ := by
  induction events with
  | nil => exact fun _ hle _ huntil _ id => Nat.le_trans hle huntil
  | cons entry events ih =>
      obtain ⟨t, event⟩ := entry
      intro origin last until_ f htick hle ⟨hlast, hreading, htimed⟩ huntil hall id
      have ht : t ≤ until_ := hall (t, event) List.mem_cons_self
      have hrest : ∀ entry ∈ events, entry.1 ≤ until_ :=
        fun entry hmem => hall entry (List.mem_cons_of_mem _ hmem)
      by_cases hupdate : ∃ now, event = .update now
      · obtain ⟨now, rfl⟩ := hupdate
        obtain rfl : now = clock t := hreading now rfl
        obtain ⟨hframes, htick'⟩ := onUpdate_tick htick (Nat.le_trans hle hlast)
        have hlaps := Nat.mod_le (t - origin) 4294967296
        -- Whole laps the clock has missed count as time without frames.
        have hsame : clock (t - (t - origin) % 4294967296 % 20) =
            clock (origin + 20 * ((t - origin) % 4294967296 / 20)) := by
          refine UInt32.toNat_inj.mp ?_
          rw [clock_toNat, clock_toNat]
          omega
        have hrun := ih (f := f.onUpdate (clock t)) (htick'.trans hsame.symm)
          (by omega : t - (t - origin) % 4294967296 % 20 ≤ t) htimed ht hrest id
        have happlied := applied_le id f (clock t)
        show origin + 20 * (applied id f (.update (clock t)) +
          framesApplied id (f.onUpdate (clock t)) (handled events)) ≤ until_
        omega
      · have hnot : ∀ now, event ≠ .update now := fun now heq => hupdate ⟨now, heq⟩
        have hrun := ih ((fightStep_oldTick hnot).trans htick) (Nat.le_trans hle hlast) htimed ht
          hrest id
        show origin + 20 * (applied id f event + _) ≤ until_
        rw [applied_of_not_update id f hnot, Nat.zero_add]
        exact hrun

/-! ## The first update -/

/-- A write to every player of the map. -/
theorem PlayerMap.find_map (m : PlayerMap) (write : Player → Player) (id : SessionID) :
    PlayerMap.find (m.map fun entry => (entry.1, write entry.2)) id = (m.find id).map write := by
  induction m with
  | nil => rfl
  | cons entry m ih =>
      obtain ⟨key, player⟩ := entry
      simp only [PlayerMap.find, List.map_cons, List.lookup_cons] at ih ⊢
      cases id == key with
      | true => rfl
      | false => exact ih

theorem find_onUpdate (f : FightContents) (now : UInt32) (id : SessionID) :
    (f.onUpdate now).playerMap.find id = (f.playerMap.find id).map fun player =>
      if player.move ≠ -1 then applyMovement player (f.frames now) else player := by
  rw [← PlayerMap.find_map, onUpdate_frames, PlayerMap.applyFrames]
  congr 2
  funext entry
  split <;> rfl

/-- An update moves the player of a session by the frames it applies to it. -/
theorem find_onUpdate_applied (f : FightContents) (now : UInt32) (id : SessionID) :
    (f.onUpdate now).playerMap.find id = (f.playerMap.find id).map fun player =>
      applyMovement player (applied id f (.update now)) := by
  rw [find_onUpdate, applied, moves]
  cases f.playerMap.find id with
  | none => rfl
  | some player =>
      by_cases hmove : player.move ≠ -1
      · simp [hmove]
      · simp [hmove, applyMovement]

/-- An update stops nobody and starts nobody. -/
theorem moves_onUpdate (f : FightContents) (now : UInt32) (id : SessionID) :
    (f.onUpdate now).moves id = f.moves id := by
  rw [moves, moves, find_onUpdate]
  cases f.playerMap.find id with
  | none => rfl
  | some player =>
      simp only [Option.map_some, Option.any_some]
      split
      · obtain ⟨x, y, hframe⟩ := applyMovement_frame player (f.frames now)
        rw [hframe]
      · rfl

/-- **The frames of the first update** of a fight are those of the time since the clock was
at 0. -/
theorem first_update_frames {f : FightContents} (htick : f.oldTick = 0) (t : Nat) :
    f.frames (clock t) = t % 4294967296 / 20 ∧
      (f.onUpdate (clock t)).oldTick = clock (t - t % 4294967296 % 20) := by
  have horigin : f.oldTick = clock (t - t % 4294967296) := by
    rw [htick, eq_comm, clock_eq_zero]
    omega
  obtain ⟨hframes, htick'⟩ := onUpdate_tick horigin (Nat.sub_le t _)
  have hsince : (t - (t - t % 4294967296)) % 4294967296 = t % 4294967296 := by omega
  rw [hsince] at hframes htick'
  refine ⟨hframes, htick'.trans (congrArg clock ?_)⟩
  omega

theorem newFight_oldTick (pooled : FightContents) (contentsNum : ContentsNum) (matchID : Int)
    (group : Group) : (newFight pooled contentsNum matchID group).oldTick = 0 := rfl

/-- The first update of a fight passes no more than the time since `start`, or applies it to
nobody. -/
def FirstUpdateFits (start t : Nat) (f : FightContents) : Prop :=
  (∀ id, f.moves id = false) ∨ t % 4294967296 ≤ t - start + 20

/-- **No player is moved by more frames than have passed since the fight was set up, and
one, however it goes on after its first update, exactly where that update finds nobody
moving or the clock has been at 0 since the fight was set up, or at most 20 ms before.**
The frames are those by which updates move the player. -/
theorem within_time_iff (pooled : FightContents) (contentsNum : ContentsNum) (matchID : Int)
    (group : Group) (start : Nat) (before : List (Nat × FightEvent)) (t : Nat)
    (htimed : Timed start (before ++ [(t, .update (clock t))]))
    (hfirst : ∀ entry ∈ before, ∀ now, entry.2 ≠ .update now) :
    WithinTime start (newFight pooled contentsNum matchID group) before ∧
      ((∀ after, Timed start (before ++ (t, .update (clock t)) :: after) →
          WithinTime start (newFight pooled contentsNum matchID group)
            (before ++ (t, .update (clock t)) :: after)) ↔
        FirstUpdateFits start t
          (fightRun (newFight pooled contentsNum matchID group) (handled before))) ∧
      ∀ (f : FightContents) (now : UInt32) (id : SessionID),
        (f.onUpdate now).playerMap.find id = (f.playerMap.find id).map fun player =>
          applyMovement player (applied id f (.update now)) := by
  have hbefore : ∀ event ∈ handled before, ∀ now, event ≠ .update now := by
    intro event hmem
    obtain ⟨entry, hentry, rfl⟩ := List.mem_map.mp hmem
    exact hfirst entry hentry
  obtain ⟨htick, hnone⟩ :=
    run_without_update hbefore (newFight pooled contentsNum matchID group)
  refine ⟨fun until_ id _ => by rw [hnone]; omega, ?_, find_onUpdate_applied⟩
  rw [newFight_oldTick] at htick
  generalize hg : fightRun (newFight pooled contentsNum matchID group) (handled before) = g at htick
  obtain ⟨hframes, htick'⟩ := first_update_frames htick t
  have hstart : start ≤ t := htimed.le_last
  -- What a run applies: nothing before the update, its frames, and what follows.
  have hsplit : ∀ (after : List (Nat × FightEvent)) (id : SessionID),
      framesApplied id (newFight pooled contentsNum matchID group)
          (handled (before ++ (t, .update (clock t)) :: after)) =
        (if g.moves id then t % 4294967296 / 20 else 0) +
          framesApplied id (g.onUpdate (clock t)) (handled after) := by
    intro after id
    rw [handled, List.map_append, framesApplied, totalOf_append, ← framesApplied, ← handled, hnone,
      hg, Nat.zero_add, ← hframes]
    rfl
  constructor
  · intro hall
    rw [FirstUpdateFits, or_iff_not_imp_left, not_forall]
    rintro ⟨id, hid⟩
    have hmoves : g.moves id = true := by simpa using hid
    by_contra hahead
    -- One more update, at the end of a frame counted from `start`, shows the frames too many.
    let u := t + (19 - (t - start) % 20)
    have htimed' : Timed start (before ++ (t, .update (clock t)) :: [(u, .update (clock u))]) :=
      htimed.concat (by omega) (by simp [FightEvent.reading])
    have hends : ∀ entry ∈ before ++ (t, .update (clock t)) :: [(u, .update (clock u))],
        entry.1 ≤ u := by
      have hlist : before ++ (t, FightEvent.update (clock t)) :: [(u, .update (clock u))] =
          before ++ [(t, .update (clock t))] ++ [(u, .update (clock u))] := by simp
      rw [hlist] at htimed' ⊢
      exact htimed'.times_le
    have hwithin := hall _ htimed' u id hends
    have hnext := (onUpdate_tick htick' (by omega : t - t % 4294967296 % 20 ≤ u)).1
    have hlast : framesApplied id (g.onUpdate (clock t)) (handled [(u, .update (clock u))]) =
        (u - (t - t % 4294967296 % 20)) % 4294967296 / 20 := by
      rw [← hnext]
      simp [handled, framesApplied, totalOf, applied, moves_onUpdate, hmoves]
    rw [hsplit, hmoves, if_pos rfl, hlast] at hwithin
    omega
  · rintro hfits after htimed' until_ id hall
    have ht : t ≤ until_ := hall (t, .update (clock t)) (by simp)
    have hlater := framesApplied_le htick' (by omega : t - t % 4294967296 % 20 ≤ t)
      htimed'.after ht (fun entry hmem => hall entry (by simp [hmem])) id
    rw [hsplit]
    rcases hfits with hnobody | hwrapped
    · rw [hnobody id, if_neg (by simp)]
      omega
    · have hupdate : (if g.moves id then t % 4294967296 / 20 else 0) ≤ t % 4294967296 / 20 := by
        split <;> omega
      omega

/-- The six players of the first match enter at one time. -/
def sixEnterAt (t : Nat) : List (Nat × FightEvent) :=
  (fiveEnter ++ [firstEnter 5]).map fun event => (t, event)

theorem sixEnterAt_timed (t : Nat) :
    Timed t (sixEnterAt t ++ [(t + 10, .update (clock (t + 10)))]) := by
  simp [sixEnterAt, fiveEnter, List.range, List.range.loop, firstEnter, Timed, FightEvent.reading]

theorem sixEnterAt_without_update {t : Nat} :
    ∀ entry ∈ sixEnterAt t, ∀ now, entry.2 ≠ .update now := by
  simp [sixEnterAt, fiveEnter, List.range, List.range.loop, firstEnter]

/-- The clock is at 0 between the set-up and the first update. -/
theorem sixEnterAt_within_time :
    WithinTime 4294967290 firstFight
      (sixEnterAt 4294967290 ++ [(4294967300, .update (clock 4294967300))]) :=
  (within_time_iff pooledFight 1 1 firstGroup 4294967290 (sixEnterAt 4294967290) 4294967300
    (sixEnterAt_timed 4294967290) sixEnterAt_without_update).2.1.mpr (Or.inr (by decide)) []
      (sixEnterAt_timed 4294967290)

/-- A player starts to move 5 ms after the fight has been set up, and the first update
comes 15 ms later. -/
def earlyMove : List (Nat × FightEvent) :=
  sixEnterAt 100000 ++
    [(100005, .message (firstSession 0) (.moveStart dfPACKET_MOVE_DIR_RR 40 90) (clock 100005)),
      (100020, .update (clock 100020))]

theorem earlyMove_warped :
    StartedRun pooledFight 1 1 firstGroup fiveEnter (firstEnter 5)
        (handled (earlyMove.drop 6)) ∧
      handled (earlyMove.take 6) = fiveEnter ++ [firstEnter 5] ∧ Timed 100000 earlyMove ∧
      ¬ WithinTime 100000 firstFight earlyMove := by
  refine ⟨fiveEnter_started (by decide +kernel), by decide +kernel, ?_, fun hwithin => ?_⟩
  · simp [earlyMove, sixEnterAt, fiveEnter, List.range, List.range.loop, firstEnter, Timed,
      FightEvent.reading]
  · have hframes := hwithin 100020 (firstSession 0) (by decide +kernel)
    have hmany : framesApplied (firstSession 0) firstFight (handled earlyMove) = 5001 := by
      decide +kernel
    omega

end SessionServer.Battle
