/-
  Battle/FrameClock.lean --- the frames of a fight against the clock.

  `OnUpdate` turns the time since `_oldTick` into frames and carries the rest over in
  `_oldTick`.  From a tick that shows a time of the fight on, the frames passed are the time
  divided by the length of a frame.  `Clear` sets the tick to 0, which shows no time of the
  fight: its first update takes the time since the clock was at 0.
-/
import SessionServer.Battle.Started
import SessionServer.Foundation.Clock

set_option autoImplicit false

namespace SessionServer.Battle

open SessionServer.Foundation FightContents

/-! ## Runs on a clock -/

/-- What `timeGetTime` returns inside a handler. -/
def FightEvent.reading : FightEvent → Option UInt32
  | .update now => some now
  | .message _ _ now => some now
  | _ => none

/-- Events with the times they are handled at: none before the one before it, and each
reads the clock at its time. -/
def Timed : Nat → List (Nat × FightEvent) → Prop
  | _, [] => True
  | last, (t, event) :: rest =>
      last ≤ t ∧ (∀ now ∈ event.reading, now = clock t) ∧ Timed t rest

/-- The events of a timed run. -/
def handled (events : List (Nat × FightEvent)) : List FightEvent := events.map Prod.snd

theorem Timed.prefix {last : Nat} {before after : List (Nat × FightEvent)}
    (h : Timed last (before ++ after)) : Timed last before := by
  induction before generalizing last with
  | nil => trivial
  | cons event before ih => exact ⟨h.1, h.2.1, ih h.2.2⟩

theorem Timed.le_last {last t : Nat} {event : FightEvent} {before : List (Nat × FightEvent)}
    (h : Timed last (before ++ [(t, event)])) : last ≤ t := by
  induction before generalizing last with
  | nil => exact h.1
  | cons entry before ih => exact Nat.le_trans h.1 (ih h.2.2)

theorem Timed.after {last t : Nat} {event : FightEvent} {before after : List (Nat × FightEvent)}
    (h : Timed last (before ++ (t, event) :: after)) : Timed t after := by
  induction before generalizing last with
  | nil => exact h.2.2
  | cons entry before ih => exact ih h.2.2

/-- A run goes on with an event at a later time. -/
theorem Timed.concat {last t u : Nat} {event later : FightEvent}
    {before : List (Nat × FightEvent)} (h : Timed last (before ++ [(t, event)])) (hle : t ≤ u)
    (hreading : ∀ now ∈ later.reading, now = clock u) :
    Timed last (before ++ (t, event) :: [(u, later)]) := by
  induction before generalizing last with
  | nil => exact ⟨h.1, h.2.1, hle, hreading, trivial⟩
  | cons entry before ih => exact ⟨h.1, h.2.1, ih h.2.2⟩

/-- The last event of a run is the latest. -/
theorem Timed.times_le {last t : Nat} {event : FightEvent} {before : List (Nat × FightEvent)}
    (h : Timed last (before ++ [(t, event)])) :
    ∀ entry ∈ before ++ [(t, event)], entry.1 ≤ t := by
  induction before generalizing last with
  | nil => simp
  | cons first before ih =>
      intro entry hmem
      rcases List.mem_cons.mp hmem with rfl | hrest
      · exact h.2.2.le_last
      · exact ih h.2.2 entry hrest

/-! ## Frames -/

namespace FightContents

/-- The frames `OnUpdate` passes to `ApplyMovement`. -/
def frames (f : FightContents) (now : UInt32) : Nat := ((now - f.oldTick) / 20).toNat

end FightContents

/-- The map after `ApplyMovement` of a number of frames for every player that moves. -/
def PlayerMap.applyFrames (m : PlayerMap) (frame : Nat) : PlayerMap :=
  m.map fun entry =>
    if entry.2.move ≠ -1 then (entry.1, FightContents.applyMovement entry.2 frame) else entry

theorem FightContents.onUpdate_frames (f : FightContents) (now : UInt32) :
    (f.onUpdate now).playerMap = f.playerMap.applyFrames (f.frames now) := rfl

/-- A count of the events of a run, added up. -/
def totalOf (count : FightContents → FightEvent → Nat) : FightContents → List FightEvent → Nat
  | _, [] => 0
  | f, event :: events => count f event + totalOf count (fightStep f event).1 events

theorem totalOf_append (count : FightContents → FightEvent → Nat) (f : FightContents)
    (before after : List FightEvent) :
    totalOf count f (before ++ after) =
      totalOf count f before + totalOf count (fightRun f before) after := by
  induction before generalizing f with
  | nil => exact (Nat.zero_add _).symm
  | cons event before ih =>
      rw [List.cons_append, totalOf, totalOf, ih, Nat.add_assoc]
      rfl

/-- The frames of one event. -/
def eventFrames (f : FightContents) : FightEvent → Nat
  | .update now => f.frames now
  | _ => 0

/-- The frames passed in a run. -/
def framesPassed : FightContents → List FightEvent → Nat := totalOf eventFrames

theorem placeSlot_oldTick (acc : FightContents × List Effect) (i : Fin 3) :
    (placeSlot acc i).1.oldTick = acc.1.oldTick := by
  have hplace : ∀ (f : FightContents) (sessionID : SessionID) (id : Nat) (x : Int) (slot : Nat)
      (direction : UInt8), (f.placePlayer sessionID id x slot direction).1.oldTick = f.oldTick := by
    intro f sessionID id x slot direction
    rw [placePlayer_fst]
    split <;> rfl
  simp only [placeSlot, hplace]

theorem FightContents.onEnter_oldTick (f : FightContents) (sessionID : SessionID)
    (found : Option Player) (moved : Bool) :
    (f.onEnter sessionID found moved).1.oldTick = f.oldTick := by
  obtain ⟨players, red, blue, hcounted⟩ := f.countEnter_frame sessionID found moved
  obtain ⟨winLoss, hchecked⟩ := (f.countEnter sessionID found moved).checkGameEnd_fst
  have htick : (f.countEnter sessionID found moved).oldTick = f.oldTick := by rw [hcounted]
  have hsame : (f.countEnter sessionID found moved).checkGameEnd.1.oldTick = f.oldTick := by
    rw [hchecked, htick]
  simp only [onEnter]
  split
  · split
    · exact hsame
    · simp only [startFight, List.foldl_cons, List.foldl_nil, placeSlot_oldTick, hsame]
  · exact htick

theorem FightContents.onLeave_oldTick (f : FightContents) (sessionID : SessionID) :
    (f.onLeave sessionID).1.oldTick = f.oldTick := by
  unfold onLeave
  split
  · rfl
  · rename_i player hfind
    obtain ⟨winLoss, hchecked⟩ := (f.removePlayer sessionID player).1.checkGameEnd_fst
    have hsame : (f.removePlayer sessionID player).1.checkGameEnd.1.oldTick = f.oldTick := by
      rw [hchecked, removePlayer_fst]
    simp only
    split <;> exact hsame

/-- Only an update moves the tick. -/
theorem fightStep_oldTick {f : FightContents} {event : FightEvent}
    (h : ∀ now, event ≠ .update now) : (fightStep f event).1.oldTick = f.oldTick := by
  cases event with
  | enter sessionID found moved => exact f.onEnter_oldTick sessionID found moved
  | leave sessionID => exact f.onLeave_oldTick sessionID
  | update now => exact absurd rfl (h now)
  | message sessionID message now =>
      have hmessaged := f.procMessage_messaged sessionID message now
      simp only [fightStep]
      generalize f.procMessage sessionID message now = out at hmessaged
      cases hmessaged <;> rfl
  | rehash order =>
      simp only [fightStep]
      split <;> rfl

/-- **One update.**  The frames are the time since the tick, divided by 20 and up to whole
laps of the clock; the tick moves on by what the frames take. -/
theorem onUpdate_tick {f : FightContents} {origin t : Nat} (htick : f.oldTick = clock origin)
    (hle : origin ≤ t) :
    f.frames (clock t) = (t - origin) % 4294967296 / 20 ∧
      (f.onUpdate (clock t)).oldTick =
        clock (origin + 20 * ((t - origin) % 4294967296 / 20)) := by
  have hdelta := clock_sub hle
  have hlt := Nat.mod_lt (t - origin) (by decide : 0 < 4294967296)
  have hframes : f.frames (clock t) = (t - origin) % 4294967296 / 20 := by
    rw [frames, htick, UInt32.toNat_div, hdelta]
    rfl
  refine ⟨hframes, ?_⟩
  show f.oldTick + (clock t - f.oldTick - (clock t - f.oldTick) % 20) = _
  rw [htick]
  refine clock_add origin ?_
  rw [UInt32.toNat_sub_of_le, UInt32.toNat_mod, hdelta]
  · show _ - _ % 20 = _
    omega
  · rw [UInt32.le_iff_toNat_le, UInt32.toNat_mod, hdelta]
    exact Nat.mod_le _ _

/-! ## No drift -/

/-- The first update comes less than `gap` after `last`, and every later one less than
2^32 - 20 ms after the one before it. -/
def Spaced : Nat → Nat → List (Nat × FightEvent) → Prop
  | _, _, [] => True
  | gap, last, (t, .update _) :: rest => t < last + gap ∧ Spaced (4294967296 - 20) t rest
  | gap, last, _ :: rest => Spaced gap last rest

/-- When the last update was. -/
def lastUpdate : Nat → List (Nat × FightEvent) → Nat
  | last, [] => last
  | _, (t, .update _) :: rest => lastUpdate t rest
  | last, _ :: rest => lastUpdate last rest

theorem Spaced.prefix {gap last : Nat} {before after : List (Nat × FightEvent)}
    (h : Spaced gap last (before ++ after)) : Spaced gap last before := by
  fun_induction Spaced gap last before with
  | case1 => trivial
  | case2 gap last t now rest ih => exact ⟨h.1, ih h.2⟩
  | case3 gap last event rest hnot ih => exact ih (by simpa [Spaced, hnot] using h)

theorem lastUpdate_append (last : Nat) (before : List (Nat × FightEvent)) (t : Nat)
    (now : UInt32) : lastUpdate last (before ++ [(t, .update now)]) = t := by
  fun_induction lastUpdate last before with
  | case1 => rfl
  | case2 last t' now' rest ih => exact ih
  | case3 last event rest hnot ih => simpa [lastUpdate, hnot] using ih

/-- The tick shows the time up to which frames have been passed, less than one frame
before the last update. -/
structure TickInTime (start last passed : Nat) (f : FightContents) : Prop where
  tick : f.oldTick = clock (start + 20 * passed)
  reached : start + 20 * passed ≤ last
  near : last < start + 20 * passed + 20

theorem TickInTime.update {start last passed t : Nat} {f : FightContents}
    (h : TickInTime start last passed f) (hle : last ≤ t)
    (hlt : t < start + 20 * passed + 4294967296) :
    TickInTime start t (passed + f.frames (clock t)) (f.onUpdate (clock t)) := by
  obtain ⟨htick, hreached, hnear⟩ := h
  obtain ⟨hframes, htick'⟩ := onUpdate_tick htick (Nat.le_trans hreached hle)
  rw [Nat.mod_eq_of_lt (by omega)] at hframes htick'
  rw [hframes]
  refine ⟨htick'.trans (congrArg clock ?_), ?_, ?_⟩ <;> omega

/-- Every run keeps the tick on time. -/
theorem TickInTime.run {start : Nat} {events : List (Nat × FightEvent)} :
    ∀ {gap last update passed : Nat} {f : FightContents}, TickInTime start update passed f →
      update ≤ last → update + gap ≤ start + 20 * passed + 4294967296 → Timed last events →
      Spaced gap update events →
      TickInTime start (lastUpdate update events) (passed + framesPassed f (handled events))
        (fightRun f (handled events)) := by
  induction events with
  | nil => exact fun h _ _ _ _ => h
  | cons entry events ih =>
      obtain ⟨t, event⟩ := entry
      intro gap last update passed f h hle hgap ⟨hlast, hreading, htimed⟩ hspaced
      by_cases hupdate : ∃ now, event = .update now
      · obtain ⟨now, rfl⟩ := hupdate
        obtain rfl : now = clock t := hreading now rfl
        obtain ⟨hlt, hspaced⟩ := hspaced
        have hnext := h.update (Nat.le_trans hle hlast) (by omega)
        have hnear := hnext.near
        have hrun := ih hnext (Nat.le_refl t) (by omega) htimed hspaced
        rwa [Nat.add_assoc] at hrun
      · have hnot : ∀ now, event ≠ .update now := fun now heq => hupdate ⟨now, heq⟩
        have hnext : TickInTime start update passed (fightStep f event).1 :=
          ⟨(fightStep_oldTick hnot).trans h.tick, h.reached, h.near⟩
        have hspaced' : Spaced gap update events := by simpa [Spaced, hnot] using hspaced
        have hrun := ih hnext (Nat.le_trans hle hlast) hgap htimed hspaced'
        have hframes : framesPassed f (handled ((t, event) :: events)) =
            framesPassed (fightStep f event).1 (handled events) := by
          cases event with
          | update now => exact absurd rfl (hnot now)
          | _ => exact Nat.zero_add _
        have hlastUpdate : lastUpdate update ((t, event) :: events) = lastUpdate update events := by
          simp [lastUpdate, hnot]
        rw [hframes, hlastUpdate]
        exact hrun

/-- What an update passes to `ApplyMovement` is what it adds to the frames passed. -/
theorem playerMap_update (f : FightContents) (before : List FightEvent) (now : UInt32) :
    (fightRun f (before ++ [.update now])).playerMap =
      (fightRun f before).playerMap.applyFrames
        (framesPassed f (before ++ [.update now]) - framesPassed f before) := by
  have hrun : fightRun f (before ++ [.update now]) = (fightRun f before).onUpdate now := by
    rw [fightRun, List.foldl_append]
    rfl
  have hpassed : framesPassed f (before ++ [.update now]) =
      framesPassed f before + (fightRun f before).frames now := by
    rw [framesPassed, totalOf_append]
    rfl
  rw [hrun, onUpdate_frames, hpassed, Nat.add_sub_cancel_left]

/-- **Frame accounting has no drift.**  After every update the tick is less than one frame
behind the clock, and the frames passed so far are the time since `start`, when `_oldTick`
was at the clock, divided by 20; the update has passed to `ApplyMovement`, for every player
that moves, those that had not been passed before it. -/
theorem frames_without_drift (f : FightContents) (start : Nat) (hstart : f.oldTick = clock start)
    (events : List (Nat × FightEvent)) (htimed : Timed start events)
    (hspaced : Spaced 4294967296 start events) (before : List (Nat × FightEvent)) (t : Nat)
    (after : List (Nat × FightEvent)) (heq : events = before ++ (t, .update (clock t)) :: after) :
    (clock t - (fightRun f (handled (before ++ [(t, .update (clock t))]))).oldTick).toNat < 20 ∧
      framesPassed f (handled (before ++ [(t, .update (clock t))])) = (t - start) / 20 ∧
      (fightRun f (handled (before ++ [(t, .update (clock t))]))).playerMap =
        (fightRun f (handled before)).playerMap.applyFrames
          ((t - start) / 20 - framesPassed f (handled before)) := by
  have hsplit : events = (before ++ [(t, .update (clock t))]) ++ after := by simp [heq]
  rw [hsplit] at htimed hspaced
  have hzero : TickInTime start start 0 f := ⟨hstart, by omega, by omega⟩
  have hrun := hzero.run (Nat.le_refl start) (by omega) htimed.prefix hspaced.prefix
  rw [lastUpdate_append, Nat.zero_add] at hrun
  obtain ⟨htick, hreached, hnear⟩ := hrun
  have hpassed : framesPassed f (handled (before ++ [(t, .update (clock t))])) =
      (t - start) / 20 := by omega
  refine ⟨?_, hpassed, ?_⟩
  · rw [htick, clock_sub hreached, Nat.mod_eq_of_lt (by omega)]
    omega
  · have hmap := playerMap_update f (handled before) (clock t)
    have hhandled : handled (before ++ [(t, .update (clock t))]) =
        handled before ++ [.update (clock t)] := by simp [handled]
    rwa [← hhandled, hpassed] at hmap

/-- A fight in which one player moves to the right. -/
def movingFight : FightContents :=
  fightRun firstFight (fiveEnter ++
    [firstEnter 5, .message (firstSession 0) (.moveStart dfPACKET_MOVE_DIR_RR 40 90) 1])

/-- Three updates around the wrap of the clock. -/
def acrossWrap : List (Nat × FightEvent) :=
  [4294967290, 4294967310, 4294967355].map fun t => (t, .update (clock t))

theorem acrossWrap_without_drift :
    let f : FightContents := { movingFight with oldTick := 4294967280 }
    let run := fightRun f (handled acrossWrap)
    ((clock 4294967355 - run.oldTick).toNat < 20 ∧ framesPassed f (handled acrossWrap) = 75 / 20 ∧
      run.playerMap = (fightRun f (handled (acrossWrap.take 2))).playerMap.applyFrames
        (75 / 20 - framesPassed f (handled (acrossWrap.take 2)))) ∧
      (f.playerMap.find (firstSession 0)).map Player.x = some 40 ∧
      (run.playerMap.find (firstSession 0)).map Player.x = some 49 :=
  ⟨frames_without_drift { movingFight with oldTick := 4294967280 } 4294967280 (by decide) acrossWrap
    (by simp [acrossWrap, Timed, FightEvent.reading]) (by simp [acrossWrap, Spaced])
    [(4294967290, .update (clock 4294967290)), (4294967310, .update (clock 4294967310))]
    4294967355 [] rfl, by decide +kernel, by decide +kernel⟩

end SessionServer.Battle
