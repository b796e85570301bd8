/-
  Battle/BeforeStart.lean --- messages before the start of a fight.

  `OnEnter` switches a session to the fight at once.  The start values come with the sixth
  enter event; a message handled before it meets what the player object held before.
-/
import SessionServer.Battle.Started

set_option autoImplicit false

namespace SessionServer.Battle

open SessionServer.Foundation FightContents

/-- What the others see of the players: place, movement, direction and hp. -/
def FightContents.seen (f : FightContents) :
    List (SessionID × UInt16 × UInt16 × Int8 × UInt8 × Int8) :=
  f.playerMap.map fun entry =>
    (entry.1, entry.2.x, entry.2.y, entry.2.move, entry.2.direction, entry.2.hp)

/-- The message changes nothing others see, disconnects nobody else and is not broadcast. -/
structure NothingHappens (f : FightContents) (sessionID : SessionID) (message : CSMessage)
    (now : UInt32) : Prop where
  unchanged : (fightStep f (.message sessionID message now)).1.seen = f.seen
  nobodyElse : ∀ other, .disconnect other ∈ (fightStep f (.message sessionID message now)).2 →
    other = sessionID
  silent : ∀ sessions packet,
    .send sessions packet ∉ (fightStep f (.message sessionID message now)).2

/-- **Nothing happens at a message exactly where a check of its handler fails.** -/
theorem nothingHappens_iff (f : FightContents) (sessionID : SessionID) (message : CSMessage)
    (now : UInt32) :
    NothingHappens f sessionID message now ↔ f.accepted sessionID message now = none := by
  have hmessaged := f.procMessage_messaged sessionID message now
  constructor
  · intro hnothing
    cases haccepted : f.accepted sessionID message now with
    | none => rfl
    | some player =>
        obtain ⟨sessions, packet, hsend⟩ := hmessaged.sends haccepted
        exact absurd hsend (hnothing.silent sessions packet)
  · intro hnone
    obtain ⟨hsame, heffects⟩ := hmessaged.of_none hnone
    refine ⟨congrArg seen hsame, fun other hother => ?_, fun sessions packet hsend => ?_⟩
    · simp only [fightStep] at hother
      rcases heffects with heq | heq <;> simp [heq] at hother
      exact hother
    · simp only [fightStep] at hsend
      rcases heffects with heq | heq <;> simp [heq] at hsend

/-- **Until the sixth enter event nothing happens in a fight, in exactly the runs in which
every message handled by then fails a check of its handler.** -/
theorem nothing_before_start_iff (pooled : FightContents) (contentsNum : ContentsNum)
    (matchID : Int) (group : Group) (events : List FightEvent) :
    (∀ before sessionID message now after,
      events = before ++ .message sessionID message now :: after →
      (fightRun (newFight pooled contentsNum matchID group) before).matched < 6 →
      NothingHappens (fightRun (newFight pooled contentsNum matchID group) before) sessionID
        message now) ↔
    (∀ before sessionID message now after,
      events = before ++ .message sessionID message now :: after →
      (fightRun (newFight pooled contentsNum matchID group) before).matched < 6 →
      (fightRun (newFight pooled contentsNum matchID group) before).accepted sessionID message
        now = none) := by
  constructor
  · intro h before sessionID message now after heq hwaiting
    exact (nothingHappens_iff _ sessionID message now).mp
      (h before sessionID message now after heq hwaiting)
  · intro h before sessionID message now after heq hwaiting
    exact (nothingHappens_iff _ sessionID message now).mpr
      (h before sessionID message now after heq hwaiting)

/-- A red and a blue player have entered; both stand where a new player object is. -/
def twoWaiting : FightContents := fightRun firstFight [firstEnter 0, firstEnter 3]

/-- An attack of one of them costs the other 50 hp, and both are told so. -/
theorem twoWaiting_attack_hits :
    let out := fightStep twoWaiting
      (.message (firstSession 0) (.attack .attack3 dfPACKET_MOVE_DIR_RR 0 0) 1000)
    twoWaiting.matched = 2 ∧ out.1.seen ≠ twoWaiting.seen ∧
      .send [firstSession 3, firstSession 0] (.damage 0 0 50) ∈ out.2 := by
  decide +kernel

end SessionServer.Battle
