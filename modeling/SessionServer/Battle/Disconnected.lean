/-
  Battle/Disconnected.lean --- sessions a fight has disconnected.

  `Disconnect` raises a flag and the player goes with its `OnLeave`.  Until then the parsing
  loop hands the messages of the session to the handlers, and the player stays a target.
-/
import SessionServer.Battle.Health

set_option autoImplicit false

namespace SessionServer.Battle

open SessionServer.Foundation FightContents

/-! ## The sessions that are out -/

/-- The session an effect disconnects. -/
def Effect.disconnected : Effect → Option SessionID
  | .disconnect sessionID => some sessionID
  | _ => none

/-- A fight, and the sessions for which it has called `Disconnect` so far. -/
structure Watched where
  fight : FightContents
  out : List SessionID

def Watched.next (w : Watched) (event : FightEvent) : Watched where
  fight := (fightStep w.fight event).1
  out := w.out ++ (fightStep w.fight event).2.filterMap Effect.disconnected

def Watched.run (w : Watched) (events : List FightEvent) : Watched :=
  events.foldl Watched.next w

/-- What is watched is the run of the fight. -/
theorem Watched.run_fight (w : Watched) (events : List FightEvent) :
    (w.run events).fight = fightRun w.fight events := by
  induction events generalizing w with
  | nil => rfl
  | cons event events ih => exact ih (w.next event)

/-- An event respects who is out: a message of such a session changes no player and sends
nothing, and nobody's hp change that is out. -/
structure StaysOut (w : Watched) (event : FightEvent) : Prop where
  silent : ∀ sessionID message now, event = .message sessionID message now → sessionID ∈ w.out →
    (fightStep w.fight event).1.playerMap = w.fight.playerMap ∧
      ∀ sessions packet, .send sessions packet ∉ (fightStep w.fight event).2
  unharmed : ∀ old ∈ w.fight.playerMap, ∀ new ∈ (fightStep w.fight event).1.playerMap,
    new.1 = old.1 → old.1 ∈ w.out → new.2.hp = old.2.hp

/-- A message passes the checks of its handler only if its sender is not out, and hits only
a player that is not. -/
def SparesOut (w : Watched) : FightEvent → Prop
  | .message sessionID message now =>
      (sessionID ∈ w.out → w.fight.accepted sessionID message now = none) ∧
        ∀ hit ∈ w.fight.hit sessionID message now, hit.2.1 ∉ w.out
  | _ => True

instance (w : Watched) : (event : FightEvent) → Decidable (SparesOut w event)
  | .message sessionID message now =>
      inferInstanceAs (Decidable (_ ∧ ∀ hit ∈ w.fight.hit sessionID message now, _))
  | .enter _ _ _ => instDecidableTrue
  | .leave _ => instDecidableTrue
  | .update _ => instDecidableTrue
  | .rehash _ => instDecidableTrue

/-! ## One event -/

/-- A hit always changes the hp. -/
theorem applyDamage_hp_ne (player : Player) (type : AttackType) :
    (applyDamage player type.getAttackDamage).hp ≠ player.hp := by
  intro heq
  have htoInt := congrArg Int8.toInt heq
  have hlow := player.hp.le_toInt
  have hhigh := player.hp.toInt_lt
  have hpos := getAttackDamage_pos type
  have hle := getAttackDamage_le type
  rw [applyDamage, Int8.toInt_ofInt, Int.bmod_def] at htoInt
  simp only [Int8.size] at htoInt
  omega

/-- **One event** respects who is out exactly where its message does. -/
theorem staysOut_iff {w : Watched} (hkeys : w.fight.playerMap.keys.Nodup) {event : FightEvent}
    (hevent : event.entering = none) : StaysOut w event ↔ SparesOut w event := by
  constructor
  · intro hstays
    cases event with
    | message sessionID message now =>
        have hmessaged := w.fight.procMessage_messaged sessionID message now
        refine ⟨fun hout => ?_, ?_⟩
        · cases haccepted : w.fight.accepted sessionID message now with
          | none => rfl
          | some player =>
              obtain ⟨sessions, packet, hsend⟩ := hmessaged.sends haccepted
              exact absurd hsend ((hstays.silent _ _ _ rfl hout).2 sessions packet)
        · rintro ⟨type, target⟩ hhit hout
          obtain ⟨_, _, _, htarget, _⟩ := hit_spec hhit
          exact applyDamage_hp_ne target.2 type
            (hstays.unharmed target htarget _ (hmessaged.struck_mem hhit) rfl hout)
    | _ => trivial
  · intro hspares
    constructor
    · rintro sessionID message now rfl hout
      have hmessaged := w.fight.procMessage_messaged sessionID message now
      obtain ⟨hsame, heffects⟩ := hmessaged.of_none (hspares.1 hout)
      refine ⟨congrArg FightContents.playerMap hsame, fun sessions packet hsend => ?_⟩
      simp only [fightStep] at hsend
      rcases heffects with heq | heq <;> simp [heq] at hsend
    · intro old hold new hnew hkey hout
      obtain ⟨source, hsource, hsourcekey, _, hhp⟩ := fightStep_from hevent hnew
      obtain rfl := PlayerMap.eq_of_key hkeys hold hsource (by rw [← hkey, hsourcekey])
      rcases hhp with hhp | ⟨sessionID, message, now, type, rfl, hhit, _⟩
      · exact hhp
      · exact absurd hout (hspares.2 _ hhit)

/-! ## Every run -/

/-- A fight whose sixth enter event has been handled, and who is out by then. -/
def startedWatch (pooled : FightContents) (contentsNum : ContentsNum) (matchID : Int)
    (group : Group) (before : List FightEvent) (event : FightEvent) : Watched :=
  (Watched.run ⟨newFight pooled contentsNum matchID group, []⟩ before).next event

/-- **In a started fight nothing a disconnected session sends has an effect on the players,
and nothing harms it, in exactly the runs in which no message of such a session passes the
checks of its handler and no attack hits one.** -/
theorem stays_out_iff (pooled : FightContents) (contentsNum : ContentsNum) (matchID : Int)
    (group : Group) (before : List FightEvent) (event : FightEvent) (after : List FightEvent)
    (hstarted : StartedRun pooled contentsNum matchID group before event after) :
    (∀ done next rest, after = done ++ next :: rest →
      StaysOut ((startedWatch pooled contentsNum matchID group before event).run done) next) ↔
    (∀ done next rest, after = done ++ next :: rest →
      SparesOut ((startedWatch pooled contentsNum matchID group before event).run done)
        next) := by
  have hstart : (startedWatch pooled contentsNum matchID group before
      event).fight.playerMap.keys.Nodup := by
    have hkeys := startedFight_keys_nodup pooled contentsNum matchID group before event
    simpa only [startedWatch, Watched.next, Watched.run_fight, startedFight] using hkeys
  have hiff : ∀ (w : Watched) (next : FightEvent), w.fight.playerMap.keys.Nodup →
      next.entering = none → (StaysOut w next ↔ SparesOut w next) :=
    fun w next hkeys hnext => staysOut_iff hkeys hnext
  have hkeep : ∀ (w : Watched) (next : FightEvent), w.fight.playerMap.keys.Nodup →
      next.entering = none → SparesOut w next → (w.next next).fight.playerMap.keys.Nodup :=
    fun w next hkeys _ _ => fightStep_keys_nodup hkeys next
  exact foldl_forall_iff (I := fun w => w.fight.playerMap.keys.Nodup) hiff hkeep hstart
    hstarted.no_enter

def firstWatch : Watched := startedWatch pooledFight 1 1 firstGroup fiveEnter (firstEnter 5)

/-- A blue player at 0 is disconnected and leaves; a message of it arrives later. -/
def outAndGone : List FightEvent :=
  threeHits.take 4 ++ [.leave (firstSession 3),
    .message (firstSession 3) (.moveStart dfPACKET_MOVE_DIR_LL 600 90) 6500]

theorem outAndGone_stays_out :
    StartedRun pooledFight 1 1 firstGroup fiveEnter (firstEnter 5) outAndGone ∧
      ∀ done next rest, outAndGone = done ++ next :: rest →
        StaysOut (firstWatch.run done) next := by
  have hstarted : StartedRun pooledFight 1 1 firstGroup fiveEnter (firstEnter 5) outAndGone :=
    fiveEnter_started (by decide +kernel)
  refine ⟨hstarted, ?_⟩
  refine (stays_out_iff pooledFight 1 1 firstGroup fiveEnter (firstEnter 5) outAndGone
    hstarted).mpr ?_
  exact (forall_splits_iff (R := SparesOut)).mpr (by decide +kernel)

/-- Two messages of one session that lie behind each other in its queue: the first has an
invalid direction, the second is a move. -/
def outAndMoving : List FightEvent :=
  [.message (firstSession 0) (.moveStart 9 40 90) 1000,
    .message (firstSession 0) (.moveStart dfPACKET_MOVE_DIR_LL 40 90) 1000]

theorem outAndMoving_broadcasts :
    StartedRun pooledFight 1 1 firstGroup fiveEnter (firstEnter 5) outAndMoving ∧
      firstSession 0 ∈ (firstWatch.run (outAndMoving.take 1)).out ∧
      ∃ sessions, .send sessions (.moveStart 0 dfPACKET_MOVE_DIR_LL 40 90) ∈
        (fightStep (firstWatch.run (outAndMoving.take 1)).fight
          (.message (firstSession 0) (.moveStart dfPACKET_MOVE_DIR_LL 40 90) 1000)).2 := by
  refine ⟨fiveEnter_started (by decide +kernel), by decide +kernel, ?_⟩
  exact ⟨[5, 4, 3, 2, 1].map firstSession, by decide +kernel⟩

end SessionServer.Battle
