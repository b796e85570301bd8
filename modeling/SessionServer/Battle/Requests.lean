/-
  Battle/Requests.lean --- what a request of a client touches.

  A request that a handler refuses leaves the fight as it was.  A move that is accepted
  touches the sender, an attack the sender and the one enemy it strikes, whose range is
  measured from where the request has put the attacker.
-/
import SessionServer.Battle.Recycled
import SessionServer.Battle.Health

set_option autoImplicit false

namespace SessionServer.Battle

open FightContents

/-! ## The statement -/

/-- A handler refuses the message: the direction is no direction, nobody plays under the
session, the position does not match, nothing would change, or it is too early. -/
def FightContents.Refuses (f : FightContents) (sessionID : SessionID) (message : CSMessage)
    (now : UInt32) : Prop :=
  message.invalid = true ∨ f.playerMap.find sessionID = none ∨
    ∃ player, f.playerMap.find sessionID = some player ∧
      (message.inSync player = false ∨ message.isNews player = false ∨
        message.intervalOver player now = false)

/-- The fights differ in the players under these keys at most. -/
def SameBut (ids : List SessionID) (f g : FightContents) : Prop :=
  g = { f with playerMap := g.playerMap } ∧
    ∀ id, id ∉ ids → g.playerMap.find id = f.playerMap.find id

/-- The target stands on the side an attacker at `x`, `y` faces, within the range of the
attack. -/
def InReach (type : AttackType) (dir : UInt8) (x y : UInt16) (target : Player) : Prop :=
  ((dir = dfPACKET_MOVE_DIR_LL ∧ target.x.toNat ≤ x.toNat ∧
      (x.toNat : Int) - target.x.toNat < type.rangeX) ∨
    (dir = dfPACKET_MOVE_DIR_RR ∧ x.toNat ≤ target.x.toNat ∧
      (target.x.toNat : Int) - x.toNat < type.rangeX)) ∧
    (((y.toNat : Int) - target.y.toNat).natAbs : Int) < type.rangeY

/-- The request is written to its sender, and nobody else is touched. -/
structure ActsAlone (f g : FightContents) (sessionID : SessionID) (player written : Player) :
    Prop where
  found : f.playerMap.find sessionID = some player
  wrote : g.playerMap.find sessionID = some written
  others : SameBut [sessionID] f g

/-- The request is written to its sender, one enemy in reach takes the damage, and nobody
else is touched. -/
structure StrikesOne (f g : FightContents) (sessionID : SessionID) (player written : Player)
    (type : AttackType) (id : SessionID) (target : Player) : Prop where
  found : f.playerMap.find sessionID = some player
  wrote : g.playerMap.find sessionID = some written
  other : id ≠ sessionID
  stood : f.playerMap.find id = some target
  enemy : player.team ≠ target.team
  inReach : InReach type written.direction written.x written.y target
  hurt : g.playerMap.find id = some (applyDamage target type.getAttackDamage)
  others : SameBut [sessionID, id] f g

/-! ## Lookups -/

namespace PlayerMap

theorem find_modify (m : PlayerMap) (sessionID : SessionID) (write : Player → Player)
    (id : SessionID) :
    (m.modify sessionID write).find id =
      if id = sessionID then (m.find id).map write else m.find id := by
  induction m with
  | nil => split <;> rfl
  | cons entry m ih =>
      obtain ⟨key, player⟩ := entry
      simp only [PlayerMap.find, PlayerMap.modify, List.map_cons] at ih ⊢
      by_cases hkey : id = key
      · subst hkey
        by_cases hsession : id = sessionID <;> simp [hsession]
      · have hbeq : (id == key) = false := beq_false_of_ne hkey
        by_cases hsession : key = sessionID
        · simp only [hsession, if_true, List.lookup_cons] at hbeq ⊢
          rw [hbeq, ih]
        · simp only [hsession, if_false, List.lookup_cons]
          rw [hbeq, ih]

end PlayerMap

namespace FightContents

variable {f : FightContents} {sessionID : SessionID} {message : CSMessage} {now : UInt32}

theorem find_written (f : FightContents) {sessionID : SessionID} {old : Player} (player : Player)
    (hfind : f.playerMap.find sessionID = some old) :
    (f.written sessionID player).playerMap.find sessionID = some player := by
  rw [written, PlayerMap.find_modify, if_pos rfl, hfind, Option.map_some]

theorem find_written_ne (f : FightContents) {sessionID id : SessionID} (player : Player)
    (hne : id ≠ sessionID) :
    (f.written sessionID player).playerMap.find id = f.playerMap.find id := by
  rw [written, PlayerMap.find_modify, if_neg hne]

/-! ## The checks -/

theorem refuses_iff :
    f.Refuses sessionID message now ↔ f.accepted sessionID message now = none := by
  rw [accepted_eq_none]
  constructor
  · rintro (hinvalid | hnone | ⟨player, hfind, hfails⟩) other hother
    · rw [passes_eq, CSMessage.checks, hinvalid]
      rfl
    · rw [hnone] at hother
      contradiction
    · rw [hfind, Option.some.injEq] at hother
      subst hother
      rw [passes_eq, CSMessage.checks]
      rcases hfails with h | h | h <;> simp [h]
  · intro hfails
    cases hfind : f.playerMap.find sessionID with
    | none => exact Or.inr (Or.inl hfind)
    | some player =>
        have hpasses := hfails player hfind
        rw [passes_eq, CSMessage.checks] at hpasses
        simp only [Bool.and_eq_false_iff, Bool.not_eq_false'] at hpasses
        rcases hpasses with ((hinvalid | hsync) | hnews) | hinterval
        · exact Or.inl hinvalid
        · exact Or.inr (Or.inr ⟨player, hfind, Or.inl hsync⟩)
        · exact Or.inr (Or.inr ⟨player, hfind, Or.inr (Or.inl hnews)⟩)
        · exact Or.inr (Or.inr ⟨player, hfind, Or.inr (Or.inr hinterval)⟩)

theorem isTargetInAttackRange_iff {attacker target : Player} {type : AttackType} :
    isTargetInAttackRange attacker target type = true ↔
      InReach type attacker.direction attacker.x attacker.y target := by
  have hdir : dfPACKET_MOVE_DIR_LL ≠ dfPACKET_MOVE_DIR_RR := by decide
  have hsym : ((target.y.toNat : Int) - attacker.y.toNat).natAbs =
      ((attacker.y.toNat : Int) - target.y.toNat).natAbs := by omega
  unfold isTargetInAttackRange InReach
  by_cases hleft : attacker.direction = dfPACKET_MOVE_DIR_LL
  · simp only [hleft, if_true, hdir, false_and, or_false, true_and]
    split
    · simp only [Bool.false_eq_true, false_iff]
      omega
    · simp only [Bool.and_eq_true, decide_eq_true_eq]
      omega
  · simp only [hleft, if_false, false_and, false_or]
    by_cases hright : attacker.direction = dfPACKET_MOVE_DIR_RR
    · simp only [hright, if_true, true_and, hsym]
      split
      · simp only [Bool.false_eq_true, false_iff]
        omega
      · simp only [Bool.and_eq_true, decide_eq_true_eq]
        omega
    · simp [hright]

/-- The entry an attack strikes is in reach of the attacker as the request has left it. -/
theorem hit_inReach {type : AttackType} {entry : SessionID × Player} {player : Player}
    (haccepted : f.accepted sessionID message now = some player)
    (hhit : f.hit sessionID message now = some (type, entry)) :
    InReach type (message.write now player).direction (message.write now player).x
      (message.write now player).y entry.2 := by
  obtain ⟨_, _, htype, _⟩ := hit_spec hhit
  simp only [hit, haccepted, htype, Option.map_eq_some_iff] at hhit
  obtain ⟨found, hfound, heq⟩ := hhit
  rw [Prod.mk.injEq] at heq
  obtain ⟨-, rfl⟩ := heq
  have hchosen := List.find?_some hfound
  simp only [Bool.decide_and, Bool.and_eq_true, decide_eq_true_eq] at hchosen
  exact isTargetInAttackRange_iff.mp hchosen.2

/-- Only an attack strikes. -/
theorem attack_of_hit {type : AttackType} {entry : SessionID × Player}
    (hhit : f.hit sessionID message now = some (type, entry)) :
    ∃ dir x y, message = .attack type dir x y := by
  obtain ⟨_, _, htype, _⟩ := hit_spec hhit
  cases message with
  | attack type' dir x y =>
      obtain rfl : type' = type := by simpa [CSMessage.attackType] using htype
      exact ⟨dir, x, y, rfl⟩
  | _ => simp [CSMessage.attackType] at htype

/-! ## One request -/

variable {out : FightContents × List Effect} {player : Player}

theorem sameBut_written (f : FightContents) (sessionID : SessionID) (player : Player) :
    SameBut [sessionID] f (f.written sessionID player) :=
  ⟨rfl, fun id hid => f.find_written_ne player (by simpa using hid)⟩

theorem Messaged.acted_alone (h : Messaged f sessionID message now out)
    (haccepted : f.accepted sessionID message now = some player)
    (hnone : f.hit sessionID message now = none) :
    ActsAlone f out.1 sessionID player (message.write now player) := by
  have hfind := (accepted_eq_some.mp haccepted).1
  cases h with
  | refused effects hrefused heffects => simp [hrefused] at haccepted
  | acted other packet hpacket hother _ =>
      rw [haccepted, Option.some.injEq] at hother
      subst hother
      exact ⟨hfind, f.find_written _ hfind, f.sameBut_written sessionID _⟩
  | struck other packet hpacket type entry hother hhit => simp [hnone] at hhit

theorem Messaged.struck_one (h : Messaged f sessionID message now out)
    (hkeys : f.playerMap.keys.Nodup) {type : AttackType} {entry : SessionID × Player}
    (haccepted : f.accepted sessionID message now = some player)
    (hhit : f.hit sessionID message now = some (type, entry)) :
    StrikesOne f out.1 sessionID player (message.write now player) type entry.1 entry.2 := by
  have hfind := (accepted_eq_some.mp haccepted).1
  have hreach := hit_inReach haccepted hhit
  obtain ⟨attacker, hattacker, _, hmem, hne, henemy⟩ := hit_spec hhit
  rw [haccepted, Option.some.injEq] at hattacker
  subst hattacker
  have hstood : f.playerMap.find entry.1 = some entry.2 := PlayerMap.find_of_mem hkeys hmem
  cases h with
  | refused effects hrefused heffects => simp [hrefused] at haccepted
  | acted other packet hpacket hother hnone => simp [hnone] at hhit
  | struck other packet hpacket type' entry' hother hhit' =>
      rw [haccepted, Option.some.injEq] at hother
      subst hother
      rw [hhit, Option.some.injEq, Prod.mk.injEq] at hhit'
      obtain ⟨rfl, rfl⟩ := hhit'
      have hthere : (f.acting sessionID message now player).playerMap.find entry.1 =
          some entry.2 := (f.find_written_ne _ hne).trans hstood
      refine ⟨hfind, ?_, hne, hstood, henemy, hreach, find_written _ _ hthere, rfl,
        fun id hid => ?_⟩
      · exact (find_written_ne _ _ hne.symm).trans (f.find_written _ hfind)
      · simp only [List.mem_cons, List.not_mem_nil, or_false, not_or] at hid
        exact (find_written_ne _ _ hid.2).trans (f.find_written_ne _ hid.1)

/-- What a request that is refused leaves, and what it asks of the server. -/
theorem refused_changes_nothing (hrefuses : f.Refuses sessionID message now) :
    (f.procMessage sessionID message now).1 = f ∧
      ∀ sessions packet, .send sessions packet ∉ (f.procMessage sessionID message now).2 := by
  obtain ⟨hsame, heffects⟩ :=
    (f.procMessage_messaged sessionID message now).of_none (refuses_iff.mp hrefuses)
  refine ⟨hsame, fun sessions packet hmem => ?_⟩
  rcases heffects with hnone | hkick
  · simp [hnone] at hmem
  · simp [hkick] at hmem

end FightContents

/-- **A request that is refused changes nothing and is told to nobody; one that is accepted
is written to its sender, and only an attack touches anyone else: one enemy in reach at
most, who takes its damage.** -/
theorem request_touches (f : FightContents) (hkeys : f.playerMap.keys.Nodup)
    (sessionID : SessionID) (message : CSMessage) (now : UInt32) :
    (f.Refuses sessionID message now →
      (f.procMessage sessionID message now).1 = f ∧
        ∀ sessions packet, .send sessions packet ∉ (f.procMessage sessionID message now).2) ∧
    (¬ f.Refuses sessionID message now →
      ∃ player,
        ActsAlone f (f.procMessage sessionID message now).1 sessionID player
            (message.write now player) ∨
          ∃ type dir x y id target, message = .attack type dir x y ∧
            StrikesOne f (f.procMessage sessionID message now).1 sessionID player
              { player with lastAttackRequestAt := now, direction := dir, x := x, y := y } type id
              target) := by
  refine ⟨refused_changes_nothing, fun haccepts => ?_⟩
  have hmessaged := f.procMessage_messaged sessionID message now
  rw [refuses_iff, ← ne_eq, Option.ne_none_iff_exists'] at haccepts
  obtain ⟨player, haccepted⟩ := haccepts
  refine ⟨player, ?_⟩
  cases hhit : f.hit sessionID message now with
  | none => exact Or.inl (hmessaged.acted_alone haccepted hhit)
  | some found =>
      obtain ⟨type, entry⟩ := found
      have hstrikes := hmessaged.struck_one hkeys haccepted hhit
      obtain ⟨dir, x, y, rfl⟩ := attack_of_hit hhit
      exact Or.inr ⟨type, dir, x, y, entry.1, entry.2, rfl, hstrikes⟩

/-- A red player has walked up to a blue one. -/
def besideBlue : FightContents := fightRun firstStarted (threeHits.take 2)

theorem besideBlue_touches :
    ∃ player,
      ActsAlone besideBlue
          (besideBlue.procMessage (firstSession 0) (.attack .attack3 dfPACKET_MOVE_DIR_RR 550 90)
            5000).1 (firstSession 0) player
          ((CSMessage.attack .attack3 dfPACKET_MOVE_DIR_RR 550 90).write 5000 player) ∨
        ∃ type dir x y id target,
          CSMessage.attack .attack3 dfPACKET_MOVE_DIR_RR 550 90 = .attack type dir x y ∧
          StrikesOne besideBlue
            (besideBlue.procMessage (firstSession 0) (.attack .attack3 dfPACKET_MOVE_DIR_RR 550 90)
              5000).1 (firstSession 0) player
            { player with lastAttackRequestAt := 5000, direction := dir, x := x, y := y } type id
            target :=
  (request_touches besideBlue (by decide +kernel) (firstSession 0)
    (.attack .attack3 dfPACKET_MOVE_DIR_RR 550 90) 5000).2
      (by rw [refuses_iff]; decide +kernel)

end SessionServer.Battle
