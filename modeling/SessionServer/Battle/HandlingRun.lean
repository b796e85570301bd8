/-
  Battle/HandlingRun.lean --- a session lives in one place.

  A session that has entered is in one of a row of places: waiting in the match, in a
  group, on its way to a fight, or in the map of one fight.  All but the last make its
  `trail`, which holds nobody twice and nobody who is in a fight.  With it goes what
  the slot says: it names the contents that holds the session, so a release that reads
  it looks up that contents.
-/
import SessionServer.Battle.Handling
import SessionServer.Battle.HomeRun

set_option autoImplicit false

namespace SessionServer.Battle

open SessionServer.Foundation

/-! ## Places -/

/-- The sessions a control holds. -/
def Control.sessions : Control → List SessionID
  | .fightAlloc group => group.sessions
  | .fightFree _ => []
  | .matchDeregister => []

namespace Server

/-- The sessions between the match and a fight: in a group or with an enter event. -/
def underWay (s : Server) : List SessionID :=
  s.ctrlQ.flatMap Control.sessions ++ s.posting.elim [] Prod.snd ++ s.queue.map Prod.fst ++
    s.entering.map Prod.fst

/-- The contents number in the slot of a session. -/
def slotOf (s : Server) (id : SessionID) : Option ContentsNum :=
  (s.sessions id).map Session.contentsNum

/-- The session is in the map of a fight that was allocated. -/
def InFight (s : Server) (handle : FightHandle) (id : SessionID) : Prop :=
  handle < s.created ∧ id ∈ (s.fights handle).playerMap.keys

theorem InFight.congr {s s' : Server} (hfights : s'.fights = s.fights)
    (hcreated : s'.created = s.created) {handle : FightHandle} {id : SessionID}
    (h : s'.InFight handle id) : s.InFight handle id := by
  rwa [InFight, hfights, hcreated] at h

theorem numberOf_congr {s s' : Server} (hfights : s'.fights = s.fights) (contents : Contents) :
    s'.numberOf contents = s.numberOf contents := by
  cases contents with
  | match_ => rfl
  | fight handle => rw [numberOf, hfights, numberOf]

end Server

namespace Handling

/-- The slots the grouping in progress has assigned. -/
def assigned (h : Handling) : List SessionID := h.grouping.elim [] Grouping.slots

/-- The sessions a worker is about to insert. -/
def arriving (h : Handling) : List SessionID := h.inserting.map Inserting.id

/-- Who waits, is grouped or is on its way to a fight. -/
def trail (h : Handling) : List SessionID :=
  h.server.match_.playerMap ++ h.assigned ++ h.server.underWay ++ h.arriving

/-- Who waits in the match and has not been moved out of it. -/
def resting (h : Handling) : List SessionID :=
  if h.grouping.any Grouping.moved then h.server.match_.playerMap.tail
  else h.server.match_.playerMap

/-- The contents holds the session, or a worker that has moved the slot is about to
insert it there. -/
def Belongs (h : Handling) (id : SessionID) : Contents → Prop
  | .match_ => id ∈ h.resting
  | .fight handle => h.server.InFight handle id ∨ (handle < h.server.created ∧
      ∃ work ∈ h.inserting, work.handle = handle ∧ work.id = id ∧ work.moved = true)

/-- Numbers and handles stay in their range. -/
structure Bounded (h : Handling) : Prop where
  next : 1 ≤ h.server.nextContentsNum ∧ h.server.nextContentsNum < ROOM
  range : ∀ handle < h.server.created,
    1 ≤ (h.server.fights handle).contentsNum ∧ (h.server.fights handle).contentsNum < ROOM
  mapped : ∀ n contents, h.server.contentsMap n = some contents →
    (contents = .match_ ∧ n = MATCH) ∨
      ∃ handle, contents = .fight handle ∧ handle < h.server.created ∧
        (h.server.fights handle).contentsNum = n
  entering : ∀ id handle, (id, .fight handle) ∈ h.server.entering → handle < h.server.created
  inserting : ∀ work ∈ h.inserting, work.handle < h.server.created

/-- The session is in a phase in which its `OnLeave`, if any is due, is still to come. -/
def Reaches (s : Server) (id : SessionID) (contents : Contents) : Prop :=
  ∀ phase, s.phaseOf id = some phase → phase ≠ .left ∧ phase ≠ .released ∧
    ∀ target, phase = .leaving target → target = some contents

/-- **Every session has one place, and its slot names it.** -/
structure Placed (h : Handling) : Prop where
  once : h.trail.Nodup
  apart : ∀ handle id, h.server.InFight handle id → id ∉ h.trail
  alone : ∀ a b id, h.server.InFight a id → h.server.InFight b id → a = b
  slot : ∀ contents id, h.Belongs id contents →
    h.server.slotOf id = some (h.server.numberOf contents)
  leaves : ∀ contents id, h.Belongs id contents → h.server.Registered contents →
    Reaches h.server id contents
  known : ∀ id ∈ h.trail, h.server.phaseOf id ≠ none
  accepting : ∀ id, h.server.accepting = some id ↔ h.server.phaseOf id = some .accepting
  fresh : ∀ id, h.server.accepting = some id → h.grouping = none →
    id ∉ h.trail ∧ (∀ handle, ¬ h.server.InFight handle id) ∧ h.server.slotOf id = some MATCH
  grouping : h.grouping ≠ none → h.server.accepting ≠ none

theorem bounded_initial (pooled : FightContents) : Bounded (initialHandling pooled) where
  next := by simp [initialHandling, initialServer, ROOM]
  range := by simp [initialHandling, initialServer]
  mapped := (Server.register_initial pooled).mapped
  entering := by simp [initialHandling, initialServer]
  inserting := by simp [initialHandling]

theorem placed_initial (pooled : FightContents) : Placed (initialHandling pooled) where
  once := List.nodup_nil
  apart := by simp [initialHandling, initialServer, Server.InFight]
  alone := by simp [initialHandling, initialServer, Server.InFight]
  slot := by
    intro contents id hb
    cases contents <;>
      simp [initialHandling, initialServer, Belongs, resting, Server.InFight] at hb
  leaves := by
    intro contents id hb
    cases contents <;>
      simp [initialHandling, initialServer, Belongs, resting, Server.InFight] at hb
  known := by
    simp [initialHandling, initialServer, trail, assigned, arriving, Server.underWay]
  accepting := by simp [initialHandling, initialServer, Server.phaseOf]
  fresh := by simp [initialHandling, initialServer]
  grouping := by simp [initialHandling]

theorem mem_of_resting {h : Handling} {id : SessionID} (hid : id ∈ h.resting) :
    id ∈ h.server.match_.playerMap := by
  unfold resting at hid
  split at hid
  · exact List.mem_of_mem_tail hid
  · exact hid

/-- Who is about to be inserted is on the trail. -/
theorem trail_of_inserting {h : Handling} {work : Inserting} (hwork : work ∈ h.inserting) :
    work.id ∈ h.trail := by
  simp only [trail, List.mem_append]
  exact Or.inr (List.mem_map_of_mem hwork)

theorem nodup_of_subperm {α : Type} {xs ys : List α} (h : xs.Subperm ys) (hn : ys.Nodup) :
    xs.Nodup := by
  obtain ⟨zs, hperm, hsub⟩ := h
  exact hperm.nodup_iff.mp (hn.sublist hsub)

/-- A registered number is neither 0 nor that of a session on its way. -/
theorem Bounded.numberOf_ne {h : Handling} (hb : Bounded h) {contents : Contents}
    (hreg : h.server.Registered contents) :
    h.server.numberOf contents ≠ 0 ∧ h.server.numberOf contents ≠ -1 := by
  have hpos : ∀ n : Int, 1 ≤ n → n ≠ 0 ∧ n ≠ -1 := by omega
  rcases hb.mapped _ _ hreg with ⟨rfl, _⟩ | ⟨handle, rfl, hlt, _⟩
  · exact hpos MATCH (by decide)
  · exact hpos _ (hb.range handle hlt).1

/-! ## Steps that move nobody -/

/-- What a step must keep for everybody to stay in place. -/
structure Stays (h h' : Handling) : Prop where
  phaseOf : ∀ id, h'.server.phaseOf id = h.server.phaseOf id
  slotOf : ∀ id, h'.server.slotOf id = h.server.slotOf id
  trail : h'.trail.Subperm h.trail
  belongs : ∀ contents id, h'.Belongs id contents → h.Belongs id contents
  created : h'.server.created = h.server.created
  number : ∀ handle, (h'.server.fights handle).contentsNum = (h.server.fights handle).contentsNum
  keys : ∀ handle id, id ∈ (h'.server.fights handle).playerMap.keys →
    id ∈ (h.server.fights handle).playerMap.keys
  mapped : ∀ n contents, h'.server.contentsMap n = some contents →
    h.server.contentsMap n = some contents
  accepting : h'.server.accepting = h.server.accepting
  grouping : h'.grouping = none ↔ h.grouping = none

theorem Stays.inFight {h h' : Handling} (hs : Stays h h') {handle : FightHandle}
    {id : SessionID} (hin : h'.server.InFight handle id) : h.server.InFight handle id :=
  ⟨hs.created ▸ hin.1, hs.keys handle id hin.2⟩

theorem Stays.numberOf {h h' : Handling} (hs : Stays h h') (contents : Contents) :
    h'.server.numberOf contents = h.server.numberOf contents := by
  cases contents with
  | match_ => rfl
  | fight handle => exact hs.number handle

theorem Stays.registered {h h' : Handling} (hs : Stays h h') {contents : Contents}
    (hreg : h'.server.Registered contents) : h.server.Registered contents := by
  have hmap := hs.mapped _ _ hreg
  rwa [hs.numberOf] at hmap

theorem Placed.stays {h h' : Handling} (hp : Placed h) (hs : Stays h h') : Placed h' where
  once := nodup_of_subperm hs.trail hp.once
  apart := fun handle id hin hmem => hp.apart handle id (hs.inFight hin) (hs.trail.subset hmem)
  alone := fun a b id ha hb => hp.alone a b id (hs.inFight ha) (hs.inFight hb)
  slot := by
    intro contents id hb
    rw [hs.slotOf, hs.numberOf]
    exact hp.slot contents id (hs.belongs contents id hb)
  leaves := by
    intro contents id hb hreg phase hphase
    rw [hs.phaseOf] at hphase
    exact hp.leaves contents id (hs.belongs contents id hb) (hs.registered hreg) phase hphase
  known := by
    intro id hid
    rw [hs.phaseOf]
    exact hp.known id (hs.trail.subset hid)
  accepting := by
    intro id
    rw [hs.accepting, hs.phaseOf]
    exact hp.accepting id
  fresh := by
    intro id hacc hnone
    rw [hs.accepting] at hacc
    obtain ⟨htrail, hfight, hslot⟩ := hp.fresh id hacc (hs.grouping.mp hnone)
    refine ⟨fun hmem => htrail (hs.trail.subset hmem), fun handle hin => ?_, ?_⟩
    · exact hfight handle (hs.inFight hin)
    · rw [hs.slotOf]
      exact hslot
  grouping := by
    intro hsome
    rw [hs.accepting]
    exact hp.grouping fun hnone => hsome (hs.grouping.mpr hnone)

theorem slotOf_lowered {sessions sessions' : SessionID → Option Session}
    (hl : Server.Lowered sessions sessions') (id : SessionID) :
    (sessions' id).map Session.contentsNum = (sessions id).map Session.contentsNum := by
  rcases hl id with heq | ⟨session, hs, hs'⟩
  · rw [heq]
  · rw [hs, hs']
    rfl

/-- A step of the server by itself, in which the match loses nobody while it groups. -/
theorem stays_server {h : Handling} {s : Server} (hphase : ∀ id, s.phaseOf id = h.server.phaseOf id)
    (hslot : ∀ id, s.slotOf id = h.server.slotOf id)
    (hmatch : s.match_.playerMap = h.server.match_.playerMap ∨
      (h.grouping = none ∧ s.match_.playerMap.Subperm h.server.match_.playerMap))
    (hway : s.underWay.Subperm h.server.underWay) (hcreated : s.created = h.server.created)
    (hnumber : ∀ handle, (s.fights handle).contentsNum = (h.server.fights handle).contentsNum)
    (hkeys : ∀ handle id, id ∈ (s.fights handle).playerMap.keys →
      id ∈ (h.server.fights handle).playerMap.keys)
    (hmapped : ∀ n contents, s.contentsMap n = some contents →
      h.server.contentsMap n = some contents)
    (hacc : s.accepting = h.server.accepting) : Stays h { h with server := s } where
  phaseOf := hphase
  slotOf := hslot
  trail := by
    have hsub : s.match_.playerMap.Subperm h.server.match_.playerMap := by
      rcases hmatch with heq | ⟨_, hsub⟩
      · exact heq ▸ List.Subperm.refl _
      · exact hsub
    simp only [trail, List.append_assoc]
    refine ((List.subperm_append_right _).mpr hsub).trans ((List.subperm_append_left _).mpr ?_)
    exact (List.subperm_append_left _).mpr ((List.subperm_append_right _).mpr hway)
  belongs := by
    intro contents id hb
    cases contents with
    | match_ =>
        rcases hmatch with heq | ⟨hnone, hsub⟩
        · simpa only [Belongs, resting, heq] using hb
        · simp only [Belongs, resting, hnone, Option.any_none, Bool.false_eq_true,
            if_false] at hb ⊢
          exact hsub.subset hb
    | fight handle =>
        rcases hb with hin | ⟨hlt, hwork⟩
        · exact Or.inl ⟨hcreated ▸ hin.1, hkeys handle id hin.2⟩
        · exact Or.inr ⟨hcreated ▸ hlt, hwork⟩
  created := hcreated
  number := hnumber
  keys := hkeys
  mapped := hmapped
  accepting := hacc
  grouping := Iff.rfl

theorem Bounded.of_server {h : Handling} (hb : Bounded h) {s : Server}
    (hnext : 1 ≤ s.nextContentsNum ∧ s.nextContentsNum < ROOM)
    (hcreated : s.created = h.server.created)
    (hnumber : ∀ handle, (s.fights handle).contentsNum = (h.server.fights handle).contentsNum)
    (hmapped : ∀ n contents, s.contentsMap n = some contents →
      h.server.contentsMap n = some contents)
    (hentering : ∀ id handle, (id, .fight handle) ∈ s.entering → handle < h.server.created) :
    Bounded { h with server := s } where
  next := hnext
  range := by
    intro handle hlt
    rw [hnumber]
    exact hb.range handle (hcreated ▸ hlt)
  mapped := by
    intro n contents hn
    rcases hb.mapped n contents (hmapped n contents hn) with hm | ⟨handle, hc, hlt, hnum⟩
    · exact Or.inl hm
    · exact Or.inr ⟨handle, hc, hcreated.symm ▸ hlt, (hnumber handle).trans hnum⟩
  entering := by
    intro id handle hmem
    exact hcreated.symm ▸ hentering id handle hmem
  inserting := by
    intro work hwork
    exact hcreated.symm ▸ hb.inserting work hwork

/-- A session goes on in its life while its places stay. -/
theorem Placed.setPhase {h : Handling} (hp : Placed h) {id : SessionID} {phase : Phase}
    (hold : h.server.phaseOf id ≠ some .accepting) (hnew : phase ≠ .accepting)
    (hreaches : ∀ contents, h.Belongs id contents → h.server.Registered contents →
      phase ≠ .left ∧ phase ≠ .released ∧ ∀ target, phase = .leaving target →
        target = some contents) :
    Placed { h with server := h.server.setPhase id phase } := by
  have hphase := h.server.phaseOf_setPhase id phase
  have hslot : ∀ id', (h.server.setPhase id phase).slotOf id' = h.server.slotOf id' := by
    intro id'
    simp only [Server.slotOf, Server.setPhase, Server.modifySession]
    split
    · cases h.server.sessions id' <;> rfl
    · rfl
  constructor
  · exact hp.once
  · exact hp.apart
  · exact hp.alone
  · intro contents id' hb
    rw [hslot]
    exact hp.slot contents id' hb
  · intro contents id' hb hreg phase' hphase'
    rw [hphase] at hphase'
    split at hphase'
    · rename_i heq
      obtain ⟨_, _, rfl⟩ := Option.map_eq_some_iff.mp hphase'
      exact hreaches contents (heq ▸ hb) hreg
    · exact hp.leaves contents id' hb hreg phase' hphase'
  · intro id' hid
    rw [hphase]
    split
    · exact fun hnone => hp.known id' hid (Option.map_eq_none_iff.mp hnone)
    · exact hp.known id' hid
  · intro id'
    rw [hphase]
    by_cases heq : id' = id
    · subst heq
      rw [if_pos rfl]
      refine ⟨fun hacc => absurd ((hp.accepting id').mp hacc) hold, fun hp' => ?_⟩
      obtain ⟨_, _, heq⟩ := Option.map_eq_some_iff.mp hp'
      exact absurd heq hnew
    · rw [if_neg heq]
      exact hp.accepting id'
  · intro id' hacc hnone
    obtain ⟨htrail, hfight, hs⟩ := hp.fresh id' hacc hnone
    exact ⟨htrail, hfight, (hslot id').trans hs⟩
  · exact hp.grouping

/-- `Release` looks up the contents the slot names, which is the one that holds the
session. -/
theorem Placed.leaveTarget {h : Handling} (hp : Placed h) (hb : Bounded h) {id : SessionID}
    {contents : Contents} (hbelongs : h.Belongs id contents)
    (hreg : h.server.Registered contents) : h.server.leaveTarget id = some contents := by
  obtain ⟨session, hs, hnum⟩ := Option.map_eq_some_iff.mp (hp.slot contents id hbelongs)
  have hne := hb.numberOf_ne hreg
  simp only [Server.leaveTarget, hs, hnum, hne, ne_eq, not_false_eq_true, and_self, if_true]
  exact hreg

/-! ## Handlers that take nobody in -/

/-- Queues whose sessions are the same. -/
theorem underWay_congr {s s' : Server}
    (hq : s'.ctrlQ.flatMap Control.sessions = s.ctrlQ.flatMap Control.sessions)
    (hposting : s'.posting = s.posting) (hqueue : s'.queue = s.queue)
    (hentering : s'.entering = s.entering) : s'.underWay = s.underWay := by
  simp only [Server.underWay, hq, hposting, hqueue, hentering]

theorem sessions_fightFree (handles : List FightHandle) :
    (handles.map Control.fightFree).flatMap Control.sessions = [] := by
  rw [List.flatMap_eq_nil_iff]
  intro control hmem
  obtain ⟨handle, _, rfl⟩ := List.mem_map.mp hmem
  rfl

/-- The keys of a fight after an event are those after its counting. -/
theorem fightEvent_keys (s : Server) (handle : FightHandle) (event : FightEvent)
    (k : FightHandle) (id : SessionID) :
    id ∈ ((s.fightEvent handle event).fights k).playerMap.keys ↔
      id ∈ (if k = handle then (s.fights handle).counted event else s.fights k).playerMap.keys := by
  obtain ⟨-, -, -, -, -, -, -, -, -, -, -, hfights⟩ := s.fightEvent_rest handle event
  rw [hfights]
  simp only
  split
  · exact ((s.fights handle).fightStep_kept event).keys.mem_iff
  · exact Iff.rfl

theorem fightEvent_number (s : Server) (handle : FightHandle) (event : FightEvent)
    (k : FightHandle) :
    ((s.fightEvent handle event).fights k).contentsNum = (s.fights k).contentsNum := by
  obtain ⟨-, -, -, -, -, -, -, -, -, -, -, hfights⟩ := s.fightEvent_rest handle event
  rw [hfights]
  simp only
  split
  · rename_i heq
    rw [heq, ((s.fights handle).fightStep_init event).1]
  · rfl

theorem fightEvent_underWay (s : Server) (handle : FightHandle) (event : FightEvent) :
    (s.fightEvent handle event).underWay = s.underWay := by
  obtain ⟨-, -, -, -, -, -, hposting, -, hqueue, hentering, -, -⟩ :=
    s.fightEvent_rest handle event
  refine underWay_congr ?_ hposting hqueue hentering
  rw [(s.fightEvent_spec handle event).ctrlQ, List.flatMap_append, sessions_fightFree,
    List.append_nil]

theorem fightEvent_slotOf (s : Server) (handle : FightHandle) (event : FightEvent)
    (id : SessionID) : (s.fightEvent handle event).slotOf id = s.slotOf id :=
  slotOf_lowered (s.fightEvent_spec handle event).lowered id

/-- A handler of a fight that takes nobody in. -/
theorem stays_fightEvent (h : Handling) (handle : FightHandle) (event : FightEvent)
    (hkeys : ∀ id, id ∈ ((h.server.fights handle).counted event).playerMap.keys →
      id ∈ (h.server.fights handle).playerMap.keys) :
    Stays h { h with server := h.server.fightEvent handle event } := by
  obtain ⟨hacc, -, -, hmatch, hmap, hcreated, -, -, -, -, -, -⟩ :=
    h.server.fightEvent_rest handle event
  refine stays_server (h.server.fightEvent_phaseOf handle event)
    (fightEvent_slotOf h.server handle event) (Or.inl (by rw [hmatch])) ?_ hcreated
    (fightEvent_number h.server handle event) ?_ (fun n contents hn => by rwa [hmap] at hn) hacc
  · rw [fightEvent_underWay]
  · intro k id hid
    rw [fightEvent_keys] at hid
    split at hid
    · rename_i heq
      exact heq ▸ hkeys id hid
    · exact hid

theorem Bounded.fightEvent {h : Handling} (hb : Bounded h) (handle : FightHandle)
    (event : FightEvent) : Bounded { h with server := h.server.fightEvent handle event } := by
  obtain ⟨-, -, -, -, hmap, hcreated, -, hnext, -, hentering, -, -⟩ :=
    h.server.fightEvent_rest handle event
  refine hb.of_server (by rw [hnext]; exact hb.next) hcreated
    (fightEvent_number h.server handle event) (fun n contents hn => by rwa [hmap] at hn) ?_
  rw [hentering]
  exact hb.entering

theorem find_of_mem_keys {m : PlayerMap} {id : SessionID} (h : id ∈ m.keys) :
    m.find id ≠ none := by
  intro hnone
  obtain ⟨entry, hmem, rfl⟩ := List.mem_map.mp h
  have := List.lookup_eq_none_iff.mp hnone entry hmem
  simp at this

/-- After `OnLeave` the session is gone. -/
theorem counted_leave_gone (f : FightContents) (id : SessionID) :
    id ∉ (f.counted (.leave id)).playerMap.keys := by
  simp only [FightContents.counted]
  split
  · rename_i hnone
    exact fun hmem => find_of_mem_keys hmem hnone
  · rw [FightContents.removePlayer_fst]
    exact fun hmem => (PlayerMap.mem_keys_erase.mp hmem).2 rfl

/-- The match and its queue when nobody enters. -/
theorem stays_match {h : Handling} {s : Server} (hframe : Server.MatchFrame h.server s)
    (hslot : ∀ id, s.slotOf id = h.server.slotOf id) (hidle : h.grouping = none)
    (hmap : s.match_.playerMap.Subperm h.server.match_.playerMap)
    (hq : s.ctrlQ.flatMap Control.sessions = h.server.ctrlQ.flatMap Control.sessions) :
    Stays h { h with server := s } := by
  have hf := hframe.frame
  refine stays_server hf.phaseOf hslot (Or.inr ⟨hidle, hmap⟩) ?_ hf.created
    (fun handle => by rw [hf.fights]) (fun handle id hid => by rwa [hf.fights] at hid)
    (fun n contents hn => by rwa [hf.contentsMap] at hn) hf.accepting
  rw [underWay_congr hq hf.posting hf.queue hf.entering]

theorem Bounded.frame {h : Handling} (hb : Bounded h) {s : Server}
    (hf : Server.Frame h.server s) : Bounded { h with server := s } := by
  refine hb.of_server (by rw [hf.nextContentsNum]; exact hb.next) hf.created
    (fun handle => by rw [hf.fights]) (fun n contents hn => by rwa [hf.contentsMap] at hn) ?_
  rw [hf.entering]
  exact hb.entering

/-- The session a release takes out has no place left. -/
theorem Placed.left {h h' : Handling} (hp : Placed h) (hs : Stays h h') {id : SessionID}
    {target : Option Contents} (hphase : h.server.phaseOf id = some (.leaving target))
    (hgone : ∀ contents, target = some contents → ¬ h'.Belongs id contents) :
    Placed { h' with server := h'.server.setPhase id .left } := by
  have hphase' : h'.server.phaseOf id = some (.leaving target) := by rw [hs.phaseOf, hphase]
  have hp' := hp.stays hs
  refine hp'.setPhase (by simp [hphase']) (by simp) fun contents hbelongs hreg => ?_
  have htarget := (hp'.leaves contents id hbelongs hreg _ hphase').2.2 target rfl
  exact absurd hbelongs (hgone contents htarget)

theorem Stays.refl (h : Handling) : Stays h h where
  phaseOf := fun _ => rfl
  slotOf := fun _ => rfl
  trail := List.Subperm.refl _
  belongs := fun _ _ hb => hb
  created := rfl
  number := fun _ => rfl
  keys := fun _ _ hid => hid
  mapped := fun _ _ hn => hn
  accepting := rfl
  grouping := Iff.rfl

theorem checkStopRequested_sessions (s : Server) :
    s.checkStopRequested.ctrlQ.flatMap Control.sessions = s.ctrlQ.flatMap Control.sessions := by
  obtain ⟨_, _, hq | ⟨hq, _⟩⟩ := Server.checkStopRequested_spec s
  · rw [hq]
  · rw [hq, List.flatMap_append]
    exact List.append_nil _

theorem matchLeave_stays {h : Handling} (hidle : h.grouping = none) (id : SessionID) :
    Stays h { h with server := h.server.matchLeave id } := by
  have hspec := Server.checkStopRequested_spec
    { h.server with match_ := { h.server.match_ with
        playerMap := h.server.match_.playerMap.filter (· ≠ id) } }
  refine stays_match (h.server.matchLeave_frame id) (fun id' => ?_) hidle ?_ ?_
  · simp only [Server.slotOf, Server.matchLeave, hspec.2.1]
  · rw [(matchLeave_spec h.server id).1]
    exact List.filter_sublist.subperm
  · exact checkStopRequested_sessions _

theorem matchShutDown_stays {h : Handling} (hidle : h.grouping = none) :
    Stays h { h with server := h.server.matchShutDown } := by
  obtain ⟨hmatch, hsessions, hq⟩ := h.server.matchShutDown_spec
  refine stays_match h.server.matchShutDown_frame (fun id => ?_) hidle (by rw [hmatch]) ?_
  · simp only [Server.slotOf, hsessions]
    exact slotOf_lowered (Server.foldl_disconnect_lowered h.server.match_.playerMap
      { h.server with match_ := { h.server.match_ with stopRequested := true } }) id
  · rcases hq with hq | ⟨hq, _⟩
    · rw [hq]
    · rw [hq, List.flatMap_append]
      exact List.append_nil _

/-! ## Accepting and allocating -/

theorem Placed.inFight_slot {h : Handling} (hp : Placed h) {handle : FightHandle}
    {id : SessionID} (hin : h.server.InFight handle id) : h.server.slotOf id ≠ none := by
  rw [hp.slot (.fight handle) id (Or.inl hin)]
  simp

/-- A new session has no place yet. -/
theorem Placed.accept {h : Handling} (hp : Placed h) {id : SessionID}
    (hidle : h.server.accepting = none) (hnew : h.server.sessions id = none) :
    Placed { h with
      server := { h.server with
        accepting := some id
        sessions := fun id' =>
          if id' = id then some ⟨.accepting, false, MATCH⟩ else h.server.sessions id' } } := by
  have hphase : h.server.phaseOf id = none := by simp [Server.phaseOf, hnew]
  have hslot : h.server.slotOf id = none := by simp [Server.slotOf, hnew]
  have htrail : id ∉ h.trail := fun hmem => hp.known id hmem hphase
  have hfight : ∀ handle, ¬ h.server.InFight handle id :=
    fun handle hin => hp.inFight_slot hin hslot
  have hbelongs : ∀ contents, ¬ h.Belongs id contents := by
    intro contents hb
    rw [hp.slot contents id hb] at hslot
    simp at hslot
  have hother : ∀ id', id' ≠ id →
      (if id' = id then some ⟨.accepting, false, MATCH⟩ else h.server.sessions id') =
        h.server.sessions id' := fun id' hne => if_neg hne
  constructor
  · exact hp.once
  · exact hp.apart
  · exact hp.alone
  · intro contents id' hb
    have hne : id' ≠ id := by
      rintro rfl
      exact hbelongs contents hb
    simp only [Server.slotOf, hother id' hne]
    exact hp.slot contents id' hb
  · intro contents id' hb hreg phase hphase'
    have hne : id' ≠ id := by
      rintro rfl
      exact hbelongs contents hb
    simp only [Server.phaseOf, hother id' hne] at hphase'
    exact hp.leaves contents id' hb hreg phase hphase'
  · intro id' hid
    have hne : id' ≠ id := by
      rintro rfl
      exact htrail hid
    simp only [Server.phaseOf, hother id' hne]
    exact hp.known id' hid
  · intro id'
    by_cases heq : id' = id
    · subst heq
      simp [Server.phaseOf]
    · simp only [Server.phaseOf, hother id' heq, Option.some.injEq]
      refine ⟨fun hacc => absurd hacc.symm heq, fun hp' => ?_⟩
      have hacc := (hp.accepting id').mpr hp'
      rw [hidle] at hacc
      simp at hacc
  · intro id' hacc _
    simp only [Option.some.injEq] at hacc
    subst hacc
    exact ⟨htrail, hfight, by simp [Server.slotOf]⟩
  · intro _
    simp

theorem Bounded.fightAlloc {h : Handling} (hb : Bounded h) {group : Group} (rest : List Control)
    (pooled : FightContents) (matchID : Int) :
    Bounded { h with
      server := { h.server with ctrlQ := rest }.handleFightAlloc group pooled matchID } := by
  have heq := Server.handleFightAlloc_eq { h.server with ctrlQ := rest } group pooled matchID
  generalize { h.server with ctrlQ := rest }.handleFightAlloc group pooled matchID = s at heq ⊢
  have hcreated : s.created = h.server.created + 1 := by rw [heq]
  have hfights : ∀ k, s.fights k = if k = h.server.created then
      newFight pooled h.server.nextContentsNum matchID group else h.server.fights k :=
    fun k => by rw [heq]
  have hmap : ∀ n, s.contentsMap n =
      if n = h.server.nextContentsNum ∧ h.server.contentsMap n = none then
        some (.fight h.server.created) else h.server.contentsMap n := fun n => by rw [heq]
  have hnext : s.nextContentsNum = h.server.nextContentsNum := by rw [heq]
  have hentering : s.entering = h.server.entering := by rw [heq]
  constructor
  · rw [hnext]
    exact hb.next
  · intro k hk
    rw [hfights]
    split
    · exact hb.next
    · rename_i hne
      have hlt : k < s.created := hk
      rw [hcreated] at hlt
      exact hb.range k (Nat.lt_of_le_of_ne (Nat.le_of_lt_succ hlt) hne)
  · intro n contents hn
    rw [hmap] at hn
    split at hn
    · rename_i hn'
      rw [Option.some.injEq] at hn
      refine Or.inr ⟨h.server.created, hn.symm, hcreated ▸ Nat.lt_succ_self _, ?_⟩
      rw [hfights, if_pos rfl]
      exact hn'.1.symm
    · rcases hb.mapped n contents hn with hm | ⟨k, hc, hk, hnum⟩
      · exact Or.inl hm
      · refine Or.inr ⟨k, hc, hcreated ▸ Nat.lt_succ_of_lt hk, ?_⟩
        rw [hfights, if_neg (Nat.ne_of_lt hk)]
        exact hnum
  · intro id k hmem
    rw [hentering] at hmem
    exact hcreated ▸ Nat.lt_succ_of_lt (hb.entering id k hmem)
  · intro work hwork
    exact hcreated ▸ Nat.lt_succ_of_lt (hb.inserting work hwork)

/-- The new fight is empty, and its group is now being posted. -/
theorem Placed.fightAlloc {h : Handling} (hp : Placed h) (hb : Bounded h) {group : Group}
    {rest : List Control} (hidle : h.server.posting = none)
    (hq : h.server.ctrlQ = .fightAlloc group :: rest) (pooled : FightContents) (matchID : Int) :
    Placed { h with
      server := { h.server with ctrlQ := rest }.handleFightAlloc group pooled matchID } := by
  have heq := Server.handleFightAlloc_eq { h.server with ctrlQ := rest } group pooled matchID
  generalize { h.server with ctrlQ := rest }.handleFightAlloc group pooled matchID = s at heq ⊢
  have hcreated : s.created = h.server.created + 1 := by rw [heq]
  have hfights : ∀ k, s.fights k = if k = h.server.created then
      newFight pooled h.server.nextContentsNum matchID group else h.server.fights k :=
    fun k => by rw [heq]
  have hmap : ∀ n, s.contentsMap n =
      if n = h.server.nextContentsNum ∧ h.server.contentsMap n = none then
        some (.fight h.server.created) else h.server.contentsMap n := fun n => by rw [heq]
  have hsessions : s.sessions = h.server.sessions := by rw [heq]
  have hmatch : s.match_ = h.server.match_ := by rw [heq]
  have hacc : s.accepting = h.server.accepting := by rw [heq]
  have hway : s.underWay.Perm h.server.underWay := by
    rw [heq]
    simp only [Server.underWay, hq, hidle, List.flatMap_cons, Option.elim, List.append_nil]
    refine ((List.Perm.append_right _ ?_).append_right _)
    exact List.perm_append_comm
  have hnew : ∀ k < h.server.created, s.fights k = h.server.fights k := fun k hlt => by
    rw [hfights, if_neg (Nat.ne_of_lt hlt)]
  have htrail : Handling.trail { h with server := s } |>.Perm h.trail := by
    simp only [trail, assigned, arriving, hmatch]
    exact (hway.append_left _).append_right _
  have hold : ∀ k, k < s.created → k ≠ h.server.created → k < h.server.created := by
    intro k hlt hne
    rw [hcreated] at hlt
    omega
  -- Nobody is in the new fight, and nobody is about to be inserted there.
  have hin : ∀ k id, s.InFight k id → h.server.InFight k id := by
    rintro k id ⟨hlt, hid⟩
    rw [hfights] at hid
    split at hid
    · simp [(Server.newFight_init pooled h.server.nextContentsNum matchID group).2.2.1,
        PlayerMap.keys] at hid
    · rename_i hne
      exact ⟨hold k hlt hne, hid⟩
  have hbelongs : ∀ contents id, Belongs { h with server := s } id contents →
      h.Belongs id contents := by
    intro contents id hb'
    cases contents with
    | match_ => simpa only [Belongs, resting, hmatch] using hb'
    | fight k =>
        rcases hb' with hb' | ⟨_, work, hwork, rfl, hrest⟩
        · exact Or.inl (hin k id hb')
        · exact Or.inr ⟨hb.inserting work hwork, work, hwork, rfl, hrest⟩
  have hlt : ∀ k id, h.Belongs id (.fight k) → k < h.server.created := by
    rintro k id (hb' | hb')
    · exact hb'.1
    · exact hb'.1
  have hnumber : ∀ contents id, h.Belongs id contents →
      s.numberOf contents = h.server.numberOf contents := by
    intro contents id hb'
    cases contents with
    | match_ => rfl
    | fight k => simp only [Server.numberOf, hnew k (hlt k id hb')]
  constructor
  · exact htrail.nodup_iff.mpr hp.once
  · exact fun k id hk hmem => hp.apart k id (hin k id hk) (htrail.subset hmem)
  · exact fun a b id ha hb' => hp.alone a b id (hin a id ha) (hin b id hb')
  · intro contents id hb'
    have hbefore := hbelongs contents id hb'
    rw [hnumber contents id hbefore, ← hp.slot contents id hbefore]
    simp only [Server.slotOf, hsessions]
  · intro contents id hb' hreg phase hphase
    have hbefore := hbelongs contents id hb'
    simp only [Server.phaseOf, hsessions] at hphase
    refine hp.leaves contents id hbefore ?_ phase hphase
    have hreg : s.contentsMap (s.numberOf contents) = some contents := hreg
    rw [hnumber contents id hbefore, hmap] at hreg
    split at hreg
    · rw [Option.some.injEq] at hreg
      subst hreg
      exact absurd (hlt _ id hbefore) (Nat.lt_irrefl _)
    · exact hreg
  · intro id hid
    simp only [Server.phaseOf, hsessions]
    exact hp.known id (htrail.subset hid)
  · intro id
    simp only [Server.phaseOf, hsessions, hacc]
    exact hp.accepting id
  · intro id hacc' hnone
    simp only [hacc] at hacc'
    obtain ⟨h1, h2, h3⟩ := hp.fresh id hacc' hnone
    refine ⟨fun hmem => h1 (htrail.subset hmem), fun k hk => h2 k (hin k id hk), ?_⟩
    simp only [Server.slotOf, hsessions]
    exact h3
  · simp only [hacc]
    exact hp.grouping

/-! ## Steps of the server -/

theorem grouping_of_not_busy {h : Handling} (hfree : h.busy .match_ = false) :
    h.grouping = none := by
  simpa [busy] using hfree

theorem inserting_of_not_busy {h : Handling} {handle : FightHandle}
    (hfree : h.busy (.fight handle) = false) : ∀ work ∈ h.inserting, work.handle ≠ handle := by
  simpa [busy] using hfree

/-- The `OnLeave` of a release, and what becomes of the session's place. -/
theorem contentsLeave_stays {h : Handling} (id : SessionID) {contents : Contents}
    (hfree : h.busy contents = false) :
    Stays h { h with server := h.server.contentsLeave id contents } ∧
      ¬ Belongs { h with server := h.server.contentsLeave id contents } id contents := by
  cases contents with
  | match_ =>
      have hidle := grouping_of_not_busy hfree
      refine ⟨matchLeave_stays hidle id, fun hb => ?_⟩
      simp only [Belongs, resting, hidle, Option.any_none, Bool.false_eq_true, if_false,
        Server.contentsLeave, (matchLeave_spec h.server id).1] at hb
      simpa using (List.mem_filter.mp hb).2
  | fight handle =>
      refine ⟨stays_fightEvent h handle (.leave id) fun _ => Server.counted_leave_keys, ?_⟩
      rintro (hin | ⟨_, work, hwork, heq, _⟩)
      · have hmem := hin.2
        simp only [Server.contentsLeave, fightEvent_keys, if_true] at hmem
        exact counted_leave_gone _ id hmem
      · exact inserting_of_not_busy hfree work hwork heq

theorem contentsLeave_bounded {h : Handling} (hb : Bounded h) (id : SessionID)
    (contents : Contents) : Bounded { h with server := h.server.contentsLeave id contents } := by
  cases contents with
  | match_ => exact hb.frame (h.server.matchLeave_frame id).frame
  | fight handle => exact hb.fightEvent handle _

theorem Bounded.setPhase {h : Handling} (hb : Bounded h) (id : SessionID) (phase : Phase) :
    Bounded { h with server := h.server.setPhase id phase } :=
  hb.of_server hb.next rfl (fun _ => rfl) (fun _ _ hn => hn) hb.entering

/-- A request that names no session is taken off the queue, and a contents is deregistered. -/
theorem Placed.deregister {h : Handling} (hp : Placed h) (hb : Bounded h) {control : Control}
    {rest : List Control} (hq : h.server.ctrlQ = control :: rest) (hnone : control.sessions = [])
    (n : ContentsNum) :
    Placed { h with server := { h.server with ctrlQ := rest }.deregisterContents n } ∧
      Bounded { h with server := { h.server with ctrlQ := rest }.deregisterContents n } := by
  have hmapped : ∀ m contents,
      ({ h.server with ctrlQ := rest }.deregisterContents n).contentsMap m = some contents →
        h.server.contentsMap m = some contents :=
    fun _ _ hm => Server.mapped_of_deregister hm
  have hways : rest.flatMap Control.sessions = h.server.ctrlQ.flatMap Control.sessions := by
    rw [hq, List.flatMap_cons, hnone, List.nil_append]
  refine ⟨hp.stays ?_, hb.of_server hb.next rfl (fun _ => rfl) hmapped hb.entering⟩
  refine stays_server (fun _ => rfl) (fun _ => rfl) (Or.inl rfl) ?_ rfl
    (fun _ => rfl) (fun _ _ hid => hid) hmapped rfl
  exact List.Perm.subperm (List.Perm.of_eq (underWay_congr hways rfl rfl rfl))

/-- **A step of the server keeps everybody in place.** -/
theorem Placed.server {h : Handling} {s : Server} {step : Step} (hp : Placed h) (hb : Bounded h)
    (hfree : h.free step = true) (hsplit : splits step = false) (hstep : Stepped h.server step s) :
    Placed { h with server := s } ∧ Bounded { h with server := s } := by
  cases hstep with
  | accept id hrun hidle hnew =>
      exact ⟨hp.accept hidle hnew, hb.of_server hb.next rfl (fun _ => rfl) (fun _ _ hn => hn)
        hb.entering⟩
  | onAccept pooled id hacc hnew =>
      refine ⟨hp.stays ?_, hb.of_server hb.next rfl (fun _ => rfl) (fun _ _ hn => hn) hb.entering⟩
      exact stays_server (fun _ => rfl) (fun _ => rfl) (Or.inl rfl) (List.Subperm.refl _) rfl
        (fun _ => rfl) (fun _ _ hid => hid) (fun _ _ hn => hn) rfl
  | acceptEnter id entered hacc hknown hentered => simp [splits] at hsplit
  | disconnect id =>
      have hf := h.server.disconnect_frame id
      refine ⟨hp.stays ?_, hb.frame hf⟩
      refine stays_server hf.phaseOf (slotOf_lowered (h.server.disconnect_lowered id))
        (Or.inl rfl) (List.Subperm.refl _) hf.created (fun _ => rfl) (fun _ _ hid => hid)
        (fun _ _ hn => hn) rfl
  | release id hphase =>
      exact ⟨hp.setPhase (by simp [hphase]) (by simp) (by simp), hb.setPhase id _⟩
  | releaseFetch id hphase =>
      refine ⟨hp.setPhase (by simp [hphase]) (by simp) fun contents hbelongs hreg => ?_,
        hb.setPhase id _⟩
      refine ⟨by simp, by simp, fun target htarget => ?_⟩
      rw [Phase.leaving.injEq] at htarget
      rw [← htarget]
      exact hp.leaveTarget hb hbelongs hreg
  | releaseLeave id contents hphase =>
      have hbusy : h.busy contents = false := by
        simpa [free, Server.leavingTo_of_phaseOf hphase] using hfree
      obtain ⟨hstays, hgone⟩ := contentsLeave_stays id hbusy
      refine ⟨hp.left hstays hphase fun contents' htarget => ?_,
        (contentsLeave_bounded hb id contents).setPhase id .left⟩
      rw [Option.some.injEq] at htarget
      exact htarget ▸ hgone
  | releaseNone id hphase =>
      exact ⟨hp.left (Stays.refl h) hphase (by simp), hb.setPhase id _⟩
  | onRelease id hphase =>
      have hset : Placed { h with server := h.server.setPhase id .released } := by
        refine hp.setPhase (by simp [hphase]) (by simp) fun contents hbelongs hreg => ?_
        exact absurd rfl (hp.leaves contents id hbelongs hreg _ hphase).1
      refine ⟨hset.stays ?_, (hb.setPhase id .released).of_server hb.next rfl (fun _ => rfl)
        (fun _ _ hn => hn) hb.entering⟩
      exact stays_server (fun _ => rfl) (fun _ => rfl) (Or.inl rfl) (List.Subperm.refl _) rfl
        (fun _ => rfl) (fun _ _ hid => hid) (fun _ _ hn => hn) rfl
  | fetchEnter id n contents hmem hmap =>
      refine ⟨hp.stays ?_, hb.of_server hb.next rfl (fun _ => rfl) (fun _ _ hn => hn) ?_⟩
      · refine stays_server (fun _ => rfl) (fun _ => rfl) (Or.inl rfl) ?_ rfl
          (fun _ => rfl) (fun _ _ hid => hid) (fun _ _ hn => hn) rfl
        have hperm := (List.perm_cons_erase hmem).map Prod.fst
        refine List.Perm.subperm ?_
        simp only [Server.underWay, List.append_assoc, List.map_cons]
        refine (List.Perm.refl _).append ((List.Perm.refl _).append ?_)
        exact List.perm_middle.trans (hperm.symm.append_right _)
      · intro id' handle hmem'
        rcases List.mem_cons.mp hmem' with heq | hmem'
        · rw [Prod.mk.injEq] at heq
          rcases hb.mapped n contents hmap with ⟨hc, _⟩ | ⟨k, hc, hlt, _⟩
          · rw [← heq.2] at hc
            simp at hc
          · rw [← heq.2, Contents.fight.injEq] at hc
            exact hc ▸ hlt
        · exact hb.entering id' handle hmem'
  | dropEnter id n hmem hmap =>
      refine ⟨hp.stays ?_, hb.of_server hb.next rfl (fun _ => rfl) (fun _ _ hn => hn) hb.entering⟩
      refine stays_server (fun _ => rfl) (fun _ => rfl) (Or.inl rfl) ?_ rfl
        (fun _ => rfl) (fun _ _ hid => hid) (fun _ _ hn => hn) rfl
      have hsub : ((h.server.queue.erase (id, n)).map Prod.fst).Sublist
          (h.server.queue.map Prod.fst) := List.erase_sublist.map _
      exact (((List.Sublist.refl _).append hsub).append (List.Sublist.refl _)).subperm
  | runEnter id contents hmem => simp [splits] at hsplit
  | event _ handle event hevent hhandle =>
      refine ⟨hp.stays (stays_fightEvent h handle event fun id hid => ?_), hb.fightEvent handle _⟩
      rwa [Server.event_counted hevent] at hid
  | rehashMatch order place hperm =>
      have hidle := grouping_of_not_busy (h := h) (by simpa [free] using hfree)
      refine ⟨hp.stays ?_, hb.of_server hb.next rfl (fun _ => rfl) (fun _ _ hn => hn) hb.entering⟩
      exact stays_server (fun _ => rfl) (fun _ => rfl) (Or.inr ⟨hidle, hperm.subperm⟩)
        (List.Subperm.refl _) rfl (fun _ => rfl) (fun _ _ hid => hid) (fun _ _ hn => hn) rfl
  | fightAlloc pooled matchID group rest hidle hq =>
      exact ⟨hp.fightAlloc hb hidle hq pooled matchID, hb.fightAlloc rest pooled matchID⟩
  | fightFree pooled matchID handle rest hidle hq => exact hp.deregister hb hq rfl _
  | matchDeregister pooled matchID rest hidle hq => exact hp.deregister hb hq rfl _
  | post n id rest hposting =>
      refine ⟨hp.stays ?_, hb.of_server hb.next rfl (fun _ => rfl) (fun _ _ hn => hn) hb.entering⟩
      refine stays_server (fun _ => rfl) (fun _ => rfl) (Or.inl rfl) ?_ rfl
        (fun _ => rfl) (fun _ _ hid => hid) (fun _ _ hn => hn) rfl
      refine List.Perm.subperm ?_
      simp only [Server.underWay, hposting, Option.elim, List.map_append, List.map_cons,
        List.map_nil, List.append_assoc]
      refine (List.Perm.refl _).append ?_
      have hlast := (List.perm_append_singleton id (rest ++ h.server.queue.map Prod.fst)).append_right
        (h.server.entering.map Prod.fst)
      simpa only [List.append_assoc, List.cons_append, List.nil_append] using hlast
  | postDone n hposting =>
      refine ⟨hp.stays ?_, hb.of_server (Server.advanceContentsNum_range hb.next) rfl (fun _ => rfl)
        (fun _ _ hn => hn) hb.entering⟩
      refine stays_server (fun _ => rfl) (fun _ => rfl) (Or.inl rfl) ?_ rfl
        (fun _ => rfl) (fun _ _ hid => hid) (fun _ _ hn => hn) rfl
      simp only [Server.underWay, hposting, Option.elim, List.append_nil]
      exact List.Subperm.refl _
  | stopAccept hidle =>
      refine ⟨hp.stays ?_, hb.of_server hb.next rfl (fun _ => rfl) (fun _ _ hn => hn) hb.entering⟩
      exact stays_server (fun _ => rfl) (fun _ => rfl) (Or.inl rfl) (List.Subperm.refl _) rfl
        (fun _ => rfl) (fun _ _ hid => hid) (fun _ _ hn => hn) rfl
  | shutDown hstop =>
      have hidle := grouping_of_not_busy (h := h) (by simpa [free] using hfree)
      exact ⟨hp.stays (matchShutDown_stays hidle), hb.frame h.server.matchShutDown_frame.frame⟩
  | shutDownLate hmap => exact ⟨hp, hb⟩

/-! ## Entering the match -/

/-- The accept of a session ends; everybody stays in place. -/
theorem Placed.finish {h h' : Handling} (hp : Placed h) {id : SessionID}
    (hacc : h.server.accepting = some id)
    (hphase : ∀ id', h'.server.phaseOf id' =
      if id' = id then (h.server.phaseOf id').map fun _ => .live else h.server.phaseOf id')
    (hslot : ∀ id', h'.server.slotOf id' = h.server.slotOf id')
    (htrail : h'.trail.Subperm h.trail)
    (hbelongs : ∀ contents id', h'.Belongs id' contents → h.Belongs id' contents)
    (hfights : h'.server.fights = h.server.fights) (hcreated : h'.server.created = h.server.created)
    (hmap : h'.server.contentsMap = h.server.contentsMap) (hacc' : h'.server.accepting = none)
    (hgrouping : h'.grouping = none) : Placed h' := by
  have hin : ∀ handle id', h'.server.InFight handle id' → h.server.InFight handle id' :=
    fun _ _ => Server.InFight.congr hfights hcreated
  have hnumber := Server.numberOf_congr hfights
  constructor
  · exact nodup_of_subperm htrail hp.once
  · exact fun handle id' hi hmem => hp.apart handle id' (hin handle id' hi) (htrail.subset hmem)
  · exact fun a b id' ha hb => hp.alone a b id' (hin a id' ha) (hin b id' hb)
  · intro contents id' hb
    rw [hslot, hnumber]
    exact hp.slot contents id' (hbelongs contents id' hb)
  · intro contents id' hb hreg phase hph
    rw [hphase] at hph
    split at hph
    · obtain ⟨_, _, rfl⟩ := Option.map_eq_some_iff.mp hph
      simp
    · refine hp.leaves contents id' (hbelongs contents id' hb) ?_ phase hph
      simpa only [Server.Registered, hmap, hnumber] using hreg
  · intro id' hid
    have hknown := hp.known id' (htrail.subset hid)
    rw [hphase]
    split
    · exact fun hnone => hknown (Option.map_eq_none_iff.mp hnone)
    · exact hknown
  · intro id'
    rw [hacc', hphase]
    by_cases heq : id' = id
    · simp [heq]
    · rw [if_neg heq]
      refine ⟨by simp, fun hph => ?_⟩
      have := (hp.accepting id').mpr hph
      rw [hacc, Option.some.injEq] at this
      exact absurd this.symm heq
  · intro id' hid _
    rw [hacc'] at hid
    simp at hid
  · intro hsome
    exact absurd hgrouping hsome

theorem finishAccept_slotOf (h : Handling) (id id' : SessionID) :
    (h.finishAccept id).server.slotOf id' = h.server.slotOf id' := by
  simp only [finishAccept, Server.slotOf, Server.setPhase, Server.modifySession]
  split
  · cases h.server.sessions id' <;> rfl
  · rfl

theorem Placed.finishAccept {h : Handling} (hp : Placed h) {id : SessionID}
    (hacc : h.server.accepting = some id) (hidle : h.grouping = none) :
    Placed (h.finishAccept id) := by
  refine hp.finish hacc (h.server.phaseOf_setPhase id .live) (h.finishAccept_slotOf id) ?_ ?_ rfl
    rfl rfl rfl rfl
  · have htrail : (h.finishAccept id).trail = h.trail := by
      simp only [trail, assigned, Handling.finishAccept, hidle]
      rfl
    rw [htrail]
  · intro contents id' hb
    cases contents with
    | match_ =>
        show id' ∈ h.resting
        rw [resting, hidle]
        exact hb
    | fight handle => exact hb

theorem Bounded.finishAccept {h : Handling} (hb : Bounded h) (id : SessionID) :
    Bounded (h.finishAccept id) :=
  ⟨hb.next, hb.range, hb.mapped, hb.entering, hb.inserting⟩

/-- A session that has no place yet begins to wait. -/
theorem Placed.insert {h : Handling} (hp : Placed h) {id : SessionID} {phase : Phase}
    (hidle : h.grouping = none) (htrail : id ∉ h.trail)
    (hfight : ∀ handle, ¬ h.server.InFight handle id) (hslot : h.server.slotOf id = some MATCH)
    (hphase : h.server.phaseOf id = some phase) (hlive : phase = .accepting ∨ phase = .live)
    {grouping : Option Grouping}
    (hgrouping : (grouping = none ∧ h.server.accepting = none) ∨
      (grouping = some ⟨[], false⟩ ∧ h.server.accepting ≠ none)) :
    Placed { h with server := h.server.insertWaiting id, grouping := grouping } := by
  have hnew : id ∉ h.server.match_.playerMap := by
    intro hmem
    refine htrail ?_
    simp only [trail, List.mem_append]
    exact Or.inl (Or.inl (Or.inl hmem))
  have hperm := insertWaiting_perm hnew
  have hassigned : assigned { h with
      server := h.server.insertWaiting id, grouping := grouping } = h.assigned := by
    rcases hgrouping with ⟨rfl, _⟩ | ⟨rfl, _⟩ <;> simp [assigned, hidle]
  have hrest : (h.server.insertWaiting id).underWay = h.server.underWay := by
    simp only [Server.insertWaiting, hnew, if_false]
    rfl
  have htrail' : (Handling.trail { h with
      server := h.server.insertWaiting id, grouping := grouping }).Perm (id :: h.trail) := by
    simp only [trail, hassigned, hrest]
    exact ((hperm.append_right _).append_right _).append_right _
  have hsame : (h.server.insertWaiting id).sessions = h.server.sessions ∧
      (h.server.insertWaiting id).fights = h.server.fights ∧
      (h.server.insertWaiting id).created = h.server.created ∧
      (h.server.insertWaiting id).contentsMap = h.server.contentsMap ∧
      (h.server.insertWaiting id).accepting = h.server.accepting := by
    simp only [Server.insertWaiting, hnew, if_false, and_self]
  obtain ⟨hsessions, hfights, hcreated, hmap, hacc⟩ := hsame
  have hin : ∀ handle id', (h.server.insertWaiting id).InFight handle id' →
      h.server.InFight handle id' := fun _ _ => Server.InFight.congr hfights hcreated
  have hbelongs : ∀ contents id', Belongs { h with
      server := h.server.insertWaiting id, grouping := grouping } id' contents →
      h.Belongs id' contents ∨ (contents = .match_ ∧ id' = id) := by
    intro contents id' hb
    cases contents with
    | match_ =>
        have hresting : id' ∈ (h.server.insertWaiting id).match_.playerMap := by
          rcases hgrouping with ⟨rfl, _⟩ | ⟨rfl, _⟩ <;> simpa [Belongs, resting] using hb
        rcases List.mem_cons.mp (hperm.subset hresting) with heq | hmem
        · exact Or.inr ⟨rfl, heq⟩
        · exact Or.inl (by simpa [Belongs, resting, hidle] using hmem)
    | fight handle =>
        refine Or.inl (Or.imp (hin handle id') (fun hwork => ?_) hb)
        simpa only [hcreated] using hwork
  have hnumber := Server.numberOf_congr hfights
  constructor
  · exact htrail'.nodup_iff.mpr (List.nodup_cons.mpr ⟨htrail, hp.once⟩)
  · intro handle id' hi hmem
    rcases List.mem_cons.mp (htrail'.subset hmem) with rfl | hmem
    · exact hfight handle (hin handle id' hi)
    · exact hp.apart handle id' (hin handle id' hi) hmem
  · exact fun a b id' ha hb => hp.alone a b id' (hin a id' ha) (hin b id' hb)
  · intro contents id' hb
    simp only [Server.slotOf, hsessions, hnumber]
    rcases hbelongs contents id' hb with hb | ⟨rfl, rfl⟩
    · exact hp.slot contents id' hb
    · exact hslot
  · intro contents id' hb hreg phase' hphase'
    simp only [Server.phaseOf, hsessions] at hphase'
    rcases hbelongs contents id' hb with hb | ⟨rfl, rfl⟩
    · refine hp.leaves contents id' hb ?_ phase' hphase'
      simpa only [Server.Registered, hmap, hnumber] using hreg
    · have hphase' : h.server.phaseOf id' = some phase' := hphase'
      rw [hphase, Option.some.injEq] at hphase'
      subst hphase'
      rcases hlive with rfl | rfl <;> simp
  · intro id' hid
    simp only [Server.phaseOf, hsessions]
    rcases List.mem_cons.mp (htrail'.subset hid) with rfl | hmem
    · exact fun hnone => by simp [Server.phaseOf, hnone] at hphase
    · exact hp.known id' hmem
  · intro id'
    simp only [Server.phaseOf, hsessions, hacc]
    exact hp.accepting id'
  · intro id' hid hnone
    simp only [hacc] at hid
    rcases hgrouping with ⟨_, hno⟩ | ⟨rfl, _⟩
    · rw [hno] at hid
      simp at hid
    · simp at hnone
  · intro hsome
    simp only [hacc]
    rcases hgrouping with ⟨rfl, _⟩ | ⟨_, hacc⟩
    · exact absurd rfl hsome
    · exact hacc

/-- A session that is being accepted and has not entered the match. -/
theorem Placed.finished_fresh {h : Handling} (hp : Placed h) {id : SessionID}
    (hacc : h.server.accepting = some id) (hidle : h.grouping = none) :
    id ∉ (h.finishAccept id).trail ∧
      (∀ handle, ¬ (h.finishAccept id).server.InFight handle id) ∧
      (h.finishAccept id).server.slotOf id = some MATCH ∧
      (h.finishAccept id).server.phaseOf id = some .live := by
  obtain ⟨htrail, hfight, hslot⟩ := hp.fresh id hacc hidle
  refine ⟨?_, hfight, (h.finishAccept_slotOf id id).trans hslot, ?_⟩
  · have heq : (h.finishAccept id).trail = h.trail := by
      simp only [trail, assigned, Handling.finishAccept, hidle]
      rfl
    rwa [heq]
  · have hphase := (hp.accepting id).mp hacc
    show (h.server.setPhase id .live).phaseOf id = some .live
    rw [Server.phaseOf_setPhase, if_pos rfl, hphase]
    rfl

theorem disconnect_stays (h : Handling) (id : SessionID) :
    Stays h { h with server := h.server.disconnect id } := by
  have hf := h.server.disconnect_frame id
  exact stays_server hf.phaseOf (slotOf_lowered (h.server.disconnect_lowered id))
    (Or.inl rfl) (List.Subperm.refl _) hf.created (fun _ => rfl) (fun _ _ hid => hid)
    (fun _ _ hn => hn) rfl

theorem insertWaiting_bounded {h : Handling} (hb : Bounded h) (id : SessionID)
    (grouping : Option Grouping) :
    Bounded { h with server := h.server.insertWaiting id, grouping := grouping } := by
  have hb' := hb.frame (h.server.insertWaiting_frame id).1
  exact ⟨hb'.next, hb'.range, hb'.mapped, hb'.entering, hb'.inserting⟩

theorem Placed.matchEnter {h : Handling} (hp : Placed h) (hb : Bounded h) {id : SessionID}
    (hacc : h.server.accepting = some id) (hidle : h.grouping = none) :
    Placed (h.matchEnter id) ∧ Bounded (h.matchEnter id) := by
  unfold Handling.matchEnter
  split
  · have hstays := disconnect_stays h id
    refine ⟨(hp.stays hstays).finishAccept hacc hidle, ?_⟩
    exact (hb.frame (h.server.disconnect_frame id)).finishAccept id
  · simp only
    split
    · obtain ⟨htrail, hfight, hslot⟩ := hp.fresh id hacc hidle
      refine ⟨hp.insert hidle htrail hfight hslot ((hp.accepting id).mp hacc) (Or.inl rfl)
        (Or.inr ⟨rfl, by simp [hacc]⟩), insertWaiting_bounded hb id _⟩
    · -- The accept is over in the same step, so the session is live when it waits.
      have heq : Handling.finishAccept { h with server := h.server.insertWaiting id } id =
          { h.finishAccept id with server := (h.finishAccept id).server.insertWaiting id } := by
        have hsame : (h.finishAccept id).server.match_ = h.server.match_ := rfl
        unfold Server.insertWaiting
        rw [hsame]
        split <;> rfl
      obtain ⟨htrail, hfight, hslot, hphase⟩ := hp.finished_fresh hacc hidle
      rw [heq]
      refine ⟨(hp.finishAccept hacc hidle).insert rfl htrail hfight hslot hphase (Or.inr rfl)
        (Or.inl ⟨rfl, rfl⟩), insertWaiting_bounded (hb.finishAccept id) id _⟩

/-! ## Grouping -/

/-- `TryMoveSessionToContents` writes the slot of a session that may still move. -/
theorem tryMove_slot (s : Server) (id : SessionID) (n : ContentsNum) :
    (∀ id', id' ≠ id → (s.tryMoveSessionToContents id n).1.slotOf id' = s.slotOf id') ∧
      ((s.tryMoveSessionToContents id n).2 = true →
        (s.tryMoveSessionToContents id n).1.slotOf id = some n ∧
          (s.phaseOf id = some .accepting ∨ s.phaseOf id = some .live)) := by
  unfold Server.tryMoveSessionToContents
  split
  · rename_i hmovable
    refine ⟨fun id' hne => ?_, fun _ => ?_⟩
    · simp only [Server.slotOf, Server.modifySession, if_neg hne]
    · unfold Server.movable at hmovable
      split at hmovable
      · rename_i session hs
        simp only [Bool.and_eq_true, decide_eq_true_eq] at hmovable
        refine ⟨by simp [Server.slotOf, Server.modifySession, hs], ?_⟩
        simp only [Server.phaseOf, hs, Option.map_some]
        rcases hmovable.1 with hphase | hphase <;> simp [hphase]
      · simp at hmovable
  · exact ⟨fun _ _ => rfl, by simp⟩

theorem tryMove_rest (s : Server) (id : SessionID) (n : ContentsNum) :
    (s.tryMoveSessionToContents id n).1.underWay = s.underWay := by
  have hf := s.tryMove_frame id n
  exact underWay_congr (by rw [Server.tryMove_ctrlQ]) hf.posting hf.queue hf.entering

/-- The trail counts nobody twice. -/
theorem Placed.head_apart {h : Handling} (hp : Placed h) {id : SessionID}
    {rest : List SessionID} (hmap : h.server.match_.playerMap = id :: rest) :
    id ∉ rest ∧ (∀ handle, ¬ h.server.InFight handle id) ∧
      ∀ work ∈ h.inserting, work.id ≠ id := by
  have hnodup := hp.once
  have htrail : id ∈ h.trail := by
    simp only [trail, hmap, List.cons_append]
    exact List.mem_cons_self
  simp only [trail, hmap, List.cons_append, List.nodup_cons, List.mem_append, not_or] at hnodup
  refine ⟨hnodup.1.1.1.1, fun handle hin => hp.apart handle id hin htrail, fun work hwork heq => ?_⟩
  exact hnodup.1.2 (heq ▸ List.mem_map_of_mem hwork)

/-- One session of the trail moves: its slot is written, and it may have come to belong
to the contents the slot names. -/
theorem Placed.moves {h h' : Handling} (hp : Placed h) {id : SessionID} (hid : id ∈ h.trail)
    (hframe : Server.Frame h.server h'.server)
    (hslot : ∀ id', id' ≠ id → h'.server.slotOf id' = h.server.slotOf id')
    (htrail : h'.trail.Perm h.trail)
    (hbelongs : ∀ contents id', h'.Belongs id' contents →
      (h.Belongs id' contents ∧ id' ≠ id) ∨
        (id' = id ∧ h'.server.slotOf id = some (h'.server.numberOf contents) ∧
          Reaches h'.server id contents))
    (hgrouping : h'.grouping = none ↔ h.grouping = none) : Placed h' := by
  have hin : ∀ handle id', h'.server.InFight handle id' → h.server.InFight handle id' :=
    fun _ _ => Server.InFight.congr hframe.fights hframe.created
  have hnumber := Server.numberOf_congr hframe.fights
  constructor
  · exact htrail.nodup_iff.mpr hp.once
  · exact fun handle id' hi hmem => hp.apart handle id' (hin handle id' hi) (htrail.subset hmem)
  · exact fun a b id' ha hb => hp.alone a b id' (hin a id' ha) (hin b id' hb)
  · intro contents id' hb
    rcases hbelongs contents id' hb with ⟨hold, hne⟩ | ⟨rfl, hnew, _⟩
    · rw [hslot id' hne, hnumber]
      exact hp.slot contents id' hold
    · exact hnew
  · intro contents id' hb hreg
    rcases hbelongs contents id' hb with ⟨hold, _⟩ | ⟨rfl, _, hnew⟩
    · intro phase hphase
      rw [hframe.phaseOf] at hphase
      refine hp.leaves contents id' hold ?_ phase hphase
      simpa only [Server.Registered, hframe.contentsMap, hnumber] using hreg
    · exact hnew
  · intro id' hmem
    rw [hframe.phaseOf]
    exact hp.known id' (htrail.subset hmem)
  · intro id'
    rw [hframe.accepting, hframe.phaseOf]
    exact hp.accepting id'
  · intro id' hacc hnone
    rw [hframe.accepting] at hacc
    obtain ⟨hnot, hfight, hs⟩ := hp.fresh id' hacc (hgrouping.mp hnone)
    refine ⟨fun hmem => hnot (htrail.subset hmem), fun handle hi => hfight handle (hin handle id' hi),
      ?_⟩
    rw [hslot id' fun heq => hnot (heq ▸ hid)]
    exact hs
  · intro hsome
    rw [hframe.accepting]
    exact hp.grouping fun hnone => hsome (hgrouping.mpr hnone)

theorem Placed.groupMove {h : Handling} (hp : Placed h) (hb : Bounded h) {work : Grouping}
    {id : SessionID} {rest : List SessionID} (hgrouping : h.grouping = some work)
    (hidle : work.moved = false) (hmap : h.server.match_.playerMap = id :: rest) :
    Placed (h.groupMove work id) ∧ Bounded (h.groupMove work id) := by
  obtain ⟨hrest, hfight, hinserting⟩ := hp.head_apart hmap
  have hframe := (h.server.setTeam_frame id work.team).trans
    ((h.server.setTeam id work.team).tryMove_frame id CONMOV)
  have hmatch : (h.groupMove work id).server.match_ = h.server.match_ :=
    (h.server.setTeam id work.team).tryMove_match id CONMOV
  have hway : (h.groupMove work id).server.underWay = h.server.underWay :=
    tryMove_rest (h.server.setTeam id work.team) id CONMOV
  have hid : id ∈ h.trail := by
    simp only [trail, hmap, List.cons_append]
    exact List.mem_cons_self
  have htrail : (h.groupMove work id).trail = h.trail := by
    simp only [trail, hmatch, hway, assigned, arriving, hgrouping]
    rfl
  refine ⟨hp.moves hid hframe (tryMove_slot (h.server.setTeam id work.team) id CONMOV).1
    (List.Perm.of_eq htrail) ?_ (by simp [Handling.groupMove, hgrouping]), ?_⟩
  · -- The player whose slot was written belongs nowhere until it is erased.
    intro contents id' hb'
    refine Or.inl ?_
    cases contents with
    | match_ =>
        have hmem : id' ∈ (h.groupMove work id).server.match_.playerMap.tail := by
          simpa [Belongs, resting, Handling.groupMove] using hb'
        rw [hmatch, hmap] at hmem
        refine ⟨?_, ?_⟩
        · simp only [Belongs, resting, hgrouping, Option.any_some, hidle, Bool.false_eq_true,
            if_false, hmap]
          exact List.mem_cons_of_mem _ hmem
        · rintro rfl
          exact hrest hmem
    | fight handle =>
        have hold : h.Belongs id' (.fight handle) := by
          simpa only [Belongs, Server.InFight, Handling.groupMove, hframe.fights,
            hframe.created] using hb'
        refine ⟨hold, ?_⟩
        rintro rfl
        rcases hold with hi | ⟨_, w, hw, _, heq, _⟩
        · exact hfight handle hi
        · exact hinserting w hw heq
  · have hb' := hb.frame hframe
    exact ⟨hb'.next, hb'.range, hb'.mapped, hb'.entering, hb'.inserting⟩

/-- The erasure changes no place: the player has one in the group from now on. -/
theorem groupErase_stays {h : Handling} {work : Grouping} {id : SessionID}
    {rest : List SessionID} (hgrouping : h.grouping = some work) (hmoved : work.moved = true)
    (hmap : h.server.match_.playerMap = id :: rest) : Stays h (h.groupErase work id rest) where
  phaseOf := fun _ => rfl
  slotOf := fun _ => rfl
  trail := by
    refine List.Perm.subperm ?_
    simp only [trail, assigned, hgrouping, hmap, Handling.groupErase, Option.elim, arriving]
    refine List.Perm.append_right _ (List.Perm.append_right _ ?_)
    have hlast := List.perm_append_singleton id (rest ++ work.slots)
    simpa only [List.append_assoc, List.cons_append] using hlast
  belongs := by
    intro contents id' hb
    cases contents with
    | match_ =>
        simpa [Belongs, resting, hgrouping, hmoved, hmap, Handling.groupErase] using hb
    | fight handle => exact hb
  created := rfl
  number := fun _ => rfl
  keys := fun _ _ hid => hid
  mapped := fun _ _ hn => hn
  accepting := rfl
  grouping := by simp [Handling.groupErase, hgrouping]

theorem Grouping.group_sessions {work : Grouping} (hfull : work.slots.length = 6) :
    work.group.sessions = work.slots := by
  obtain ⟨slots, moved⟩ := work
  match slots, hfull with
  | [a, b, c, d, e, f], _ => rfl

/-- The group goes to the control thread, and the accept that made it ends. -/
theorem Placed.groupDone {h : Handling} (hp : Placed h) {work : Grouping} {id : SessionID}
    (hgrouping : h.grouping = some work) (hidle : work.moved = false)
    (hfull : work.slots.length = 6) (hacc : h.server.accepting = some id) :
    Placed (Handling.finishAccept
      { h with server := h.server.enqueueControl (.fightAlloc work.group) } id) := by
  refine hp.finish hacc (h.server.phaseOf_setPhase id .live) (h.finishAccept_slotOf id) ?_ ?_ rfl
    rfl rfl rfl rfl
  · refine List.Perm.subperm ?_
    have hgroup : Control.sessions (.fightAlloc work.group) = work.slots :=
      Grouping.group_sessions hfull
    simp only [trail, assigned, hgrouping, Handling.finishAccept, Server.underWay,
      Server.enqueueControl, Server.setPhase, Server.modifySession, arriving, Option.elim,
      List.flatMap_append, List.flatMap_singleton, hgroup, List.append_nil, List.append_assoc]
    refine List.Perm.append_left _ ?_
    have hcomm : (h.server.ctrlQ.flatMap Control.sessions ++ work.slots).Perm
        (work.slots ++ h.server.ctrlQ.flatMap Control.sessions) := List.perm_append_comm
    simpa only [List.append_assoc] using hcomm.append_right _
  · intro contents id' hb
    cases contents with
    | match_ =>
        simpa [Belongs, resting, hgrouping, hidle, Handling.finishAccept, Server.enqueueControl,
          Server.setPhase, Server.modifySession] using hb
    | fight handle => exact hb

/-! ## Entering a fight -/

/-- Who is about to be inserted is nowhere else. -/
theorem Placed.arriving_apart {h : Handling} (hp : Placed h) {work : Inserting}
    {rest : List Inserting} (hinserting : h.inserting = work :: rest) :
    work.id ∉ h.resting ∧ (∀ handle, ¬ h.server.InFight handle work.id) ∧
      ∀ other ∈ rest, other.id ≠ work.id := by
  have hmem : work.id ∈ h.trail := trail_of_inserting (hinserting ▸ List.mem_cons_self)
  have hnodup := hp.once
  simp only [trail, List.append_assoc] at hnodup
  obtain ⟨_, hnodup', hdisjoint⟩ := List.nodup_append.mp hnodup
  have harriving : work.id ∈ h.arriving := by
    simp only [arriving, hinserting, List.map_cons]
    exact List.mem_cons_self
  refine ⟨fun hresting => ?_, fun handle hin => hp.apart handle work.id hin hmem, ?_⟩
  · refine hdisjoint _ (mem_of_resting hresting) work.id ?_ rfl
    simp only [List.mem_append]
    exact Or.inr (Or.inr harriving)
  · have hlast : h.arriving.Nodup :=
      hnodup'.sublist ((List.sublist_append_right _ _).trans (List.sublist_append_right _ _))
    simp only [arriving, hinserting, List.map_cons, List.nodup_cons] at hlast
    intro other hother heq
    exact hlast.1 (heq ▸ List.mem_map_of_mem hother)

/-- The worker has taken the enter event and is about to move the slot. -/
theorem fightTake_stays {h : Handling} {id : SessionID} {handle : FightHandle}
    (hmem : (id, .fight handle) ∈ h.server.entering) (player : Player) :
    Stays h { h with
      server := { h.server with entering := h.server.entering.erase (id, .fight handle) }
      inserting := ⟨handle, id, player, false⟩ :: h.inserting } where
  phaseOf := fun _ => rfl
  slotOf := fun _ => rfl
  trail := by
    refine List.Perm.subperm ?_
    have hperm := (List.perm_cons_erase hmem).map Prod.fst
    simp only [trail, assigned, arriving, Server.underWay, List.map_cons, List.append_assoc]
    refine List.Perm.append_left _ (List.Perm.append_left _ (List.Perm.append_left _
      (List.Perm.append_left _ (List.Perm.append_left _ ?_))))
    exact List.perm_middle.trans (hperm.symm.append_right _)
  belongs := by
    intro contents id' hb
    cases contents with
    | match_ => exact hb
    | fight k =>
        refine Or.imp_right (And.imp_right ?_) hb
        rintro ⟨work, hwork, hrest⟩
        rcases List.mem_cons.mp hwork with rfl | hwork
        · simp at hrest
        · exact ⟨work, hwork, hrest⟩
  created := rfl
  number := fun _ => rfl
  keys := fun _ _ hid => hid
  mapped := fun _ _ hn => hn
  accepting := rfl
  grouping := Iff.rfl

/-- The slot is written, or the session may not move any more. -/
theorem Placed.fightSlot {h : Handling} (hp : Placed h) (hb : Bounded h) {handle : FightHandle}
    {id : SessionID} {player : Player} {rest : List Inserting}
    (hinserting : h.inserting = ⟨handle, id, player, false⟩ :: rest)
    {moved : Server × Bool}
    (hmoved : moved = h.server.tryMoveSessionToContents id (h.server.fights handle).contentsNum) :
    Placed { h with server := moved.1, inserting := ⟨handle, id, player, moved.2⟩ :: rest } ∧
      Bounded { h with
        server := moved.1, inserting := ⟨handle, id, player, moved.2⟩ :: rest } := by
  have hframe := h.server.tryMove_frame id (h.server.fights handle).contentsNum
  obtain ⟨hother, hslot⟩ := tryMove_slot h.server id (h.server.fights handle).contentsNum
  have hmatch := h.server.tryMove_match id (h.server.fights handle).contentsNum
  have hway := tryMove_rest h.server id (h.server.fights handle).contentsNum
  rw [← hmoved] at hframe hother hslot hmatch hway
  obtain ⟨hresting, hfight, hrest⟩ := hp.arriving_apart hinserting
  have hmem : ⟨handle, id, player, false⟩ ∈ h.inserting := hinserting ▸ List.mem_cons_self
  have hsub : ∀ work ∈ rest, work ∈ h.inserting :=
    fun work hwork => hinserting ▸ List.mem_cons_of_mem _ hwork
  refine ⟨hp.moves (trail_of_inserting hmem) hframe hother ?_ ?_ Iff.rfl, ?_⟩
  · refine List.Perm.of_eq ?_
    simp only [trail, hmatch, hway, assigned, arriving, hinserting, List.map_cons]
  · intro contents id' hb'
    cases contents with
    | match_ =>
        simp only [Belongs, resting, hmatch] at hb'
        refine Or.inl ⟨hb', ?_⟩
        rintro rfl
        exact hresting hb'
    | fight k =>
        simp only [Belongs, Server.InFight, hframe.fights, hframe.created] at hb'
        rcases hb' with hin | ⟨hk, work, hwork, rfl, rfl, hflag⟩
        · refine Or.inl ⟨Or.inl hin, ?_⟩
          rintro rfl
          exact hfight k hin
        · rcases List.mem_cons.mp hwork with rfl | hwork
          · obtain ⟨hnew, hphase⟩ := hslot hflag
            refine Or.inr ⟨rfl, ?_, ?_⟩
            · simp only [hnew, Server.numberOf, hframe.fights]
            · intro phase hp'
              rw [hframe.phaseOf] at hp'
              rcases hphase with hphase | hphase <;> rw [hphase, Option.some.injEq] at hp' <;>
                subst hp' <;> simp
          · exact Or.inl ⟨Or.inr ⟨hk, work, hsub work hwork, rfl, rfl, hflag⟩, hrest work hwork⟩
  · have hb' := hb.frame hframe
    refine ⟨hb'.next, hb'.range, hb'.mapped, hb'.entering, ?_⟩
    intro work hwork
    rcases List.mem_cons.mp hwork with rfl | hwork
    · have hlt := hb'.inserting _ hmem
      exact hlt
    · exact hb'.inserting work (hsub work hwork)

/-- `FightContents::OnEnter` up to the slot. -/
theorem Placed.fightMove {h : Handling} (hp : Placed h) (hb : Bounded h) {id : SessionID}
    {handle : FightHandle} (hmem : (id, .fight handle) ∈ h.server.entering) :
    Placed (h.fightMove id handle) ∧ Bounded (h.fightMove id handle) := by
  have htaken : Bounded { h with
      server := { h.server with entering := h.server.entering.erase (id, .fight handle) } } :=
    hb.of_server hb.next rfl (fun _ => rfl) (fun _ _ hn => hn)
      fun id' k hk => hb.entering id' k (List.mem_of_mem_erase hk)
  unfold Handling.fightMove
  simp only
  split
  · -- The server does not know the player: the event is counted and nobody moves.
    refine ⟨?_, htaken.fightEvent handle _⟩
    have hstays : Stays h { h with
        server := { h.server with entering := h.server.entering.erase (id, .fight handle) } } := by
      refine stays_server (fun _ => rfl) (fun _ => rfl) (Or.inl rfl) ?_ rfl
        (fun _ => rfl) (fun _ _ hid => hid) (fun _ _ hn => hn) rfl
      have hsub : ((h.server.entering.erase (id, .fight handle)).map Prod.fst).Sublist
          (h.server.entering.map Prod.fst) := List.erase_sublist.map _
      exact ((List.Sublist.refl _).append hsub).subperm
    exact (hp.stays hstays).stays (stays_fightEvent _ handle _ fun _ hid => hid)
  · rename_i player hplayer
    refine (hp.stays (fightTake_stays hmem player)).fightSlot ?_ rfl rfl
    refine ⟨htaken.next, htaken.range, htaken.mapped, htaken.entering, ?_⟩
    intro work hwork
    rcases List.mem_cons.mp hwork with rfl | hwork
    · exact hb.entering id handle hmem
    · exact hb.inserting work hwork

/-- `OnEnter` adds the player to the map if it could be moved. -/
theorem counted_enter_keys (f : FightContents) (id : SessionID) (player : Player)
    (moved : Bool) (id' : SessionID) :
    id' ∈ (f.counted (.enter id (some player) moved)).playerMap.keys ↔
      (moved = true ∧ id' = id) ∨ id' ∈ f.playerMap.keys := by
  simp only [FightContents.counted, FightContents.countEnter]
  cases moved with
  | false => simp
  | true =>
      simp only [if_true, true_and, FightContents.enterPlayer]
      rw [PlayerMap.mem_keys_insert]
      cases player.team <;> exact Iff.rfl

/-- In a fight is who was there, and the player now inserted. -/
theorem fightInsert_inFight {h : Handling} {work : Inserting} {handle : FightHandle}
    {id : SessionID} (hin : (h.fightInsert work).server.InFight handle id) :
    h.server.InFight handle id ∨
      (handle = work.handle ∧ id = work.id ∧ work.moved = true) := by
  obtain ⟨-, -, -, -, -, hcreated, -, -, -, -, -, -⟩ :=
    h.server.fightEvent_rest work.handle (.enter work.id (some work.player) work.moved)
  obtain ⟨hlt, hid⟩ := hin
  simp only [Handling.fightInsert, hcreated] at hlt
  simp only [Handling.fightInsert, fightEvent_keys] at hid
  split at hid
  · rename_i heq
    rcases (counted_enter_keys _ _ _ _ _).mp hid with ⟨hmoved, rfl⟩ | hold
    · exact Or.inr ⟨heq, rfl, hmoved⟩
    · exact Or.inl ⟨hlt, heq ▸ hold⟩
  · exact Or.inl ⟨hlt, hid⟩

theorem fightInsert_belongs {h : Handling} (hb : Bounded h) {work : Inserting}
    (hwork : work ∈ h.inserting) {contents : Contents} {id : SessionID}
    (hbelongs : (h.fightInsert work).Belongs id contents) : h.Belongs id contents := by
  obtain ⟨-, -, -, hmatch, -, hcreated, -, -, -, -, -, -⟩ :=
    h.server.fightEvent_rest work.handle (.enter work.id (some work.player) work.moved)
  cases contents with
  | match_ => simpa only [Belongs, resting, Handling.fightInsert, hmatch] using hbelongs
  | fight handle =>
      rcases hbelongs with hi | ⟨hlt, other, hother, hrest⟩
      · rcases fightInsert_inFight hi with hi | ⟨rfl, rfl, hmoved⟩
        · exact Or.inl hi
        · exact Or.inr ⟨hb.inserting work hwork, work, hwork, rfl, rfl, hmoved⟩
      · simp only [Handling.fightInsert, hcreated] at hlt
        exact Or.inr ⟨hlt, other, List.mem_of_mem_erase hother, hrest⟩

/-- The rest of `FightContents::OnEnter`: who was moved is in the map. -/
theorem Placed.fightInsert {h : Handling} (hp : Placed h) (hb : Bounded h) {work : Inserting}
    (hwork : work ∈ h.inserting) : Placed (h.fightInsert work) ∧ Bounded (h.fightInsert work) := by
  obtain ⟨hacc, -, -, hmatch, hmap, hcreated, -, -, -, -, -, -⟩ :=
    h.server.fightEvent_rest work.handle (.enter work.id (some work.player) work.moved)
  have hphase := h.server.fightEvent_phaseOf work.handle
    (.enter work.id (some work.player) work.moved)
  have hslot := fightEvent_slotOf h.server work.handle
    (.enter work.id (some work.player) work.moved)
  have hnumber' := fightEvent_number h.server work.handle
    (.enter work.id (some work.player) work.moved)
  have hmem : work.id ∈ h.trail := trail_of_inserting hwork
  have htrail : h.trail.Perm (work.id :: (h.fightInsert work).trail) := by
    have hperm := (List.perm_cons_erase hwork).map Inserting.id
    simp only [trail, Handling.fightInsert, hmatch, fightEvent_underWay, assigned, arriving]
    exact (hperm.append_left _).trans List.perm_middle
  have hnodup := List.nodup_cons.mp (htrail.nodup_iff.mp hp.once)
  have hsub : ∀ id ∈ (h.fightInsert work).trail, id ∈ h.trail :=
    fun id hid => htrail.symm.subset (List.mem_cons_of_mem _ hid)
  have hin : ∀ handle id, (h.fightInsert work).server.InFight handle id →
      h.server.InFight handle id ∨ (handle = work.handle ∧ id = work.id ∧ work.moved = true) :=
    fun _ _ => fightInsert_inFight
  have hbelongs : ∀ contents id, (h.fightInsert work).Belongs id contents →
      h.Belongs id contents := fun _ _ => fightInsert_belongs hb hwork
  have hnumber : ∀ contents, (h.fightInsert work).server.numberOf contents =
      h.server.numberOf contents := by
    intro contents
    cases contents with
    | match_ => rfl
    | fight handle => exact hnumber' handle
  have happart : ∀ handle id, (h.fightInsert work).server.InFight handle id →
      id ∉ (h.fightInsert work).trail := by
    intro handle id hi hid
    rcases hin handle id hi with hi | ⟨_, rfl, _⟩
    · exact hp.apart handle id hi (hsub id hid)
    · exact hnodup.1 hid
  refine ⟨?_, ?_⟩
  · constructor
    · exact hnodup.2
    · exact happart
    · intro a b id ha hb'
      rcases hin a id ha with ha | ⟨rfl, rfl, _⟩
      · rcases hin b id hb' with hb' | ⟨_, rfl, _⟩
        · exact hp.alone a b id ha hb'
        · exact absurd hmem (hp.apart a work.id ha)
      · rcases hin b work.id hb' with hb' | ⟨rfl, _, _⟩
        · exact absurd hmem (hp.apart b work.id hb')
        · rfl
    · intro contents id hb'
      rw [hnumber]
      exact (hslot id).trans (hp.slot contents id (hbelongs contents id hb'))
    · intro contents id hb' hreg phase hph
      refine hp.leaves contents id (hbelongs contents id hb') ?_ phase ((hphase id).symm.trans hph)
      have hreg : (h.fightInsert work).server.contentsMap
        ((h.fightInsert work).server.numberOf contents) = some contents := hreg
      rw [hnumber] at hreg
      simpa only [Server.Registered, Handling.fightInsert, hmap] using hreg
    · intro id hid
      exact fun hnone => hp.known id (hsub id hid) ((hphase id).symm.trans hnone)
    · intro id
      simp only [Handling.fightInsert, hacc, hphase]
      exact hp.accepting id
    · intro id hid hnone
      simp only [Handling.fightInsert, hacc] at hid hnone
      obtain ⟨hnot, hfight, hs⟩ := hp.fresh id hid hnone
      refine ⟨fun hmem' => hnot (hsub id hmem'), fun handle hi => ?_, (hslot id).trans hs⟩
      rcases hin handle id hi with hi | ⟨_, rfl, _⟩
      · exact hfight handle hi
      · exact hnot hmem
    · simp only [Handling.fightInsert, hacc]
      exact hp.grouping
  · have hb' := hb.fightEvent work.handle (.enter work.id (some work.player) work.moved)
    exact ⟨hb'.next, hb'.range, hb'.mapped, hb'.entering,
      fun other hother => hb'.inserting other (List.mem_of_mem_erase hother)⟩

/-! ## Runs -/

/-- **Every step keeps every session in its one place.** -/
theorem Placed.step {h h' : Handling} {step : HandlingStep} (hp : Placed h) (hb : Bounded h)
    (hstep : handlingStep h step = some h') : Placed h' ∧ Bounded h' := by
  cases handlingStep_moved hstep with
  | server step server hfree hwhole hserver =>
      exact hp.server hb hfree hwhole (systemStep_stepped hserver)
  | matchEnter id hacc hidle => exact hp.matchEnter hb hacc hidle
  | noMatch id hacc hidle => exact ⟨hp.finishAccept hacc hidle, hb.finishAccept id⟩
  | groupMove work id rest hgrouping hidle hmap => exact hp.groupMove hb hgrouping hidle hmap
  | groupErase work id rest hgrouping hmoved hmap =>
      exact ⟨hp.stays (groupErase_stays hgrouping hmoved hmap),
        ⟨hb.next, hb.range, hb.mapped, hb.entering, hb.inserting⟩⟩
  | groupDone work id hgrouping hidle hfull hacc =>
      exact ⟨hp.groupDone hgrouping hidle hfull hacc,
        ⟨hb.next, hb.range, hb.mapped, hb.entering, hb.inserting⟩⟩
  | fightMove id handle hmem => exact hp.fightMove hb hmem
  | fightInsert handle work hmem => exact hp.fightInsert hb hmem

/-- Over a run. -/
theorem placed_run {pooled : FightContents} {steps : List HandlingStep} {h : Handling}
    (hrun : exec handlingStep (initialHandling pooled) steps = some h) :
    Placed h ∧ Bounded h :=
  exec_invariant (I := fun h => Placed h ∧ Bounded h)
    (fun _ _ _ hs hstep => hs.1.step hs.2 hstep)
    ⟨placed_initial pooled, bounded_initial pooled⟩ hrun

/-- A session is in the map of one registered contents at most, which its slot names and
which its release leaves. -/
structure InOnePlace (s : Server) : Prop where
  single : ∀ id m n, s.InContents id m → s.InContents id n → m = n
  waiting : ∀ id ∈ s.match_.playerMap, s.slotOf id = some MATCH
  slot : ∀ id n, s.InContents id n → s.slotOf id = some n
  leaves : ∀ id n contents, s.contentsMap n = some contents → id ∈ s.players contents →
    s.leaveTarget id = some contents ∧ Reaches s id contents

/-- What a registered contents holds while no handler runs belongs to it. -/
theorem belongs_of_players {h : Handling} (hb : Bounded h) (hquiet : h.Quiet) {id : SessionID}
    {n : ContentsNum} {contents : Contents} (hmap : h.server.contentsMap n = some contents)
    (hmem : id ∈ h.server.players contents) :
    h.Belongs id contents ∧ h.server.numberOf contents = n := by
  rcases hb.mapped n contents hmap with ⟨rfl, rfl⟩ | ⟨handle, rfl, hlt, hnum⟩
  · refine ⟨?_, rfl⟩
    simp only [Belongs, resting, hquiet.1]
    exact hmem
  · exact ⟨Or.inl ⟨hlt, hmem⟩, hnum⟩

/-- **A session lives in one place**: in whatever order the two writes of its moves, its
disconnect and its release come, while no handler runs it is in the map of one
registered contents at most, the slot names that contents, and `OnLeave` reaches it. -/
theorem inOnePlace {pooled : FightContents} {steps : List HandlingStep} {h : Handling}
    (hrun : exec handlingStep (initialHandling pooled) steps = some h) (hquiet : h.Quiet) :
    InOnePlace h.server := by
  obtain ⟨hp, hb⟩ := placed_run hrun
  have hslot : ∀ id n, h.server.InContents id n → h.server.slotOf id = some n := by
    rintro id n ⟨contents, hmap, hmem⟩
    obtain ⟨hbelongs, hnum⟩ := belongs_of_players hb hquiet hmap hmem
    rw [← hnum]
    exact hp.slot contents id hbelongs
  constructor
  · intro id m n hm hn
    have heq := (hslot id m hm).symm.trans (hslot id n hn)
    exact Option.some.inj heq
  · intro id hid
    refine hp.slot .match_ id ?_
    simp only [Belongs, resting, hquiet.1]
    exact hid
  · exact hslot
  · intro id n contents hmap hmem
    obtain ⟨hbelongs, hnum⟩ := belongs_of_players hb hquiet hmap hmem
    have hreg : h.server.Registered contents := by
      rw [Server.Registered, hnum]
      exact hmap
    exact ⟨hp.leaveTarget hb hbelongs hreg, hp.leaves contents id hbelongs hreg⟩

/-- Six sessions are grouped while one of them is released, and another is released
between the two writes of its `OnEnter`. -/
def releasedMidway : List HandlingStep :=
  (List.range 6).flatMap (fun i => ([.server (.accept (firstSession i)),
    .server (.onAccept (firstPlayer i .red)), .matchEnter] : List HandlingStep)) ++
  ([.groupMove, .server (.release (firstSession 0)), .server (.releaseFetch (firstSession 0)),
    .groupErase] : List HandlingStep) ++
  (List.range 5).flatMap (fun _ => ([.groupMove, .groupErase] : List HandlingStep)) ++
  ([.groupDone, .server (.releaseLeave (firstSession 0)), .server (.control pooledFight 1)] :
    List HandlingStep) ++
  List.replicate 7 (HandlingStep.server .post) ++
  ([.server (.fetchEnter (firstSession 1) 1), .fightMove (firstSession 1) 0,
    .server (.release (firstSession 1)), .server (.releaseFetch (firstSession 1)),
    .fightInsert 0, .server (.fetchEnter (firstSession 0) 1), .fightMove (firstSession 0) 0,
    .fightInsert 0] : List HandlingStep)

theorem releasedMidway_inOnePlace :
    ∃ h ∈ exec handlingStep (initialHandling pooledFight) releasedMidway,
      h.server.players (.fight 0) = [firstSession 1] ∧
        h.server.phaseOf (firstSession 1) = some (.leaving (some (.fight 0))) ∧
        InOnePlace h.server := by
  have hsome : ∃ h ∈ exec handlingStep (initialHandling pooledFight) releasedMidway,
      h.Quiet ∧ h.server.players (.fight 0) = [firstSession 1] ∧
        h.server.phaseOf (firstSession 1) = some (.leaving (some (.fight 0))) := by
    decide +kernel
  obtain ⟨h, hh, hquiet, hplayers, hphase⟩ := hsome
  exact ⟨h, hh, hplayers, hphase, inOnePlace hh hquiet⟩

/-! ## Handlers that nobody interrupts -/

/-- One round of the grouping is `assignSlot`. -/
theorem groupRound {s : Server} (slots : List SessionID) {id : SessionID}
    {rest : List SessionID} (hmap : s.match_.playerMap = id :: rest) (hlen : slots.length < 6)
    {team : Team} (hteam : team = if slots.length < 3 then .red else .blue) :
    exec handlingStep ⟨s, some ⟨slots, false⟩, []⟩ [.groupMove, .groupErase] =
      some ⟨(s.assignSlot team).1, some ⟨slots ++ [id], false⟩, []⟩ := by
  have hmoved : ((s.setTeam id team).tryMoveSessionToContents id CONMOV).1.match_.playerMap =
      id :: rest := by
    rw [Server.tryMove_match]
    exact hmap
  subst hteam
  simp only [Server.assignSlot, hmap]
  simp only [exec, handlingStep, Handling.groupMove, Grouping.team, hmap, hlen, Handling.groupErase,
    decide_true, Bool.not_false, Bool.true_and, if_true, Option.bind_some, hmoved]

/-- The rounds of one team. -/
def teamRounds : List HandlingStep :=
  [.groupMove, .groupErase] ++ ([.groupMove, .groupErase] ++ [.groupMove, .groupErase])

theorem groupTeam {s : Server} (slots : List SessionID) {rest : List SessionID}
    {a b c : SessionID} {team : Team} (hmap : s.match_.playerMap = a :: b :: c :: rest)
    (hslots : (slots.length = 0 ∧ team = .red) ∨ (slots.length = 3 ∧ team = .blue)) :
    exec handlingStep ⟨s, some ⟨slots, false⟩, []⟩ teamRounds =
      some ⟨(s.assignTeamAndMovePlayers team).1, some ⟨slots ++ [a, b, c], false⟩, []⟩ := by
  have hteam : ∀ n < 3, slots.length + n < 6 ∧
      team = if slots.length + n < 3 then .red else .blue := by
    intro n hn
    rcases hslots with ⟨hlen, rfl⟩ | ⟨hlen, rfl⟩
    · exact ⟨by omega, by rw [if_pos (by omega)]⟩
    · exact ⟨by omega, by rw [if_neg (by omega)]⟩
  obtain ⟨_, hma, _⟩ := Server.assignSlot_spec hmap team
  obtain ⟨_, hmb, _⟩ := Server.assignSlot_spec (s := (s.assignSlot team).1) (by rw [hma]) team
  have ha := groupRound slots hmap (hteam 0 (by omega)).1 (hteam 0 (by omega)).2
  have hb := groupRound (s := (s.assignSlot team).1) (slots ++ [a]) (by rw [hma])
    (by simpa using (hteam 1 (by omega)).1) (by simpa using (hteam 1 (by omega)).2)
  have hc := groupRound (s := ((s.assignSlot team).1.assignSlot team).1)
    (slots ++ [a] ++ [b]) (by rw [hmb])
    (by simpa using (hteam 2 (by omega)).1) (by simpa using (hteam 2 (by omega)).2)
  rw [teamRounds, exec_append, ha, Option.bind_some, exec_append, hb, Option.bind_some, hc]
  simp only [Server.assignTeamAndMovePlayers, List.append_assoc, List.cons_append, List.nil_append]

/-- The whole grouping is `groupPlayers`. -/
theorem groupAll {s : Server} {id : SessionID} (hacc : s.accepting = some id)
    (hlen : 6 ≤ s.match_.playerMap.length) :
    exec handlingStep ⟨s, some ⟨[], false⟩, []⟩ (teamRounds ++ (teamRounds ++ [.groupDone])) =
      some (finishAccept ⟨s.groupPlayers, none, []⟩ id) := by
  match hmap : s.match_.playerMap, hlen with
  | a :: b :: c :: d :: e :: f :: rest, _ =>
      obtain ⟨hr, hmr, _⟩ := Server.assignTeam_spec hmap .red
      obtain ⟨hb, _, _⟩ :=
        Server.assignTeam_spec (s := (s.assignTeamAndMovePlayers .red).1) (by rw [hmr]) .blue
      have hred := groupTeam [] hmap (Or.inl ⟨rfl, rfl⟩)
      have hblue := groupTeam (s := (s.assignTeamAndMovePlayers .red).1) [a, b, c] (by rw [hmr])
        (Or.inr ⟨rfl, rfl⟩)
      have hgroup : Grouping.group ⟨[a, b, c, d, e, f], false⟩ = ⟨![a, b, c], ![d, e, f]⟩ := by
        simp only [Grouping.group, Group.mk.injEq]
        refine ⟨funext fun slot => ?_, funext fun slot => ?_⟩ <;> fin_cases slot <;> rfl
      have hacc' : ((s.assignTeamAndMovePlayers .red).1.assignTeamAndMovePlayers .blue).1.accepting =
          some id := s.groupPlayers_frame.accepting.trans hacc
      rw [exec_append, hred, Option.bind_some, exec_append, List.nil_append, hblue,
        Option.bind_some]
      simp only [exec, handlingStep, hacc', List.cons_append, List.nil_append, List.length_cons,
        List.length_nil, Bool.not_false, Bool.true_and, decide_true, if_true, Option.bind_some,
        hgroup, Server.groupPlayers, hr, hb]
      rfl

/-- `OnEnter` of the match in one go. -/
theorem acceptEnter_uninterrupted {s s' : Server}
    (hmatch : ∀ contents, s.contentsMap MATCH = some contents → contents = .match_)
    (hstep : systemStep s .acceptEnter = some s') :
    ∃ steps, exec handlingStep ⟨s, none, []⟩ steps = some ⟨s', none, []⟩ := by
  simp only [systemStep] at hstep
  split at hstep
  · rename_i id hacc
    split at hstep
    · rename_i hknown
      rw [Option.some.injEq] at hstep
      subst hstep
      have hbegin : ∀ steps, exec handlingStep ⟨s, none, []⟩ (.matchEnter :: steps) =
          exec handlingStep (if s.contentsMap MATCH = some .match_ then
            Handling.matchEnter ⟨s, none, []⟩ id else finishAccept ⟨s, none, []⟩ id) steps := by
        intro steps
        rw [exec_cons]
        simp only [handlingStep, hacc, hknown, if_true]
        split <;> rfl
      cases hmap : s.contentsMap MATCH with
      | none =>
          refine ⟨[.matchEnter], ?_⟩
          rw [hbegin, hmap]
          rfl
      | some contents =>
          obtain rfl := hmatch contents hmap
          simp only [Server.contentsEnter, Server.matchEnter, hknown, if_true]
          rw [hmap] at hbegin
          simp only [if_true, Handling.matchEnter] at hbegin
          by_cases hstop : s.match_.stopRequested = true
          · refine ⟨[.matchEnter], ?_⟩
            rw [hbegin, if_pos hstop, if_pos hstop]
            rfl
          · rw [if_neg hstop]
            by_cases hlen : (s.insertWaiting id).match_.playerMap.length ≥ 6
            · refine ⟨.matchEnter :: (teamRounds ++ (teamRounds ++ [.groupDone])), ?_⟩
              rw [hbegin, if_neg hstop, if_pos hlen, if_pos hlen]
              exact groupAll ((s.insertWaiting_frame id).1.accepting.trans hacc) hlen
            · refine ⟨[.matchEnter], ?_⟩
              rw [hbegin, if_neg hstop, if_neg hlen, if_neg hlen]
              rfl
    · simp at hstep
  · simp at hstep

/-- `OnEnter` of a fight in one go. -/
theorem runEnter_uninterrupted {s s' : Server} {id : SessionID} {handle : FightHandle}
    (hstep : systemStep s (.runEnter id (.fight handle)) = some s') :
    ∃ steps, exec handlingStep ⟨s, none, []⟩ steps = some ⟨s', none, []⟩ := by
  simp only [systemStep] at hstep
  split at hstep
  · rename_i hmem
    rw [Option.some.injEq] at hstep
    subst hstep
    have hbegin : ∀ steps, exec handlingStep ⟨s, none, []⟩ (.fightMove id handle :: steps) =
        exec handlingStep (Handling.fightMove ⟨s, none, []⟩ id handle) steps := by
      intro steps
      rw [exec_cons]
      simp only [handlingStep, hmem, busy, List.any_nil, and_self, if_true, Option.bind_some]
    cases hplayer : s.playerMap id with
    | none =>
        refine ⟨[.fightMove id handle], ?_⟩
        rw [hbegin]
        simp only [Server.contentsEnter, Server.fightEnter, Handling.fightMove, hplayer, exec_nil]
    | some player =>
        refine ⟨[.fightMove id handle, .fightInsert handle], ?_⟩
        rw [hbegin]
        simp only [Server.contentsEnter, Server.fightEnter, Handling.fightMove, hplayer, exec,
          handlingStep, List.find?_cons, decide_true, Handling.fightInsert, List.erase_cons_head,
          Option.bind_some]
  · simp at hstep

/-- The server with whole handlers is the special case in which nobody interrupts them. -/
theorem uninterrupted {s s' : Server} {steps : List Step} (hp : Placed ⟨s, none, []⟩)
    (hb : Bounded ⟨s, none, []⟩) (hsteps : ∀ id, .runEnter id .match_ ∉ steps)
    (hrun : exec systemStep s steps = some s') :
    ∃ steps', exec handlingStep ⟨s, none, []⟩ steps' = some ⟨s', none, []⟩ := by
  induction steps generalizing s with
  | nil =>
      rw [exec_nil, Option.some.injEq] at hrun
      exact ⟨[], by rw [hrun, exec_nil]⟩
  | cons step steps ih =>
      obtain ⟨m, hm, hrest⟩ := exec_cons_eq_some.mp hrun
      have hone : ∃ steps', exec handlingStep ⟨s, none, []⟩ steps' = some ⟨m, none, []⟩ := by
        by_cases hsplit : splits step = true
        · cases step with
          | acceptEnter =>
              refine acceptEnter_uninterrupted (fun contents hmap => ?_) hm
              rcases hb.mapped _ _ hmap with ⟨hc, _⟩ | ⟨handle, _, hlt, hnum⟩
              · exact hc
              · exact absurd hnum (Server.range_ne_match (hb.range handle hlt).2)
          | runEnter id contents =>
              cases contents with
              | match_ => exact absurd List.mem_cons_self (hsteps id)
              | fight handle => exact runEnter_uninterrupted hm
          | _ => simp [splits] at hsplit
        · have hidle : ∀ contents, busy ⟨s, none, []⟩ contents = false := by
            intro contents
            cases contents <;> rfl
          have hfree : free ⟨s, none, []⟩ step = true := by
            cases step <;> simp only [free, hidle, Option.isNone_none, List.isEmpty_nil,
              Bool.and_self, Bool.not_false]
            split <;> rfl
          refine ⟨[.server step], ?_⟩
          simp only [exec, handlingStep, hfree, hsplit, Bool.not_false, Bool.and_self, if_true, hm,
            Option.map_some, Option.bind_some]
      obtain ⟨steps₁, hone⟩ := hone
      obtain ⟨hp', hb'⟩ := exec_invariant (I := fun h => Placed h ∧ Bounded h)
        (fun _ _ _ hs hstep => hs.1.step hs.2 hstep) ⟨hp, hb⟩ hone
      obtain ⟨steps₂, htwo⟩ := ih hp' hb'
        (fun id hmem => hsteps id (List.mem_cons_of_mem _ hmem)) hrest
      exact ⟨steps₁ ++ steps₂, by rw [exec_append, hone, Option.bind_some, htwo]⟩

end Handling

end SessionServer.Battle
