/-
  Battle/ContentsNum.lean --- whose number an enter event carries.

  The control thread numbers the fights from 1 to ROOM - 1 and round again.  An enter event
  carries the number, and the worker that takes it looks the fight up by the number, so an
  event reaches its fight only as long as no later fight has the number.  The run is
  tracked with the fight every enter event was posted for; that is what the event is meant
  for, and nothing in the server knows it.
-/
import SessionServer.Battle.SystemRun

set_option autoImplicit false

namespace SessionServer.Battle

open SessionServer.Foundation Server

/-! ## The numbers -/

/-- The contents number of the `k`-th `HandleFightAlloc`, counted from 0. -/
def contentsNumber (k : Nat) : ContentsNum := advanceContentsNum^[k] 1

/-- How many numbers there are. -/
def numberCount : Nat := (ROOM - 1).toNat

theorem numberCount_eq : (numberCount : Int) = 999999999 := by decide

/-- The next number, and 1 after the last. -/
theorem advanceContentsNum_spec (m : Int) (h : 1 ≤ m ∧ m < 1000000000) :
    advanceContentsNum m = if m = 999999999 then (1 : Int) else m + 1 := by
  split
  · rename_i hlast
    rw [hlast]
    rfl
  · rename_i hnot
    have hnext : (m + 1).tmod ROOM = m + 1 := by
      rw [ROOM, Int.tmod_eq_emod_of_nonneg (by omega), Int.emod_eq_of_lt (by omega) (by omega)]
    have hzero : ¬ m + 1 = 0 := by omega
    simp only [advanceContentsNum, hnext]
    exact if_neg hzero

theorem contentsNumber_succ (k : Nat) :
    contentsNumber (k + 1) = advanceContentsNum (contentsNumber k) :=
  Function.iterate_succ_apply' _ _ _

/-- The numbers go round from 1. -/
theorem contentsNumber_eq (k : Nat) : contentsNumber k = ((k % numberCount : Nat) : Int) + 1 := by
  induction k with
  | zero => rfl
  | succ k ih =>
      have hlt : k % numberCount < numberCount := Nat.mod_lt k (by decide)
      have hcount := numberCount_eq
      have hone : 1 % numberCount = 1 := by decide
      rw [contentsNumber_succ, ih, Nat.add_mod, hone]
      generalize k % numberCount = m at hlt
      rw [advanceContentsNum_spec _ (by omega)]
      split
      · have hlast : m + 1 = numberCount := by omega
        rw [hlast, Nat.mod_self]
        rfl
      · rw [Nat.mod_eq_of_lt (by omega)]
        rfl

theorem contentsNumber_range (k : Nat) : 1 ≤ contentsNumber k ∧ contentsNumber k < ROOM := by
  have hlt : k % numberCount < numberCount := Nat.mod_lt k (by decide)
  have hcount := numberCount_eq
  have hint : (1 : Int) ≤ (k % numberCount : Nat) + 1 ∧
      ((k % numberCount : Nat) : Int) + 1 < 1000000000 := by omega
  rw [contentsNumber_eq]
  exact hint

/-- A number comes back after all the others. -/
theorem contentsNumber_ne {i j : Nat} (hij : i < j) (hj : j < i + numberCount) :
    contentsNumber i ≠ contentsNumber j := by
  intro heq
  rw [contentsNumber_eq, contentsNumber_eq] at heq
  have hmod : i ≡ j [MOD numberCount] :=
    Int.ofNat_inj.mp (add_right_cancel heq)
  have hdvd := (Nat.modEq_iff_dvd' (Nat.le_of_lt hij)).mp hmod
  have hle := Nat.le_of_dvd (by omega) hdvd
  omega

/-! ## Enter events with the fight they are for -/

/-- An enter event, and the fight `HandleFightAlloc` has posted it for. -/
structure EnterEvent where
  sessionID : SessionID
  contentsNum : ContentsNum
  fight : FightHandle
  deriving DecidableEq

/-- What is in the queue. -/
def EnterEvent.key (event : EnterEvent) : SessionID × ContentsNum :=
  (event.sessionID, event.contentsNum)

/-- The server, and the enter events in its queue. -/
structure Tracked where
  server : Server
  events : List EnterEvent

/-- The events after a step: a post adds one for the fight allocated last, a worker takes
the first of those with the key. -/
def Tracked.track (w : Tracked) : Step → List EnterEvent
  | .post =>
      match w.server.posting with
      | some (contentsNum, id :: _) => w.events ++ [⟨id, contentsNum, w.server.created - 1⟩]
      | _ => w.events
  | .fetchEnter id contentsNum => w.events.eraseP fun event => event.key = (id, contentsNum)
  | _ => w.events

def trackedStep (w : Tracked) (step : Step) : Option Tracked :=
  (systemStep w.server step).map fun server => ⟨server, w.track step⟩

def trackedStart (pooled : FightContents) : Tracked := ⟨initialServer pooled, []⟩

/-- The control thread takes a fight-alloc request. -/
def Step.isFightAlloc (s : Server) : Step → Bool
  | .control _ _ =>
      match s.ctrlQ with
      | .fightAlloc _ :: _ => true
      | _ => false
  | _ => false

/-- The fight is deregistered, and no enter event that was posted for it is still in the
queue. -/
def Tracked.Gone (w : Tracked) (handle : FightHandle) : Prop :=
  w.server.contentsMap (w.server.fights handle).contentsNum ≠ some (.fight handle) ∧
    ∀ event ∈ w.events, event.fight ≠ handle

instance (w : Tracked) (handle : FightHandle) : Decidable (w.Gone handle) :=
  inferInstanceAs (Decidable (_ ∧ _))

/-- Every fight that is all the numbers older than the next one is gone. -/
def Tracked.OldGone (w : Tracked) : Prop :=
  ∀ handle, handle + numberCount ≤ w.server.created → w.Gone handle

instance (w : Tracked) : Decidable w.OldGone :=
  decidable_of_iff (∀ handle < w.server.created + 1 - numberCount, w.Gone handle)
    (forall_congr' fun handle => imp_congr_left (by omega))

/-- **In time.**  When a fight is allocated, the old fights are gone. -/
def InTime (w : Tracked) (step : Step) : Prop :=
  step.isFightAlloc w.server = true → w.OldGone

instance (w : Tracked) (step : Step) : Decidable (InTime w step) :=
  inferInstanceAs (Decidable (_ → _))

/-! ## What a step does to the numbers -/

/-- The numbers and the queue stay, and `_contentsMap` gains no entry. -/
structure NumbersKept (s s' : Server) : Prop where
  numbers : ∀ handle, (s'.fights handle).contentsNum = (s.fights handle).contentsNum
  created : s'.created = s.created
  posting : s'.posting = s.posting
  next : s'.nextContentsNum = s.nextContentsNum
  mapped : ∀ n contents, s'.contentsMap n = some contents → s.contentsMap n = some contents
  queue : s'.queue = s.queue

namespace NumbersKept

variable {s s' s'' : Server}

theorem of_same (hfights : s'.fights = s.fights) (hcreated : s'.created = s.created)
    (hposting : s'.posting = s.posting) (hnext : s'.nextContentsNum = s.nextContentsNum)
    (hmap : s'.contentsMap = s.contentsMap) (hqueue : s'.queue = s.queue) : NumbersKept s s' where
  numbers handle := by rw [hfights]
  created := hcreated
  posting := hposting
  next := hnext
  mapped n contents h := by rwa [hmap] at h
  queue := hqueue

theorem trans (h : NumbersKept s s') (h' : NumbersKept s' s'') : NumbersKept s s'' where
  numbers handle := (h'.numbers handle).trans (h.numbers handle)
  created := h'.created.trans h.created
  posting := h'.posting.trans h.posting
  next := h'.next.trans h.next
  mapped n contents hmap := h.mapped n contents (h'.mapped n contents hmap)
  queue := h'.queue.trans h.queue

theorem of_frame (h : Frame s s') : NumbersKept s s' :=
  of_same h.fights h.created h.posting h.nextContentsNum h.contentsMap h.queue

theorem fightEvent (s : Server) (handle : FightHandle) (event : FightEvent) :
    NumbersKept s (s.fightEvent handle event) := by
  obtain ⟨-, -, -, -, hmap, hcreated, hposting, hnext, hqueue, -, -, hfights⟩ :=
    s.fightEvent_rest handle event
  refine ⟨fun k => ?_, hcreated, hposting, hnext, fun n contents h => by rwa [hmap] at h, hqueue⟩
  rw [hfights]
  simp only
  split
  · rename_i heq
    rw [heq]
    exact ((s.fights handle).fightStep_init event).1
  · rfl

theorem contentsEnter (s : Server) (id : SessionID) (contents : Contents) :
    NumbersKept s (s.contentsEnter id contents) := by
  cases contents with
  | match_ => exact of_frame (s.matchEnter_frame id).frame
  | fight handle =>
      obtain ⟨moved, _, _, hmove, _, _, henter⟩ := s.fightEnter_moved handle id
      rw [Server.contentsEnter, henter]
      exact (of_frame hmove).trans (fightEvent moved handle _)

theorem contentsLeave (s : Server) (id : SessionID) (contents : Contents) :
    NumbersKept s (s.contentsLeave id contents) := by
  cases contents with
  | match_ => exact of_frame (s.matchLeave_frame id).frame
  | fight handle => exact fightEvent s handle _

theorem deregister (s : Server) (n : ContentsNum) (rest : List Control) :
    NumbersKept s ({ s with ctrlQ := rest }.deregisterContents n) :=
  ⟨fun _ => rfl, rfl, rfl, rfl, fun _ _ h => mapped_of_deregister h, rfl⟩

end NumbersKept

/-- What a step does to the numbers, the map and the queue. -/
inductive Numbering (s : Server) : Step → Server → Prop
  | kept {step : Step} {s' : Server} (hpost : step ≠ .post)
      (hfetch : ∀ id n, step ≠ .fetchEnter id n) (h : NumbersKept s s') : Numbering s step s'
  | fetch {id : SessionID} {n : ContentsNum} {s' : Server}
      (h : NumbersKept { s with queue := s.queue.erase (id, n) } s') :
      Numbering s (.fetchEnter id n) s'
  | alloc {pooled : FightContents} {matchID : Int} {group : Group} {rest : List Control}
      (hidle : s.posting = none) (hq : s.ctrlQ = .fightAlloc group :: rest) :
      Numbering s (.control pooled matchID)
        ({ s with ctrlQ := rest }.handleFightAlloc group pooled matchID)
  | post {n : ContentsNum} {id : SessionID} {rest : List SessionID}
      (hposting : s.posting = some (n, id :: rest)) :
      Numbering s .post { s with queue := s.queue ++ [(id, n)], posting := some (n, rest) }
  | postDone {n : ContentsNum} (hposting : s.posting = some (n, [])) :
      Numbering s .post { s with
        posting := none
        nextContentsNum := advanceContentsNum s.nextContentsNum }

theorem Stepped.numbering {s s' : Server} {step : Step} (h : Stepped s step s') :
    Numbering s step s' := by
  cases h with
  | accept id hrun hidle hnew => exact .kept (by simp) (by simp) (.of_same rfl rfl rfl rfl rfl rfl)
  | onAccept pooled id hacc hnew =>
      exact .kept (by simp) (by simp) (.of_same rfl rfl rfl rfl rfl rfl)
  | acceptEnter id entered hacc hknown hentered =>
      have hkept : NumbersKept s entered := by
        rcases hentered with ⟨contents, hmap, rfl⟩ | ⟨hmap, rfl⟩
        · exact .contentsEnter s id contents
        · exact .of_same rfl rfl rfl rfl rfl rfl
      exact .kept (by simp) (by simp) (hkept.trans
        (.of_same rfl rfl rfl rfl rfl rfl))
  | disconnect id => exact .kept (by simp) (by simp) (.of_frame (s.disconnect_frame id))
  | release id hphase => exact .kept (by simp) (by simp) (.of_same rfl rfl rfl rfl rfl rfl)
  | releaseFetch id hphase => exact .kept (by simp) (by simp) (.of_same rfl rfl rfl rfl rfl rfl)
  | releaseLeave id contents hphase =>
      exact .kept (by simp) (by simp) ((NumbersKept.contentsLeave s id contents).trans
        (.of_same rfl rfl rfl rfl rfl rfl))
  | releaseNone id hphase => exact .kept (by simp) (by simp) (.of_same rfl rfl rfl rfl rfl rfl)
  | onRelease id hphase => exact .kept (by simp) (by simp) (.of_same rfl rfl rfl rfl rfl rfl)
  | fetchEnter id n contents hmem hmap => exact .fetch (.of_same rfl rfl rfl rfl rfl rfl)
  | dropEnter id n hmem hmap => exact .fetch (.of_same rfl rfl rfl rfl rfl rfl)
  | runEnter id contents hmem =>
      have htaken : NumbersKept s { s with entering := s.entering.erase (id, contents) } :=
        .of_same rfl rfl rfl rfl rfl rfl
      exact .kept (by simp) (by simp) (htaken.trans (.contentsEnter _ id contents))
  | event step handle event hstep hhandle =>
      refine .kept ?_ ?_ (.fightEvent s handle event)
      · rintro rfl
        simp [Step.event?] at hstep
      · rintro id n rfl
        simp [Step.event?] at hstep
  | rehashMatch order place hperm =>
      exact .kept (by simp) (by simp) (.of_same rfl rfl rfl rfl rfl rfl)
  | fightAlloc pooled matchID group rest hidle hq => exact .alloc hidle hq
  | fightFree pooled matchID handle rest hidle hq =>
      exact .kept (by simp) (by simp) (.deregister s _ rest)
  | matchDeregister pooled matchID rest hidle hq =>
      exact .kept (by simp) (by simp) (.deregister s MATCH rest)
  | post n id rest hposting => exact .post hposting
  | postDone n hposting => exact .postDone hposting
  | stopAccept hidle => exact .kept (by simp) (by simp) (.of_same rfl rfl rfl rfl rfl rfl)
  | shutDown hstop => exact .kept (by simp) (by simp) (.of_frame s.matchShutDown_frame.frame)
  | shutDownLate hmap => exact .kept (by simp) (by simp) (.of_same rfl rfl rfl rfl rfl rfl)

/-! ## The numbers of a run -/

/-- Every fight has its number, and the control thread has the next one. -/
structure NumbersInOrder (s : Server) : Prop where
  numbers : ∀ handle < s.created, (s.fights handle).contentsNum = contentsNumber handle
  idle : s.posting = none → s.nextContentsNum = contentsNumber s.created
  busy : ∀ n ids, s.posting = some (n, ids) → ∃ handle, s.created = handle + 1 ∧
    n = contentsNumber handle ∧ s.nextContentsNum = contentsNumber handle

theorem numbersInOrder_initial (pooled : FightContents) :
    NumbersInOrder (initialServer pooled) where
  numbers := fun _ h => absurd h (Nat.not_lt_zero _)
  idle := fun _ => rfl
  busy := by simp [initialServer]

theorem NumbersInOrder.of_kept {s s' : Server} (h : NumbersInOrder s) (hkept : NumbersKept s s') :
    NumbersInOrder s' where
  numbers handle hlt := by
    rw [hkept.created] at hlt
    rw [hkept.numbers]
    exact h.numbers handle hlt
  idle hidle := by
    rw [hkept.posting] at hidle
    rw [hkept.next, hkept.created]
    exact h.idle hidle
  busy n ids hposting := by
    rw [hkept.posting] at hposting
    rw [hkept.created, hkept.next]
    exact h.busy n ids hposting

theorem NumbersInOrder.step {s s' : Server} {step : Step} (h : NumbersInOrder s)
    (hstep : Numbering s step s') : NumbersInOrder s' := by
  cases hstep with
  | kept hpost hfetch hkept => exact h.of_kept hkept
  | @fetch id n _ hkept =>
      have htaken : NumbersInOrder { s with queue := s.queue.erase (id, n) } :=
        ⟨h.numbers, h.idle, h.busy⟩
      exact htaken.of_kept hkept
  | alloc hidle hq =>
      have hnext := h.idle hidle
      rw [handleFightAlloc_eq]
      refine ⟨fun handle hlt => ?_, fun hbusy => by simp at hbusy, fun n ids hposting => ?_⟩
      · simp only
        split
        · rename_i heq
          rw [heq]
          exact hnext
        · rename_i hne
          exact h.numbers handle (Nat.lt_of_le_of_ne (Nat.le_of_lt_succ hlt) hne)
      · obtain ⟨rfl, -⟩ := Prod.mk.inj (Option.some.inj hposting)
        exact ⟨s.created, rfl, hnext, hnext⟩
  | @post n id rest hposting =>
      obtain ⟨handle, hcreated, hn, hnext⟩ := h.busy n (id :: rest) hposting
      refine ⟨h.numbers, fun hidle => by simp at hidle, fun m ids hm => ?_⟩
      obtain ⟨rfl, -⟩ := Prod.mk.inj (Option.some.inj hm)
      exact ⟨handle, hcreated, hn, hnext⟩
  | @postDone n hposting =>
      obtain ⟨handle, hcreated, -, hnext⟩ := h.busy n [] hposting
      refine ⟨h.numbers, fun _ => ?_, fun m ids hm => by simp at hm⟩
      show advanceContentsNum s.nextContentsNum = contentsNumber s.created
      rw [hnext, hcreated, contentsNumber_succ]

/-! ## Whom an event reaches -/

/-- The contents registered under a number, if any, is the fight. -/
def OnlyFight (contentsMap : ContentsNum → Option Contents) (n : ContentsNum)
    (handle : FightHandle) : Prop :=
  ∀ contents, contentsMap n = some contents → contents = .fight handle

/-- Every event carries the number of its fight, and the number leads to this fight or to
none. -/
structure Addressed (w : Tracked) : Prop where
  keys : w.server.queue = w.events.map EnterEvent.key
  posted : ∀ event ∈ w.events,
    event.fight < w.server.created ∧ event.contentsNum = contentsNumber event.fight
  mapped : ∀ n contents, w.server.contentsMap n = some contents →
    (contents = .match_ ∧ n = MATCH) ∨
      ∃ handle, contents = .fight handle ∧ handle < w.server.created ∧ contentsNumber handle = n
  reaches : ∀ event ∈ w.events, OnlyFight w.server.contentsMap event.contentsNum event.fight
  posting : ∀ n ids, w.server.posting = some (n, ids) →
    OnlyFight w.server.contentsMap n (w.server.created - 1)

theorem addressed_start (pooled : FightContents) : Addressed (trackedStart pooled) where
  keys := rfl
  posted := by simp [trackedStart]
  mapped := by
    intro n contents h
    simp only [trackedStart, initialServer] at h
    split at h
    · rename_i hn
      exact Or.inl ⟨(Option.some.inj h).symm, hn⟩
    · simp at h
  reaches := by simp [trackedStart]
  posting := by simp [trackedStart, initialServer]

/-- Two fights with one number are all the numbers apart. -/
theorem add_numberCount_le {i j : Nat} (hij : i < j) (h : contentsNumber i = contentsNumber j) :
    i + numberCount ≤ j := by
  by_contra hnot
  exact contentsNumber_ne hij (Nat.lt_of_not_le hnot) h

/-- `RegisterContents` finds the number free. -/
theorem Addressed.next_free {w : Tracked} (h : Addressed w) (horder : NumbersInOrder w.server)
    {pooled : FightContents} {matchID : Int} (htime : InTime w (.control pooled matchID))
    {group : Group} {rest : List Control} (hidle : w.server.posting = none)
    (hq : w.server.ctrlQ = .fightAlloc group :: rest) :
    w.server.contentsMap w.server.nextContentsNum = none := by
  have hgone : w.OldGone := htime (by simp only [Step.isFightAlloc, hq])
  rw [Option.eq_none_iff_forall_ne_some]
  intro contents hmap
  have hnext := horder.idle hidle
  rcases h.mapped _ _ hmap with ⟨-, hmatch⟩ | ⟨handle, rfl, hlt, hnumber⟩
  · exact range_ne_match (hnext ▸ (contentsNumber_range _).2) hmatch
  · -- the fight that has the number is all the numbers older, and still registered
    have hold := add_numberCount_le hlt (hnumber.trans hnext)
    refine (hgone handle hold).1 ?_
    rw [horder.numbers handle hlt, hnumber]
    exact hmap

/-- A step that takes entries out of the map and events out of the queue. -/
theorem Addressed.of_kept {w w' : Tracked} (h : Addressed w)
    (hcreated : w'.server.created = w.server.created)
    (hposting : w'.server.posting = w.server.posting)
    (hmapped : ∀ n contents, w'.server.contentsMap n = some contents →
      w.server.contentsMap n = some contents)
    (hkeys : w'.server.queue = w'.events.map EnterEvent.key)
    (hevents : ∀ event ∈ w'.events, event ∈ w.events) : Addressed w' where
  keys := hkeys
  posted event hevent := by
    rw [hcreated]
    exact h.posted event (hevents event hevent)
  mapped n contents hmap := by
    rw [hcreated]
    exact h.mapped n contents (hmapped n contents hmap)
  reaches event hevent contents hmap :=
    h.reaches event (hevents event hevent) contents (hmapped _ contents hmap)
  posting n ids hp contents hmap := by
    rw [hposting] at hp
    rw [hcreated]
    exact h.posting n ids hp contents (hmapped n contents hmap)

theorem Addressed.alloc {w : Tracked} (h : Addressed w) (horder : NumbersInOrder w.server)
    {pooled : FightContents} {matchID : Int} (htime : InTime w (.control pooled matchID))
    {group : Group} {rest : List Control} (hidle : w.server.posting = none)
    (hq : w.server.ctrlQ = .fightAlloc group :: rest) :
    Addressed ⟨{ w.server with ctrlQ := rest }.handleFightAlloc group pooled matchID,
      w.events⟩ := by
  have hfree := h.next_free horder htime hidle hq
  have hnext := horder.idle hidle
  have hgone : w.OldGone := htime (by simp only [Step.isFightAlloc, hq])
  rw [handleFightAlloc_eq]
  constructor
  · exact h.keys
  · exact fun event hevent =>
      ⟨Nat.lt_succ_of_lt (h.posted event hevent).1, (h.posted event hevent).2⟩
  · intro n contents hmap
    simp only at hmap
    split at hmap
    · rename_i hn
      exact Or.inr ⟨w.server.created, (Option.some.inj hmap).symm, Nat.lt_succ_self _,
        (hn.1.trans hnext).symm⟩
    · refine (h.mapped n contents hmap).imp_right ?_
      rintro ⟨handle, hcontents, hlt, hnumber⟩
      exact ⟨handle, hcontents, Nat.lt_succ_of_lt hlt, hnumber⟩
  · intro event hevent contents hmap
    simp only at hmap
    split at hmap
    · -- an event that carries the number was posted for a fight all the numbers older
      rename_i hn
      obtain ⟨hlt, hnumber⟩ := h.posted event hevent
      have hold := add_numberCount_le hlt (hnumber.symm.trans (hn.1.trans hnext))
      exact absurd rfl ((hgone event.fight hold).2 event hevent)
    · exact h.reaches event hevent contents hmap
  · intro n ids hposting contents hmap
    obtain ⟨rfl, -⟩ := Prod.mk.inj (Option.some.inj hposting)
    simp only [hfree, and_self, if_true] at hmap
    exact (Option.some.inj hmap).symm

theorem erase_keys (events : List EnterEvent) (key : SessionID × ContentsNum) :
    (events.map EnterEvent.key).erase key =
      (events.eraseP fun event => event.key = key).map EnterEvent.key := by
  rw [List.erase_eq_eraseP, List.eraseP_map]
  congr 2
  funext event
  simp only [Function.comp_apply, beq_eq_decide, eq_comm]

/-- **A step in time keeps every event addressed to its fight.** -/
theorem Addressed.step {w w' : Tracked} {step : Step} (h : Addressed w)
    (horder : NumbersInOrder w.server) (htime : InTime w step)
    (hstep : trackedStep w step = some w') : Addressed w' := by
  obtain ⟨server, hserver, rfl⟩ := Option.map_eq_some_iff.mp hstep
  have hnumbering := (systemStep_stepped hserver).numbering
  cases hnumbering with
  | kept hpost hfetch hkept =>
      have htrack : w.track step = w.events := by
        cases step with
        | post => exact absurd rfl hpost
        | fetchEnter id n => exact absurd rfl (hfetch id n)
        | _ => rfl
      rw [htrack]
      exact h.of_kept hkept.created hkept.posting hkept.mapped (hkept.queue.trans h.keys)
        fun _ hevent => hevent
  | @fetch id n _ hkept =>
      have hqueue : server.queue = (w.track (.fetchEnter id n)).map EnterEvent.key := by
        refine hkept.queue.trans ?_
        show w.server.queue.erase (id, n) = _
        rw [h.keys, erase_keys]
        rfl
      exact h.of_kept hkept.created hkept.posting hkept.mapped hqueue fun event hevent =>
        List.mem_of_mem_eraseP hevent
  | alloc hidle hq => exact h.alloc horder htime hidle hq
  | @post n id rest hposting =>
      obtain ⟨handle, hcreated, hn, -⟩ := horder.busy n (id :: rest) hposting
      have hlast : w.server.created - 1 = handle := by omega
      have hlt : w.server.created - 1 < w.server.created := by omega
      have hreaches := h.posting n _ hposting
      simp only [Tracked.track, hposting]
      constructor
      · rw [h.keys, List.map_append]
        rfl
      · intro event hevent
        rcases List.mem_append.mp hevent with hold | hnew
        · exact h.posted event hold
        · rw [List.mem_singleton.mp hnew]
          exact ⟨hlt, by rw [hn, hlast]⟩
      · exact h.mapped
      · intro event hevent
        rcases List.mem_append.mp hevent with hold | hnew
        · exact h.reaches event hold
        · rw [List.mem_singleton.mp hnew]
          exact hreaches
      · intro m ids hm
        obtain ⟨rfl, -⟩ := Prod.mk.inj (Option.some.inj hm)
        exact hreaches
  | @postDone n hposting =>
      have htrack : w.track .post = w.events := by simp only [Tracked.track, hposting]
      rw [htrack]
      exact ⟨h.keys, h.posted, h.mapped, h.reaches, fun m ids hm => by simp at hm⟩

/-! ## Every run -/

theorem tracked_run {pooled : FightContents} {steps : List Step} {w : Tracked}
    (hrun : exec trackedStep (trackedStart pooled) steps = some w) : NumbersInOrder w.server :=
  exec_invariant (I := fun w => NumbersInOrder w.server)
    (fun _ _ _ h hstep => by
      obtain ⟨server, hserver, rfl⟩ := Option.map_eq_some_iff.mp hstep
      exact h.step (systemStep_stepped hserver).numbering)
    (numbersInOrder_initial pooled) hrun

/-- What every step in time keeps. -/
theorem addressed_step {w w' : Tracked} {step : Step}
    (h : NumbersInOrder w.server ∧ Addressed w) (htime : InTime w step)
    (hstep : trackedStep w step = some w') : NumbersInOrder w'.server ∧ Addressed w' := by
  refine ⟨?_, h.2.step h.1 htime hstep⟩
  obtain ⟨server, hserver, rfl⟩ := Option.map_eq_some_iff.mp hstep
  exact h.1.step (systemStep_stepped hserver).numbering

/-- A step in time shares no number. -/
theorem unshared_of_inTime {w w' : Tracked} {step : Step}
    (h : NumbersInOrder w.server ∧ Addressed w) (htime : InTime w step)
    (hstep : trackedStep w step = some w') : Unshared w.server step := by
  obtain ⟨server, hserver, -⟩ := Option.map_eq_some_iff.mp hstep
  have hstepped := systemStep_stepped hserver
  cases hstepped with
  | fightAlloc pooled matchID group rest hidle hq =>
      simp only [Unshared, hq]
      exact h.2.next_free h.1 htime hidle hq
  | fightFree pooled matchID handle rest hidle hq => simp only [Unshared, hq]
  | matchDeregister pooled matchID rest hidle hq => simp only [Unshared, hq]
  | event step handle event hevent hhandle =>
      cases step with
      | control pooled matchID => simp [Step.event?] at hevent
      | _ => trivial
  | _ => trivial

/-- The event leads to its fight or to none: the number is not registered or is that of the
fight, and a worker that takes the event gets the fight or drops the event. -/
structure Reaches (s : Server) (event : EnterEvent) : Prop where
  registered : s.contentsMap event.contentsNum = none ∨
    s.contentsMap event.contentsNum = some (.fight event.fight)
  fetched : ∀ s', systemStep s (.fetchEnter event.sessionID event.contentsNum) = some s' →
    s'.entering = s.entering ∨ s'.entering = (event.sessionID, .fight event.fight) :: s.entering

theorem Addressed.reached {w : Tracked} (h : Addressed w) {event : EnterEvent}
    (hevent : event ∈ w.events) : Reaches w.server event := by
  have honly := h.reaches event hevent
  constructor
  · cases hmap : w.server.contentsMap event.contentsNum with
    | none => exact Or.inl rfl
    | some contents => exact Or.inr (congrArg some (honly contents hmap))
  · intro s' hstep
    have hstepped := systemStep_stepped hstep
    cases hstepped with
    | fetchEnter _ _ contents hmem hmap =>
        rw [honly contents hmap]
        exact Or.inr rfl
    | dropEnter _ _ hmem hmap => exact Or.inl rfl
    | event _ handle event hnone hhandle => simp [Step.event?] at hnone

/-- **The contents numbers of live fights are distinct.**  The fights are numbered from 1 to
ROOM - 1 and round again, so ROOM - 1 allocations in a row use different numbers.  In every
run whose fights are deregistered in time, and their enter events taken, no number is
shared, and every event in the queue leads to the fight it was posted for or to none. -/
theorem contents_numbers_distinct (pooled : FightContents) :
    (∀ k, 1 ≤ contentsNumber k ∧ contentsNumber k < ROOM ∧ contentsNumber k ≠ 0 ∧
      contentsNumber k ≠ CONMOV ∧ contentsNumber k ≠ MATCH) ∧
    (∀ i j, i < j → j < i + numberCount → contentsNumber i ≠ contentsNumber j) ∧
    ∀ steps w, exec trackedStep (trackedStart pooled) steps = some w →
      (∀ handle < w.server.created,
        (w.server.fights handle).contentsNum = contentsNumber handle) ∧
      (Along trackedStep InTime (trackedStart pooled) steps →
        Along systemStep Unshared (initialServer pooled) steps ∧
        w.server.queue = w.events.map EnterEvent.key ∧
        ∀ event ∈ w.events,
          event.contentsNum = contentsNumber event.fight ∧ Reaches w.server event) := by
  refine ⟨fun k => ?_, fun i j => contentsNumber_ne, fun steps w hrun => ?_⟩
  · obtain ⟨hlow, hhigh⟩ := contentsNumber_range k
    refine ⟨hlow, hhigh, ?_, ?_, range_ne_match hhigh⟩
    · intro hzero
      rw [hzero] at hlow
      exact absurd hlow (by decide)
    · intro hconmov
      rw [hconmov] at hlow
      exact absurd hlow (by decide)
  · refine ⟨(tracked_run hrun).numbers, fun htime => ?_⟩
    have hstart : NumbersInOrder (trackedStart pooled).server ∧ Addressed (trackedStart pooled) :=
      ⟨numbersInOrder_initial pooled, addressed_start pooled⟩
    have hkeep : ∀ w step w', NumbersInOrder w.server ∧ Addressed w → InTime w step →
        trackedStep w step = some w' → NumbersInOrder w'.server ∧ Addressed w' :=
      fun _ _ _ => addressed_step
    have hshare : ∀ w step w', NumbersInOrder w.server ∧ Addressed w → InTime w step →
        trackedStep w step = some w' → Unshared w.server step :=
      fun _ _ _ => unshared_of_inTime
    have hunshared := along_of_run hshare hkeep hstart htime hrun
    obtain ⟨-, haddressed⟩ := exec_invariant_along hkeep hstart htime hrun
    refine ⟨Along.map (f := Tracked.server) (fun w step => ?_) hunshared, haddressed.keys,
      fun event hevent => ⟨(haddressed.posted event hevent).2, haddressed.reached hevent⟩⟩
    rw [trackedStep, Option.map_map]
    exact Option.map_id'.symm

/-- The first fight is allocated and its events are posted; nobody has taken them yet. -/
theorem fightPosted_addressed :
    ∃ w, exec trackedStep (trackedStart pooledFight) fightPosted = some w ∧
      w.events.length = 6 ∧ Along systemStep Unshared (initialServer pooledFight) fightPosted ∧
      ∀ event ∈ w.events,
        event.contentsNum = contentsNumber event.fight ∧ Reaches w.server event := by
  have hsome : ∃ w ∈ exec trackedStep (trackedStart pooledFight) fightPosted,
      w.events.length = 6 := by decide +kernel
  obtain ⟨w, hw, hlength⟩ := hsome
  obtain ⟨-, htimely⟩ := (contents_numbers_distinct pooledFight).2.2 fightPosted w hw
  obtain ⟨hunshared, -, hevents⟩ := htimely (by decide +kernel)
  exact ⟨w, hw, hlength, hunshared, hevents⟩

end SessionServer.Battle
