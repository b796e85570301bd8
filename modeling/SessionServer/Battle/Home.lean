/-
  Battle/Home.lean --- every live session has a home.

  A session is at home in a registered contents whose player map holds it, or it is on
  its way to one, or its accept is still in progress.  A fight that ends while some of
  its enter events are on their way is deregistered before they are handled, and leaves
  their sessions without a home.  Runs in which no fight ends early (`NoEarlyEnd`) and
  no contents number is shared (`Unshared`) orphan nobody.

  Four invariants carry the proof: who is known to whom (`Doors`), how many enter
  events a fight still has to come (`Counted`), that a finished fight holds no session
  that is not disconnected (`Cleared`), and the homes themselves (`Homed`).
-/
import SessionServer.Battle.SystemRun

set_option autoImplicit false

namespace SessionServer.Battle

open SessionServer.Foundation

/-! ## Homes -/

/-- The control is a FIGHTALLOC that holds the session. -/
def Control.Holds : Control → SessionID → Prop
  | .fightAlloc group, id => id ∈ group.sessions
  | .fightFree _, _ => False
  | .matchDeregister, _ => False

instance : (control : Control) → (id : SessionID) → Decidable (control.Holds id)
  | .fightAlloc group, id => inferInstanceAs (Decidable (id ∈ group.sessions))
  | .fightFree _, _ => inferInstanceAs (Decidable False)
  | .matchDeregister, _ => inferInstanceAs (Decidable False)

namespace Server

/-- The sessions in the player map of a contents. -/
def players (s : Server) : Contents → List SessionID
  | .match_ => s.match_.playerMap
  | .fight handle => (s.fights handle).playerMap.keys

/-- The number a contents was registered under. -/
def numberOf (s : Server) : Contents → ContentsNum
  | .match_ => MATCH
  | .fight handle => (s.fights handle).contentsNum

def Registered (s : Server) (contents : Contents) : Prop :=
  s.contentsMap (s.numberOf contents) = some contents

instance (s : Server) (contents : Contents) : Decidable (s.Registered contents) :=
  inferInstanceAs (Decidable (_ = _))

/-- The number names a registered contents that holds the session. -/
def InContents (s : Server) (id : SessionID) (n : ContentsNum) : Prop :=
  ∃ contents ∈ s.contentsMap n, id ∈ s.players contents

/-- A FIGHTALLOC that holds the session is pending or being handled, or an enter event
for it aimed at a registered contents is pending or about to run. -/
def Moving (s : Server) (id : SessionID) : Prop :=
  (∃ control ∈ s.ctrlQ, control.Holds id) ∨ (∃ posting ∈ s.posting, id ∈ posting.2) ∨
    (∃ event ∈ s.queue, event.1 = id ∧ (s.contentsMap event.2).isSome) ∨
    ∃ event ∈ s.entering, event.1 = id ∧ s.Registered event.2

/-- The homes of a session. -/
def Home (s : Server) (id : SessionID) (session : Session) : Prop :=
  s.InContents id session.contentsNum ∨ (session.contentsNum = CONMOV ∧ s.Moving id) ∨
    session.phase = .accepting

instance (s : Server) (id : SessionID) (n : ContentsNum) : Decidable (s.InContents id n) :=
  inferInstanceAs (Decidable (∃ contents ∈ s.contentsMap n, _))

instance (s : Server) (id : SessionID) : Decidable (s.Moving id) :=
  inferInstanceAs (Decidable (_ ∨ _))

instance (s : Server) (id : SessionID) (session : Session) : Decidable (s.Home id session) :=
  inferInstanceAs (Decidable (_ ∨ _))

/-! ## Grouping -/

/-- The sessions after some of them have been moved out of the match. -/
structure MovedOut (ids : List SessionID) (sessions sessions' : SessionID → Option Session) :
    Prop where
  same : ∀ id, id ∉ ids → sessions' id = sessions id
  out : ∀ id ∈ ids, ∀ session, sessions' id = some session → session.IsLive →
    session.dFlag = false → session.contentsNum = CONMOV
  back : ∀ id session, sessions' id = some session →
    ∃ old, sessions id = some old ∧ session.phase = old.phase ∧ session.dFlag = old.dFlag

theorem MovedOut.trans {xs ys : List SessionID} {a b c : SessionID → Option Session}
    (h : MovedOut xs a b) (h' : MovedOut ys b c) : MovedOut (xs ++ ys) a c where
  same := by
    intro id hid
    rw [List.mem_append, not_or] at hid
    exact (h'.same id hid.2).trans (h.same id hid.1)
  out := by
    intro id hid session hs hlive hflag
    by_cases hy : id ∈ ys
    · exact h'.out id hy session hs hlive hflag
    · rw [h'.same id hy] at hs
      rcases List.mem_append.mp hid with hx | hy'
      · exact h.out id hx session hs hlive hflag
      · exact absurd hy' hy
  back := by
    intro id session hs
    obtain ⟨mid, hmid, hphase, hflag⟩ := h'.back id session hs
    obtain ⟨old, hold, hphase', hflag'⟩ := h.back id mid hmid
    exact ⟨old, hold, hphase.trans hphase', hflag.trans hflag'⟩

theorem tryMove_movedOut (s : Server) (id : SessionID) :
    MovedOut [id] s.sessions (s.tryMoveSessionToContents id CONMOV).1.sessions := by
  unfold tryMoveSessionToContents
  split
  · constructor
    · intro id' hid
      simp only [modifySession, if_neg (by simpa using hid : ¬ id' = id)]
    · intro id' hid session hs _ _
      simp only [modifySession, if_pos (List.mem_singleton.mp hid)] at hs
      obtain ⟨old, _, rfl⟩ := Option.map_eq_some_iff.mp hs
      rfl
    · intro id' session hs
      simp only [modifySession] at hs
      split at hs
      · obtain ⟨old, hold, rfl⟩ := Option.map_eq_some_iff.mp hs
        exact ⟨old, hold, rfl, rfl⟩
      · exact ⟨session, hs, rfl, rfl⟩
  · rename_i hnot
    constructor
    · intro id' _
      rfl
    · intro id' hid session hs hlive hflag
      rw [List.mem_singleton] at hid
      subst hid
      exact absurd (by simp [movable, show s.sessions id' = some session from hs, hlive, hflag]) hnot
    · intro id' session hs
      exact ⟨session, hs, rfl, rfl⟩

theorem assignSlot_spec {s : Server} {id : SessionID} {rest : List SessionID}
    (h : s.match_.playerMap = id :: rest) (team : Team) :
    (s.assignSlot team).2 = id ∧
      (s.assignSlot team).1.match_ = { s.match_ with playerMap := rest } ∧
      MovedOut [id] s.sessions (s.assignSlot team).1.sessions := by
  have hmatch : ((s.setTeam id team).tryMoveSessionToContents id CONMOV).1.match_ = s.match_ := by
    unfold tryMoveSessionToContents
    split <;> rfl
  have hmoved := (s.setTeam id team).tryMove_movedOut id
  unfold assignSlot
  rw [h]
  exact ⟨rfl, by simp only [hmatch], hmoved⟩

theorem assignTeam_spec {s : Server} {a b c : SessionID} {rest : List SessionID}
    (h : s.match_.playerMap = a :: b :: c :: rest) (team : Team) :
    (s.assignTeamAndMovePlayers team).2 = ![a, b, c] ∧
      (s.assignTeamAndMovePlayers team).1.match_ = { s.match_ with playerMap := rest } ∧
      MovedOut [a, b, c] s.sessions (s.assignTeamAndMovePlayers team).1.sessions := by
  obtain ⟨ha, hma, hsa⟩ := assignSlot_spec h team
  obtain ⟨hb, hmb, hsb⟩ := assignSlot_spec (s := (s.assignSlot team).1) (by rw [hma]) team
  obtain ⟨hc, hmc, hsc⟩ := assignSlot_spec (s := ((s.assignSlot team).1.assignSlot team).1)
    (by rw [hmb]) team
  refine ⟨?_, ?_, (hsa.trans hsb).trans hsc⟩
  · simp only [assignTeamAndMovePlayers, ha, hb, hc]
  · simp only [assignTeamAndMovePlayers, hmc, hmb, hma]

/-- **What grouping does**: the first six players are moved out and held by a new
FIGHTALLOC. -/
theorem groupPlayers_spec {s : Server} (hlen : 6 ≤ s.match_.playerMap.length) :
    ∃ group : Group, s.match_.playerMap = group.sessions ++ s.groupPlayers.match_.playerMap ∧
      s.groupPlayers.ctrlQ = s.ctrlQ ++ [.fightAlloc group] ∧
      s.groupPlayers.match_.stopRequested = s.match_.stopRequested ∧
      MovedOut group.sessions s.sessions s.groupPlayers.sessions := by
  match hmap : s.match_.playerMap, hlen with
  | a :: b :: c :: d :: e :: f :: rest, _ =>
      obtain ⟨hr, hmr, hsr⟩ := assignTeam_spec hmap .red
      obtain ⟨hb, hmb, hsb⟩ :=
        assignTeam_spec (s := (s.assignTeamAndMovePlayers .red).1) (by rw [hmr]) .blue
      have hq : s.groupPlayers.ctrlQ = s.ctrlQ ++ [.fightAlloc ⟨![a, b, c], ![d, e, f]⟩] := by
        simp only [groupPlayers, enqueueControl, hr, hb]
        congr 1
        simp only [assignTeamAndMovePlayers, assignSlot_ctrlQ]
      have hm : s.groupPlayers.match_ = { s.match_ with playerMap := rest } := by
        simp only [groupPlayers, enqueueControl, hmb, hmr]
      refine ⟨⟨![a, b, c], ![d, e, f]⟩, ?_, hq, by rw [hm], hsr.trans hsb⟩
      rw [hm]
      rfl

/-- What `OnEnter` of a running match does for a player the server knows. -/
theorem matchEnter_spec {s : Server} {id : SessionID} (hrun : s.match_.stopRequested = false)
    (hknown : (s.playerMap id).isSome) :
    (s.matchEnter id).match_.stopRequested = false ∧
    (((s.matchEnter id).sessions = s.sessions ∧ (s.matchEnter id).ctrlQ = s.ctrlQ ∧
        id ∈ (s.matchEnter id).match_.playerMap ∧
        ∀ id', id' ∈ (s.matchEnter id).match_.playerMap ↔ id' = id ∨ id' ∈ s.match_.playerMap) ∨
      ∃ group : Group, (s.matchEnter id).ctrlQ = s.ctrlQ ++ [.fightAlloc group] ∧
        MovedOut group.sessions s.sessions (s.matchEnter id).sessions ∧
        ∀ id', (id' ∈ group.sessions ∨ id' ∈ (s.matchEnter id).match_.playerMap) ↔
          id' = id ∨ id' ∈ s.match_.playerMap) := by
  have hins : (s.insertWaiting id).sessions = s.sessions ∧
      (s.insertWaiting id).match_.stopRequested = s.match_.stopRequested ∧
      ∀ id', id' ∈ (s.insertWaiting id).match_.playerMap ↔ id' = id ∨ id' ∈ s.match_.playerMap := by
    unfold insertWaiting
    split
    · rename_i hmem
      refine ⟨rfl, rfl, fun id' => ⟨Or.inr, ?_⟩⟩
      rintro (rfl | h)
      · exact hmem
      · exact h
    · refine ⟨rfl, rfl, fun id' => ?_⟩
      have hsplit := List.take_append_drop s.match_.place s.match_.playerMap
      have : id' ∈ s.match_.playerMap ↔
          id' ∈ s.match_.playerMap.take s.match_.place ∨
            id' ∈ s.match_.playerMap.drop s.match_.place := by
        rw [← List.mem_append, hsplit]
      simp only [List.mem_append, List.mem_cons, this]
      tauto
  obtain ⟨hsessions, hstop, hmem⟩ := hins
  have hq := (s.insertWaiting_frame id).2
  simp only [matchEnter, hrun, hknown, Bool.false_eq_true, if_false, if_true]
  split
  · rename_i hlen
    obtain ⟨group, hmap, hq', hstop', hmoved⟩ := groupPlayers_spec hlen
    refine ⟨by rw [hstop', hstop, hrun], Or.inr ⟨group, by rw [hq', hq], ?_, fun id' => ?_⟩⟩
    · rw [← hsessions]
      exact hmoved
    · rw [← hmem, hmap, List.mem_append]
  · exact ⟨by rw [hstop, hrun], Or.inl ⟨hsessions, hq, (hmem id).mpr (Or.inl rfl), hmem⟩⟩

/-! ## Who is known to whom -/

/-- The session has passed its accept. -/
def Past (s : Server) (id : SessionID) : Prop :=
  s.phaseOf id ≠ none ∧ s.phaseOf id ≠ some .accepting

/-- The session waits in the match, is held by a control, or has an enter event. -/
def Mentions (s : Server) (id : SessionID) : Prop :=
  id ∈ s.match_.playerMap ∨ (∃ control ∈ s.ctrlQ, control.Holds id) ∨
    (∃ posting ∈ s.posting, id ∈ posting.2) ∨ (∃ n, (id, n) ∈ s.queue) ∨
    ∃ contents, (id, contents) ∈ s.entering

/-- The accept thread, the match and the sessions they know. -/
structure Doors (s : Server) : Prop where
  accepting : ∀ id, s.accepting = some id ↔ s.phaseOf id = some .accepting
  known : ∀ id, s.phaseOf id = some .live → (s.playerMap id).isSome
  stopRequested : s.match_.stopRequested = true → s.acceptStopped = true
  acceptStopped : s.acceptStopped = true → s.accepting = none
  deregister : .matchDeregister ∈ s.ctrlQ →
    s.match_.stopRequested = true ∧ s.match_.playerMap = []
  match_ : s.contentsMap MATCH = some .match_ ∨
    (s.contentsMap MATCH = none ∧ s.match_.stopRequested = true ∧ s.match_.playerMap = [])
  past : ∀ id, s.Mentions id → s.Past id

theorem doors_initial (pooled : FightContents) : Doors (initialServer pooled) where
  accepting := by simp [initialServer, phaseOf]
  known := by simp [initialServer, phaseOf]
  stopRequested := by simp [initialServer]
  acceptStopped := by simp [initialServer]
  deregister := by simp [initialServer]
  match_ := Or.inl rfl
  past := by
    rintro id (h | ⟨_, h, _⟩ | ⟨_, h, _⟩ | ⟨_, h⟩ | ⟨_, h⟩) <;> simp [initialServer] at h

/-- While a session is being accepted the match runs and is registered. -/
theorem Doors.running {s : Server} (h : Doors s) {id : SessionID}
    (hacc : s.accepting = some id) :
    s.match_.stopRequested = false ∧ s.contentsMap MATCH = some .match_ := by
  have hstop : s.match_.stopRequested = false := by
    cases hs : s.match_.stopRequested with
    | false => rfl
    | true =>
        rw [h.acceptStopped (h.stopRequested hs)] at hacc
        simp at hacc
  rcases h.match_ with hm | ⟨_, hs, _⟩
  · exact ⟨hstop, hm⟩
  · simp [hstop] at hs

/-- A state with the same accepts, phases and match, and nobody new mentioned. -/
theorem Doors.of_same {s s' : Server} (h : Doors s) (hphase : ∀ id, s'.phaseOf id = s.phaseOf id)
    (hknown : ∀ id, (s.playerMap id).isSome → (s'.playerMap id).isSome)
    (hacc : s'.accepting = s.accepting) (hstopped : s'.acceptStopped = s.acceptStopped)
    (hmatch : s'.match_ = s.match_)
    (hderegister : .matchDeregister ∈ s'.ctrlQ → .matchDeregister ∈ s.ctrlQ)
    (hmap : s'.contentsMap MATCH = s.contentsMap MATCH)
    (hmentions : ∀ id, s'.Mentions id → s.Mentions id) : Doors s' where
  accepting := by
    intro id
    rw [hacc, hphase]
    exact h.accepting id
  known := by
    intro id hp
    rw [hphase] at hp
    exact hknown id (h.known id hp)
  stopRequested := by rw [hmatch, hstopped]; exact h.stopRequested
  acceptStopped := by rw [hstopped, hacc]; exact h.acceptStopped
  deregister := by
    intro hmem
    rw [hmatch]
    exact h.deregister (hderegister hmem)
  match_ := by rw [hmap, hmatch]; exact h.match_
  past := by
    intro id hm
    obtain ⟨h1, h2⟩ := h.past id (hmentions id hm)
    exact ⟨by rwa [hphase], by rwa [hphase]⟩

/-- A session goes on in its life. -/
theorem Doors.setPhase {s : Server} (h : Doors s) (id : SessionID) (phase : Phase)
    (hold : s.phaseOf id ≠ some .accepting) (hnew : phase ≠ .accepting) (hlive : phase ≠ .live) :
    Doors (s.setPhase id phase) := by
  have hphase : ∀ id', id' ≠ id → (s.setPhase id phase).phaseOf id' = s.phaseOf id' := by
    intro id' hne
    rw [phaseOf_setPhase, if_neg hne]
  have hself : (s.setPhase id phase).phaseOf id ≠ some .accepting ∧
      (s.setPhase id phase).phaseOf id ≠ some .live ∧
      (s.phaseOf id ≠ none → (s.setPhase id phase).phaseOf id ≠ none) := by
    rw [phaseOf_setPhase, if_pos rfl]
    cases s.phaseOf id <;> simp [hnew, hlive]
  constructor
  · intro id'
    by_cases heq : id' = id
    · subst heq
      exact ⟨fun hacc => absurd ((h.accepting id').mp hacc) hold, fun hp => absurd hp hself.1⟩
    · rw [hphase id' heq]
      exact h.accepting id'
  · intro id' hp
    by_cases heq : id' = id
    · subst heq
      exact absurd hp hself.2.1
    · rw [hphase id' heq] at hp
      exact h.known id' hp
  · exact h.stopRequested
  · exact h.acceptStopped
  · exact h.deregister
  · exact h.match_
  · intro id' hm
    obtain ⟨h1, h2⟩ := h.past id' hm
    by_cases heq : id' = id
    · subst heq
      exact ⟨hself.2.2 h1, hself.1⟩
    · exact ⟨by rwa [hphase id' heq], by rwa [hphase id' heq]⟩

/-- One event of a fight keeps the doors. -/
theorem Doors.fightEvent {s : Server} (h : Doors s) (handle : FightHandle) (event : FightEvent) :
    Doors (s.fightEvent handle event) := by
  obtain ⟨hacc, hstopped, hplayers, hmatch, hmap, -, hposting, -, hqueue, hentering, -, -⟩ :=
    s.fightEvent_rest handle event
  have hq := (s.fightEvent_spec handle event).ctrlQ
  have hcontrol : ∀ control ∈ (s.fightEvent handle event).ctrlQ,
      (∀ k, control ≠ .fightFree k) → control ∈ s.ctrlQ := by
    intro control hmem hne
    rw [hq] at hmem
    rcases List.mem_append.mp hmem with hmem | hmem
    · exact hmem
    · obtain ⟨k, _, rfl⟩ := List.mem_map.mp hmem
      exact absurd rfl (hne k)
  refine h.of_same (s.fightEvent_phaseOf handle event) (fun id hk => by rw [hplayers]; exact hk)
    hacc hstopped hmatch (fun hmem => hcontrol _ hmem (by simp)) (by rw [hmap]) ?_
  rintro id (hm | ⟨control, hmem, hholds⟩ | hm | hm | hm)
  · rw [hmatch] at hm
    exact Or.inl hm
  · refine Or.inr (Or.inl ⟨control, hcontrol control hmem ?_, hholds⟩)
    rintro k rfl
    exact hholds
  · rw [hposting] at hm
    exact Or.inr (Or.inr (Or.inl hm))
  · rw [hqueue] at hm
    exact Or.inr (Or.inr (Or.inr (Or.inl hm)))
  · rw [hentering] at hm
    exact Or.inr (Or.inr (Or.inr (Or.inr hm)))

theorem checkStopRequested_spec (s : Server) :
    s.checkStopRequested.match_ = s.match_ ∧ s.checkStopRequested.sessions = s.sessions ∧
      (s.checkStopRequested.ctrlQ = s.ctrlQ ∨
        (s.checkStopRequested.ctrlQ = s.ctrlQ ++ [.matchDeregister] ∧
          s.match_.playerMap = [] ∧ s.match_.stopRequested = true)) := by
  unfold checkStopRequested
  split
  · rename_i h
    exact ⟨rfl, rfl, Or.inr ⟨rfl, h⟩⟩
  · exact ⟨rfl, rfl, Or.inl rfl⟩

/-- The match loses players or is asked to stop, and may enqueue its deregistration. -/
theorem Doors.matchChange {s s' : Server} (h : Doors s) (hframe : Frame s s')
    (hmap : ∀ id ∈ s'.match_.playerMap, id ∈ s.match_.playerMap)
    (hstop : s.match_.stopRequested = true → s'.match_.stopRequested = true)
    (hstopped : s'.match_.stopRequested = true → s.acceptStopped = true)
    (hq : s'.ctrlQ = s.ctrlQ ∨ (s'.ctrlQ = s.ctrlQ ++ [.matchDeregister] ∧
      s'.match_.playerMap = [] ∧ s'.match_.stopRequested = true)) : Doors s' := by
  have hempty : s.match_.playerMap = [] → s'.match_.playerMap = [] := by
    intro hnil
    rw [List.eq_nil_iff_forall_not_mem]
    intro id hid
    have := hmap id hid
    simp [hnil] at this
  have hcontrol : ∀ control ∈ s'.ctrlQ, control ≠ .matchDeregister → control ∈ s.ctrlQ := by
    intro control hmem hne
    rcases hq with hq | ⟨hq, _, _⟩ <;> rw [hq] at hmem
    · exact hmem
    · rcases List.mem_append.mp hmem with hmem | hmem
      · exact hmem
      · exact absurd (List.mem_singleton.mp hmem) hne
  constructor
  · intro id
    rw [hframe.accepting, hframe.phaseOf]
    exact h.accepting id
  · intro id hp
    rw [hframe.phaseOf] at hp
    rw [hframe.known]
    exact h.known id hp
  · intro hs
    rw [hframe.acceptStopped]
    exact hstopped hs
  · rw [hframe.acceptStopped, hframe.accepting]
    exact h.acceptStopped
  · intro hmem
    rcases hq with hq | ⟨_, hnil, hs⟩
    · rw [hq] at hmem
      obtain ⟨hs, hnil⟩ := h.deregister hmem
      exact ⟨hstop hs, hempty hnil⟩
    · exact ⟨hs, hnil⟩
  · rw [hframe.contentsMap]
    exact h.match_.imp_right fun ⟨hm, hs, hnil⟩ => ⟨hm, hstop hs, hempty hnil⟩
  · intro id hm
    have hmentions : s.Mentions id := by
      rcases hm with hm | ⟨control, hmem, hholds⟩ | hm | hm | hm
      · exact Or.inl (hmap id hm)
      · refine Or.inr (Or.inl ⟨control, hcontrol control hmem ?_, hholds⟩)
        rintro rfl
        exact hholds
      · rw [hframe.posting] at hm
        exact Or.inr (Or.inr (Or.inl hm))
      · rw [hframe.queue] at hm
        exact Or.inr (Or.inr (Or.inr (Or.inl hm)))
      · rw [hframe.entering] at hm
        exact Or.inr (Or.inr (Or.inr (Or.inr hm)))
    obtain ⟨h1, h2⟩ := h.past id hmentions
    exact ⟨by rwa [hframe.phaseOf], by rwa [hframe.phaseOf]⟩

theorem Doors.matchLeave {s : Server} (h : Doors s) (id : SessionID) :
    Doors (s.matchLeave id) := by
  obtain ⟨hmatch, _, hq⟩ := checkStopRequested_spec
    { s with match_ := { s.match_ with playerMap := s.match_.playerMap.filter (· ≠ id) } }
  refine h.matchChange (s.matchLeave_frame id).frame ?_ ?_ ?_ ?_
  · intro id' hid
    rw [Server.matchLeave, hmatch] at hid
    exact (List.mem_filter.mp hid).1
  · intro hs
    rw [Server.matchLeave, hmatch]
    exact hs
  · intro hs
    rw [Server.matchLeave, hmatch] at hs
    exact h.stopRequested hs
  · rw [← hmatch] at hq
    exact hq

theorem matchShutDown_spec (s : Server) :
    s.matchShutDown.match_ = { s.match_ with stopRequested := true } ∧
      s.matchShutDown.sessions =
        (s.match_.playerMap.foldl disconnect
          { s with match_ := { s.match_ with stopRequested := true } }).sessions ∧
      (s.matchShutDown.ctrlQ = s.ctrlQ ∨
        (s.matchShutDown.ctrlQ = s.ctrlQ ++ [.matchDeregister] ∧ s.match_.playerMap = [])) := by
  obtain ⟨_, hq, hm⟩ := foldl_disconnect_frame s.match_.playerMap
    { s with match_ := { s.match_ with stopRequested := true } }
  obtain ⟨hmatch, hsessions, hq'⟩ := checkStopRequested_spec (s.match_.playerMap.foldl disconnect
    { s with match_ := { s.match_ with stopRequested := true } })
  rw [hq, hm] at hq'
  refine ⟨hmatch.trans hm, hsessions, ?_⟩
  exact hq'.imp_right fun ⟨h1, h2, _⟩ => ⟨h1, h2⟩

theorem Doors.matchShutDown {s : Server} (h : Doors s) (hstop : s.acceptStopped = true) :
    Doors s.matchShutDown := by
  obtain ⟨hmatch, _, hq⟩ := s.matchShutDown_spec
  refine h.matchChange s.matchShutDown_frame.frame ?_ ?_ (fun _ => hstop) ?_
  · intro id hid
    rwa [hmatch] at hid
  · intro _
    rw [hmatch]
  · rw [hmatch]
    exact hq.imp_right fun ⟨h1, h2⟩ => ⟨h1, h2, rfl⟩

/-- The end of an accept. -/
theorem Doors.acceptEnter {s : Server} (h : Doors s) {id : SessionID}
    (hacc : s.accepting = some id) (hknown : (s.playerMap id).isSome) :
    Doors { (s.matchEnter id).setPhase id .live with accepting := none } := by
  obtain ⟨hrun, hmap⟩ := h.running hacc
  have hframe := (s.matchEnter_frame id).frame
  obtain ⟨hstop, hcases⟩ := matchEnter_spec hrun hknown
  have hphase : ∀ id', ((s.matchEnter id).setPhase id .live).phaseOf id' =
      if id' = id then (s.phaseOf id').map fun _ => .live else s.phaseOf id' := by
    intro id'
    rw [phaseOf_setPhase, hframe.phaseOf]
  have hself : s.phaseOf id = some .accepting := (h.accepting id).mp hacc
  -- Only the entering session is new to the match and its requests.
  have hmentions : ∀ id', ((s.matchEnter id).setPhase id .live).Mentions id' →
      id' = id ∨ s.Mentions id' := by
    rintro id' (hm | hm | hm | hm | hm)
    · have hm : id' ∈ (s.matchEnter id).match_.playerMap := hm
      rcases hcases with ⟨_, _, _, hmem⟩ | ⟨group, _, _, hmem⟩
      · exact ((hmem id').mp hm).imp_right Or.inl
      · exact ((hmem id').mp (Or.inr hm)).imp_right Or.inl
    · obtain ⟨control, hc, hholds⟩ := hm
      have hc : control ∈ (s.matchEnter id).ctrlQ := hc
      rcases hcases with ⟨_, hq, _, _⟩ | ⟨group, hq, _, hmem⟩ <;> rw [hq] at hc
      · exact Or.inr (Or.inr (Or.inl ⟨control, hc, hholds⟩))
      · rcases List.mem_append.mp hc with hc | hc
        · exact Or.inr (Or.inr (Or.inl ⟨control, hc, hholds⟩))
        · rw [List.mem_singleton] at hc
          subst hc
          exact ((hmem id').mp (Or.inl hholds)).imp_right Or.inl
    · have hm : ∃ posting ∈ (s.matchEnter id).posting, id' ∈ posting.2 := hm
      rw [hframe.posting] at hm
      exact Or.inr (Or.inr (Or.inr (Or.inl hm)))
    · have hm : ∃ n, (id', n) ∈ (s.matchEnter id).queue := hm
      rw [hframe.queue] at hm
      exact Or.inr (Or.inr (Or.inr (Or.inr (Or.inl hm))))
    · have hm : ∃ contents, (id', contents) ∈ (s.matchEnter id).entering := hm
      rw [hframe.entering] at hm
      exact Or.inr (Or.inr (Or.inr (Or.inr (Or.inr hm))))
  constructor
  · intro id'
    refine ⟨fun hnone => by simp at hnone, fun hp => ?_⟩
    have hp : ((s.matchEnter id).setPhase id .live).phaseOf id' = some .accepting := hp
    rw [hphase] at hp
    split at hp
    · rename_i heq
      rw [heq, hself] at hp
      simp at hp
    · rename_i hne
      rw [← h.accepting, hacc, Option.some.injEq] at hp
      exact absurd hp.symm hne
  · intro id' hp
    have hp : ((s.matchEnter id).setPhase id .live).phaseOf id' = some .live := hp
    show ((s.matchEnter id).playerMap id').isSome
    rw [hframe.known]
    rw [hphase] at hp
    split at hp
    · rename_i heq
      rw [heq]
      exact hknown
    · exact h.known id' hp
  · intro hs
    exact absurd (hstop.symm.trans hs) (by simp)
  · intro _
    rfl
  · intro hmem
    have hmem : .matchDeregister ∈ (s.matchEnter id).ctrlQ := hmem
    have hold : .matchDeregister ∈ s.ctrlQ := by
      rcases hcases with ⟨_, hq, _, _⟩ | ⟨group, hq, _, _⟩ <;> rw [hq] at hmem
      · exact hmem
      · simpa using hmem
    have := (h.deregister hold).1
    simp [hrun] at this
  · refine Or.inl ?_
    show (s.matchEnter id).contentsMap MATCH = some .match_
    rw [hframe.contentsMap]
    exact hmap
  · intro id' hm
    have hpast : ((s.matchEnter id).setPhase id .live).phaseOf id' ≠ none ∧
        ((s.matchEnter id).setPhase id .live).phaseOf id' ≠ some .accepting := by
      rw [hphase]
      rcases hmentions id' hm with rfl | hm
      · simp [hself]
      · obtain ⟨h1, h2⟩ := h.past id' hm
        split
        · rename_i heq
          rw [heq, hself]
          simp
        · exact ⟨h1, h2⟩
    exact hpast

end Server

end SessionServer.Battle
