/-
  Battle/SystemStep.lean --- what one step of the server can do.

  Frame lemmas for the handlers of the match and the calls of the library, one
  specification for the requests of a fight, and `Stepped`, which lists the steps with
  what enables them.  The run results never unfold `systemStep` again.
-/
import SessionServer.Battle.System

set_option autoImplicit false

namespace SessionServer.Battle

open SessionServer.Foundation

namespace Server

/-! ## Frames -/

/-- The phase of a session that exists. -/
def phaseOf (s : Server) (id : SessionID) : Option Phase := (s.sessions id).map Session.phase

/-- The session is not live without its disconnect flag. -/
def Cut (sessions : SessionID → Option Session) (id : SessionID) : Prop :=
  ∀ session, sessions id = some session → session.IsLive → session.dFlag = true

/-- Every player is stored under its own session ID. -/
def OwnIDs (playerMap : SessionID → Option Player) : Prop :=
  ∀ id player, playerMap id = some player → player.sessionID = id

/-- What the handlers of the match and the calls of the library leave alone. -/
structure Frame (s s' : Server) : Prop where
  phaseOf : ∀ id, s'.phaseOf id = s.phaseOf id
  cut : ∀ id, Cut s.sessions id → Cut s'.sessions id
  known : ∀ id, (s'.playerMap id).isSome = (s.playerMap id).isSome
  own : OwnIDs s.playerMap → OwnIDs s'.playerMap
  accepting : s'.accepting = s.accepting
  acceptStopped : s'.acceptStopped = s.acceptStopped
  contentsMap : s'.contentsMap = s.contentsMap
  fights : s'.fights = s.fights
  created : s'.created = s.created
  posting : s'.posting = s.posting
  nextContentsNum : s'.nextContentsNum = s.nextContentsNum
  queue : s'.queue = s.queue
  entering : s'.entering = s.entering
  dbQ : s'.dbQ = s.dbQ
  frees : s'.frees = s.frees
  inits : s'.inits = s.inits

theorem Frame.refl (s : Server) : Frame s s := by
  constructor <;> intros <;> first | rfl | assumption

theorem Frame.trans {a b c : Server} (h : Frame a b) (h' : Frame b c) : Frame a c where
  phaseOf := fun id => (h'.phaseOf id).trans (h.phaseOf id)
  cut := fun id hcut => h'.cut id (h.cut id hcut)
  known := fun id => (h'.known id).trans (h.known id)
  own := fun hown => h'.own (h.own hown)
  accepting := h'.accepting.trans h.accepting
  acceptStopped := h'.acceptStopped.trans h.acceptStopped
  contentsMap := h'.contentsMap.trans h.contentsMap
  fights := h'.fights.trans h.fights
  created := h'.created.trans h.created
  posting := h'.posting.trans h.posting
  nextContentsNum := h'.nextContentsNum.trans h.nextContentsNum
  queue := h'.queue.trans h.queue
  entering := h'.entering.trans h.entering
  dbQ := h'.dbQ.trans h.dbQ
  frees := h'.frees.trans h.frees
  inits := h'.inits.trans h.inits

theorem modifySession_frame (s : Server) (id : SessionID) {write : Session → Session}
    (hphase : ∀ session, (write session).phase = session.phase)
    (hflag : ∀ session, session.dFlag = true → (write session).dFlag = true) :
    Frame s (s.modifySession id write) := by
  constructor
  · intro id'
    simp only [Server.phaseOf, modifySession]
    split
    · rw [Option.map_map]
      congr 1
      funext session
      exact hphase session
    · rfl
  · intro id' hcut session hs hlive
    simp only [modifySession] at hs
    split at hs
    · obtain ⟨old, hold, rfl⟩ := Option.map_eq_some_iff.mp hs
      refine hflag old (hcut old hold ?_)
      simpa [Session.IsLive, hphase] using hlive
    · exact hcut session hs hlive
  all_goals intros; first | rfl | assumption

theorem disconnect_frame (s : Server) (id : SessionID) : Frame s (s.disconnect id) := by
  refine s.modifySession_frame id (fun session => ?_) (fun session hflag => ?_)
  · split <;> rfl
  · split
    · rfl
    · exact hflag

theorem tryMove_frame (s : Server) (id : SessionID) (n : ContentsNum) :
    Frame s (s.tryMoveSessionToContents id n).1 := by
  unfold tryMoveSessionToContents
  split
  · exact s.modifySession_frame id (fun _ => rfl) (fun _ h => h)
  · exact Frame.refl s

@[simp] theorem tryMove_ctrlQ (s : Server) (id : SessionID) (n : ContentsNum) :
    (s.tryMoveSessionToContents id n).1.ctrlQ = s.ctrlQ := by
  unfold tryMoveSessionToContents
  split <;> rfl

theorem setTeam_frame (s : Server) (id : SessionID) (team : Team) :
    Frame s (s.setTeam id team) := by
  constructor
  · intro id'
    rfl
  · intro id' hcut
    exact hcut
  · intro id'
    simp only [setTeam]
    split <;> simp
  · intro hown id' player hplayer
    simp only [setTeam] at hplayer
    split at hplayer
    · obtain ⟨old, hold, rfl⟩ := Option.map_eq_some_iff.mp hplayer
      exact hown id' old hold
    · exact hown id' player hplayer
  all_goals rfl

theorem assignSlot_frame (s : Server) (team : Team) : Frame s (s.assignSlot team).1 := by
  unfold assignSlot
  split
  · exact Frame.refl s
  · rename_i id rest _
    have hmove := (s.setTeam id team).tryMove_frame id CONMOV
    refine ((s.setTeam_frame id team).trans hmove).trans ?_
    constructor <;> intros <;> first | rfl | assumption

@[simp] theorem assignSlot_ctrlQ (s : Server) (team : Team) :
    (s.assignSlot team).1.ctrlQ = s.ctrlQ := by
  unfold assignSlot
  split
  · rfl
  · exact tryMove_ctrlQ _ _ _

theorem groupPlayers_frame (s : Server) : Frame s s.groupPlayers := by
  have hteam : ∀ (s : Server) (team : Team), Frame s (s.assignTeamAndMovePlayers team).1 :=
    fun s team => ((s.assignSlot_frame team).trans (assignSlot_frame _ team)).trans
      (assignSlot_frame _ team)
  refine ((hteam s .red).trans (hteam _ .blue)).trans ?_
  constructor <;> intros <;> first | rfl | assumption

/-- The requests the control queue gains from the match. -/
def IsMatchControl : Control → Prop
  | .fightAlloc _ => True
  | .fightFree _ => False
  | .matchDeregister => True

/-- What the handlers of the match touch: the sessions, the players, the match itself
and, with its own requests, the control queue. -/
structure MatchFrame (s s' : Server) : Prop where
  frame : Frame s s'
  ctrlQ : ∃ more, (∀ control ∈ more, IsMatchControl control) ∧ s'.ctrlQ = s.ctrlQ ++ more

theorem MatchFrame.of_ctrlQ_eq {s s' : Server} (h : Frame s s') (hq : s'.ctrlQ = s.ctrlQ) :
    MatchFrame s s' :=
  ⟨h, [], by simp, by simp [hq]⟩

theorem groupPlayers_matchFrame (s : Server) : MatchFrame s s.groupPlayers := by
  have hq : ∃ group, s.groupPlayers.ctrlQ = s.ctrlQ ++ [.fightAlloc group] := by
    simp only [groupPlayers, enqueueControl, assignTeamAndMovePlayers, assignSlot_ctrlQ]
    exact ⟨_, rfl⟩
  obtain ⟨group, hq⟩ := hq
  exact ⟨s.groupPlayers_frame, [.fightAlloc group], by simp [IsMatchControl], hq⟩

theorem insertWaiting_frame (s : Server) (id : SessionID) :
    Frame s (s.insertWaiting id) ∧ (s.insertWaiting id).ctrlQ = s.ctrlQ := by
  unfold insertWaiting
  split
  · exact ⟨Frame.refl s, rfl⟩
  · exact ⟨by constructor <;> intros <;> first | rfl | assumption, rfl⟩

theorem matchEnter_frame (s : Server) (id : SessionID) : MatchFrame s (s.matchEnter id) := by
  unfold matchEnter
  split
  · exact MatchFrame.of_ctrlQ_eq (s.disconnect_frame id) rfl
  · split
    · obtain ⟨hframe, hq⟩ := s.insertWaiting_frame id
      simp only
      split
      · obtain ⟨hgroup, more, hmore, hq'⟩ := (s.insertWaiting id).groupPlayers_matchFrame
        exact ⟨hframe.trans hgroup, more, hmore, by rw [hq', hq]⟩
      · exact MatchFrame.of_ctrlQ_eq hframe hq
    · exact MatchFrame.of_ctrlQ_eq (Frame.refl s) rfl

theorem checkStopRequested_frame (s : Server) : MatchFrame s s.checkStopRequested := by
  unfold checkStopRequested
  split
  · exact ⟨by constructor <;> intros <;> first | rfl | assumption, [.matchDeregister],
      by simp [IsMatchControl], rfl⟩
  · exact MatchFrame.of_ctrlQ_eq (Frame.refl s) rfl

theorem matchLeave_frame (s : Server) (id : SessionID) : MatchFrame s (s.matchLeave id) := by
  obtain ⟨hframe, hq⟩ := checkStopRequested_frame
    { s with match_ := { s.match_ with playerMap := s.match_.playerMap.filter (· ≠ id) } }
  refine ⟨Frame.trans ?_ hframe, hq⟩
  constructor <;> intros <;> first | rfl | assumption

theorem foldl_disconnect_frame (ids : List SessionID) (s : Server) :
    Frame s (ids.foldl disconnect s) ∧ (ids.foldl disconnect s).ctrlQ = s.ctrlQ ∧
      (ids.foldl disconnect s).match_ = s.match_ := by
  induction ids generalizing s with
  | nil => exact ⟨Frame.refl s, rfl, rfl⟩
  | cons id ids ih =>
      obtain ⟨hframe, hq, hm⟩ := ih (s.disconnect id)
      exact ⟨(s.disconnect_frame id).trans hframe, hq, hm⟩

theorem matchShutDown_frame (s : Server) : MatchFrame s s.matchShutDown := by
  obtain ⟨hframe, hq, _⟩ := foldl_disconnect_frame s.match_.playerMap
    { s with match_ := { s.match_ with stopRequested := true } }
  obtain ⟨hcheck, more, hmore, hq'⟩ := checkStopRequested_frame (s.match_.playerMap.foldl disconnect
    { s with match_ := { s.match_ with stopRequested := true } })
  refine ⟨Frame.trans ?_ (hframe.trans hcheck), more, hmore, ?_⟩
  · constructor <;> intros <;> first | rfl | assumption
  · exact hq'.trans (by rw [hq])

/-- What is registered after a deregistration was so before. -/
theorem mapped_of_deregister {s : Server} {n m : ContentsNum} {contents : Contents}
    (h : (s.deregisterContents n).contentsMap m = some contents) :
    s.contentsMap m = some contents := by
  simp only [deregisterContents] at h
  split at h
  · cases h
  · exact h

/-! ## Requests of a fight -/

/-- A session map that differs from another in disconnect flags that were set. -/
def Lowered (sessions sessions' : SessionID → Option Session) : Prop :=
  ∀ id, sessions' id = sessions id ∨
    ∃ session, sessions id = some session ∧ sessions' id = some { session with dFlag := true }

theorem Lowered.refl (sessions : SessionID → Option Session) : Lowered sessions sessions :=
  fun _ => Or.inl rfl

theorem Lowered.trans {a b c : SessionID → Option Session} (h : Lowered a b) (h' : Lowered b c) :
    Lowered a c := by
  intro id
  rcases h id with hab | ⟨x, ha, hb⟩ <;> rcases h' id with hbc | ⟨y, hb', hc⟩
  · exact Or.inl (hbc.trans hab)
  · exact Or.inr ⟨y, hab ▸ hb', hc⟩
  · exact Or.inr ⟨x, ha, hbc.trans hb⟩
  · rw [hb, Option.some.injEq] at hb'
    exact Or.inr ⟨x, ha, by rw [hc, ← hb']⟩

theorem disconnect_lowered (s : Server) (id : SessionID) :
    Lowered s.sessions (s.disconnect id).sessions := by
  intro id'
  simp only [disconnect, modifySession]
  split
  · cases h : s.sessions id' with
    | none => exact Or.inl rfl
    | some session =>
        simp only [Option.map_some]
        split
        · exact Or.inr ⟨session, rfl, rfl⟩
        · exact Or.inl rfl
  · exact Or.inl rfl

theorem disconnect_cut (s : Server) (id : SessionID) : Cut (s.disconnect id).sessions id := by
  intro session h hlive
  simp only [disconnect, modifySession, if_true, Option.map_eq_some_iff] at h
  obtain ⟨old, _, rfl⟩ := h
  split at hlive
  · rename_i hold
    simp [hold]
  · rename_i hold
    exact absurd hlive hold

theorem Cut.lowered {sessions sessions' : SessionID → Option Session} {id : SessionID}
    (h : Cut sessions id) (hl : Lowered sessions sessions') : Cut sessions' id := by
  intro session hs hlive
  rcases hl id with heq | ⟨old, _, hnew⟩
  · exact h session (heq ▸ hs) hlive
  · rw [hnew, Option.some.injEq] at hs
    rw [← hs]

/-- The results among the requests. -/
def savedOf (handle : FightHandle) (effects : List Effect) : List (FightHandle × BattleResult) :=
  effects.filterMap fun
    | .requestSave result => some (handle, result)
    | _ => none

/-- The FIGHTFREE requests among the requests. -/
def freesOf (handle : FightHandle) (effects : List Effect) : List FightHandle :=
  effects.filterMap fun
    | .fightFree => some handle
    | _ => none

/-- **Everything the requests of a fight do to the server.** -/
structure Requested (handle : FightHandle) (effects : List Effect) (s s' : Server) : Prop where
  lowered : Lowered s.sessions s'.sessions
  cut : ∀ id, .disconnect id ∈ effects → Cut s'.sessions id
  dbQ : s'.dbQ = s.dbQ ++ savedOf handle effects
  frees : s'.frees = s.frees ++ freesOf handle effects
  ctrlQ : s'.ctrlQ = s.ctrlQ ++ (freesOf handle effects).map .fightFree
  rest : ∃ sessions dbQ frees ctrlQ, s' =
    { s with sessions := sessions, dbQ := dbQ, frees := frees, ctrlQ := ctrlQ }

theorem applyEffect_requested (handle : FightHandle) (s : Server) (effect : Effect) :
    Requested handle [effect] s (s.applyEffect handle effect) := by
  cases effect with
  | send sessions message =>
      refine ⟨Lowered.refl _, by simp, ?_, ?_, ?_, ⟨s.sessions, s.dbQ, s.frees, s.ctrlQ, rfl⟩⟩ <;>
        simp [applyEffect, savedOf, freesOf]
  | disconnect id =>
      refine ⟨s.disconnect_lowered id, ?_, ?_, ?_, ?_, ⟨_, s.dbQ, s.frees, s.ctrlQ, rfl⟩⟩
      · intro id' hid
        rw [List.mem_singleton, Effect.disconnect.injEq] at hid
        subst hid
        exact s.disconnect_cut id'
      all_goals simp [applyEffect, savedOf, freesOf, disconnect, modifySession]
  | requestSave result =>
      refine ⟨Lowered.refl _, by simp, ?_, ?_, ?_, ⟨s.sessions, _, s.frees, s.ctrlQ, rfl⟩⟩ <;>
        simp [applyEffect, savedOf, freesOf]
  | fightFree =>
      refine ⟨Lowered.refl _, by simp, ?_, ?_, ?_, ⟨s.sessions, s.dbQ, _, _, rfl⟩⟩ <;>
        simp [applyEffect, savedOf, freesOf, enqueueControl]

theorem Requested.trans {handle : FightHandle} {xs ys : List Effect} {a b c : Server}
    (h : Requested handle xs a b) (h' : Requested handle ys b c) :
    Requested handle (xs ++ ys) a c where
  lowered := h.lowered.trans h'.lowered
  cut := by
    intro id hid
    rcases List.mem_append.mp hid with hid | hid
    · exact (h.cut id hid).lowered h'.lowered
    · exact h'.cut id hid
  dbQ := by
    rw [h'.dbQ, h.dbQ]
    simp [savedOf]
  frees := by
    rw [h'.frees, h.frees]
    simp [freesOf]
  ctrlQ := by
    rw [h'.ctrlQ, h.ctrlQ]
    simp [freesOf]
  rest := by
    obtain ⟨_, _, _, _, hb⟩ := h.rest
    obtain ⟨_, _, _, _, hc⟩ := h'.rest
    subst hb
    exact ⟨_, _, _, _, hc⟩

theorem foldl_requested (handle : FightHandle) (effects : List Effect) (s : Server) :
    Requested handle effects s (effects.foldl (applyEffect handle) s) := by
  induction effects generalizing s with
  | nil =>
      exact ⟨Lowered.refl _, by simp, by simp [savedOf], by simp [freesOf], by simp [freesOf],
        ⟨s.sessions, s.dbQ, s.frees, s.ctrlQ, rfl⟩⟩
  | cons effect effects ih =>
      exact (applyEffect_requested handle s effect).trans (ih _)

theorem savedOf_quiet (handle : FightHandle) {effects : List Effect} (h : QuietEffects effects) :
    savedOf handle effects = [] := by
  rw [savedOf, List.filterMap_eq_nil_iff]
  intro effect hmem
  have hq := h effect hmem
  cases effect <;> simp_all [Effect.isFinish]

theorem freesOf_quiet (handle : FightHandle) {effects : List Effect} (h : QuietEffects effects) :
    freesOf handle effects = [] := by
  rw [freesOf, List.filterMap_eq_nil_iff]
  intro effect hmem
  have hq := h effect hmem
  cases effect <;> simp_all [Effect.isFinish]

theorem quiet_disconnects (f : FightContents) : QuietEffects f.disconnectRemainingPlayers := by
  intro effect hmem
  obtain ⟨entry, _, rfl⟩ := List.mem_map.mp hmem
  rfl

/-- `FinishFightAndRelease` saves one result and enqueues one FIGHTFREE. -/
theorem finish_requests (handle : FightHandle) (f : FightContents) {pre : List Effect}
    (hpre : QuietEffects pre) :
    savedOf handle (pre ++ f.finishFightAndRelease.2) = [(handle, f.buildBattleResult)] ∧
      freesOf handle (pre ++ f.finishFightAndRelease.2) = [handle] := by
  have hq := (hpre.append (quiet_disconnects f))
  have hs := savedOf_quiet handle hq
  have hf := freesOf_quiet handle hq
  unfold savedOf freesOf at *
  simp only [FightContents.finishFightAndRelease, ← List.append_assoc]
  refine ⟨?_, ?_⟩
  · rw [List.filterMap_append]
    exact (congrArg (· ++ _) hs).trans rfl
  · rw [List.filterMap_append]
    exact (congrArg (· ++ _) hf).trans rfl

/-- A handler of a fight, as the server sees it: its requests are those of a finish
exactly if it ends the fight. -/
theorem fightEvent_requests (handle : FightHandle) (f : FightContents) (event : FightEvent) :
    (f.Ends event ∧
      savedOf handle (fightStep f event).2 =
        [(handle, (f.counted event).checkGameEnd.1.buildBattleResult)] ∧
      freesOf handle (fightStep f event).2 = [handle]) ∨
    (¬ f.Ends event ∧ savedOf handle (fightStep f event).2 = [] ∧
      freesOf handle (fightStep f event).2 = []) := by
  rcases f.fightStep_cases event with ⟨hends, pre, hpre, hout⟩ | ⟨hnot, hquiet⟩
  · rw [hout]
    exact Or.inl ⟨hends, finish_requests handle _ hpre⟩
  · exact Or.inr ⟨hnot, savedOf_quiet _ hquiet.effects, freesOf_quiet _ hquiet.effects⟩

/-- The server after a handler of a fight. -/
theorem fightEvent_spec (s : Server) (handle : FightHandle) (event : FightEvent) :
    Requested handle (fightStep (s.fights handle) event).2
      { s with fights := fun handle' =>
          if handle' = handle then (fightStep (s.fights handle) event).1 else s.fights handle' }
      (s.fightEvent handle event) :=
  foldl_requested handle _ _

/-- What a handler of a fight leaves alone. -/
theorem fightEvent_rest (s : Server) (handle : FightHandle) (event : FightEvent) :
    (s.fightEvent handle event).accepting = s.accepting ∧
      (s.fightEvent handle event).acceptStopped = s.acceptStopped ∧
      (s.fightEvent handle event).playerMap = s.playerMap ∧
      (s.fightEvent handle event).match_ = s.match_ ∧
      (s.fightEvent handle event).contentsMap = s.contentsMap ∧
      (s.fightEvent handle event).created = s.created ∧
      (s.fightEvent handle event).posting = s.posting ∧
      (s.fightEvent handle event).nextContentsNum = s.nextContentsNum ∧
      (s.fightEvent handle event).queue = s.queue ∧
      (s.fightEvent handle event).entering = s.entering ∧
      (s.fightEvent handle event).inits = s.inits ∧
      (s.fightEvent handle event).fights = fun handle' =>
        if handle' = handle then (fightStep (s.fights handle) event).1 else s.fights handle' := by
  obtain ⟨_, _, _, _, h⟩ := (s.fightEvent_spec handle event).rest
  rw [h]
  exact ⟨rfl, rfl, rfl, rfl, rfl, rfl, rfl, rfl, rfl, rfl, rfl, rfl⟩

/-- An enter event of a fight is handled behind the move of the session, if there is one. -/
theorem fightEnter_moved (s : Server) (handle : FightHandle) (id : SessionID) :
    ∃ moved found answer, Frame s moved ∧ moved.match_ = s.match_ ∧ moved.ctrlQ = s.ctrlQ ∧
      s.fightEnter handle id = moved.fightEvent handle (.enter id found answer) := by
  unfold fightEnter
  split
  · exact ⟨s, none, false, Frame.refl s, rfl, rfl, rfl⟩
  · rename_i player _
    refine ⟨_, some player, _, s.tryMove_frame id _, ?_, s.tryMove_ctrlQ id _, rfl⟩
    unfold tryMoveSessionToContents
    split <;> rfl

theorem Lowered.phaseOf {sessions sessions' : SessionID → Option Session}
    (h : Lowered sessions sessions') (id : SessionID) :
    (sessions' id).map Session.phase = (sessions id).map Session.phase := by
  rcases h id with heq | ⟨session, hs, hs'⟩
  · rw [heq]
  · rw [hs, hs']
    rfl

end Server

/-! ## What a step can do -/

/-- The event of a step that runs a handler of a fight outside enter and leave. -/
def Step.event? : Step → Option (FightHandle × FightEvent)
  | .update handle now => some (handle, .update now)
  | .message handle id msg now => some (handle, .message id msg now)
  | .rehash handle order => some (handle, .rehash order)
  | _ => none

open Server in
/-- **Everything a step of the server can do**, with what enables it. -/
inductive Stepped (s : Server) : Step → Server → Prop where
  | accept (id : SessionID) (hrun : s.acceptStopped = false) (hidle : s.accepting = none)
      (hnew : s.sessions id = none) :
      Stepped s (.accept id) { s with
        accepting := some id
        sessions := fun id' =>
          if id' = id then some ⟨.accepting, false, MATCH⟩ else s.sessions id' }
  | onAccept (pooled : Player) (id : SessionID) (hacc : s.accepting = some id)
      (hnew : s.playerMap id = none) :
      Stepped s (.onAccept pooled) { s with
        playerMap := fun id' =>
          if id' = id then some { pooled with sessionID := id } else s.playerMap id' }
  | acceptEnter (id : SessionID) (entered : Server) (hacc : s.accepting = some id)
      (hknown : (s.playerMap id).isSome)
      (hentered : (∃ contents, s.contentsMap MATCH = some contents ∧
        entered = s.contentsEnter id contents) ∨ (s.contentsMap MATCH = none ∧ entered = s)) :
      Stepped s .acceptEnter { entered.setPhase id .live with accepting := none }
  | disconnect (id : SessionID) : Stepped s (.disconnect id) (s.disconnect id)
  | release (id : SessionID) (hphase : s.phaseOf id = some .live) :
      Stepped s (.release id) (s.setPhase id .releasing)
  | releaseFetch (id : SessionID) (hphase : s.phaseOf id = some .releasing) :
      Stepped s (.releaseFetch id) (s.setPhase id (.leaving (s.leaveTarget id)))
  | releaseLeave (id : SessionID) (contents : Contents)
      (hphase : s.phaseOf id = some (.leaving (some contents))) :
      Stepped s (.releaseLeave id) ((s.contentsLeave id contents).setPhase id .left)
  | releaseNone (id : SessionID) (hphase : s.phaseOf id = some (.leaving none)) :
      Stepped s (.releaseLeave id) (s.setPhase id .left)
  | onRelease (id : SessionID) (hphase : s.phaseOf id = some .left) :
      Stepped s (.onRelease id) { s.setPhase id .released with
        playerMap := fun id' => if id' = id then none else s.playerMap id' }
  | fetchEnter (id : SessionID) (n : ContentsNum) (contents : Contents)
      (hmem : (id, n) ∈ s.queue) (hmap : s.contentsMap n = some contents) :
      Stepped s (.fetchEnter id n) { s with
        queue := s.queue.erase (id, n)
        entering := (id, contents) :: s.entering }
  | dropEnter (id : SessionID) (n : ContentsNum) (hmem : (id, n) ∈ s.queue)
      (hmap : s.contentsMap n = none) :
      Stepped s (.fetchEnter id n) { s with queue := s.queue.erase (id, n) }
  | runEnter (id : SessionID) (contents : Contents) (hmem : (id, contents) ∈ s.entering) :
      Stepped s (.runEnter id contents)
        ({ s with entering := s.entering.erase (id, contents) }.contentsEnter id contents)
  | event (step : Step) (handle : FightHandle) (event : FightEvent)
      (hstep : step.event? = some (handle, event)) (hhandle : handle < s.created) :
      Stepped s step (s.fightEvent handle event)
  | rehashMatch (order : List SessionID) (place : Nat) (hperm : order.Perm s.match_.playerMap) :
      Stepped s (.rehashMatch order place)
        { s with match_ := { s.match_ with playerMap := order, place := place } }
  | fightAlloc (pooled : FightContents) (matchID : Int) (group : Group) (rest : List Control)
      (hidle : s.posting = none) (hq : s.ctrlQ = .fightAlloc group :: rest) :
      Stepped s (.control pooled matchID)
        ({ s with ctrlQ := rest }.handleFightAlloc group pooled matchID)
  | fightFree (pooled : FightContents) (matchID : Int) (handle : FightHandle)
      (rest : List Control) (hidle : s.posting = none) (hq : s.ctrlQ = .fightFree handle :: rest) :
      Stepped s (.control pooled matchID) ({ s with ctrlQ := rest }.handleFightFree handle)
  | matchDeregister (pooled : FightContents) (matchID : Int) (rest : List Control)
      (hidle : s.posting = none) (hq : s.ctrlQ = .matchDeregister :: rest) :
      Stepped s (.control pooled matchID) { s with ctrlQ := rest }.handleMatchDeregister
  | post (n : ContentsNum) (id : SessionID) (rest : List SessionID)
      (hposting : s.posting = some (n, id :: rest)) :
      Stepped s .post { s with queue := s.queue ++ [(id, n)], posting := some (n, rest) }
  | postDone (n : ContentsNum) (hposting : s.posting = some (n, [])) :
      Stepped s .post { s with
        posting := none
        nextContentsNum := advanceContentsNum s.nextContentsNum }
  | stopAccept (hidle : s.accepting = none) : Stepped s .stopAccept { s with acceptStopped := true }
  | shutDown (hstop : s.acceptStopped = true) : Stepped s .shutDown s.matchShutDown
  | shutDownLate (hmap : s.contentsMap MATCH = none) : Stepped s .shutDown s

namespace Server

theorem phaseOf_of_inPhase {s : Server} {id : SessionID} {phase : Phase}
    (h : s.inPhase id phase = true) : s.phaseOf id = some phase := by
  unfold inPhase at h
  unfold phaseOf
  split at h
  · rename_i heq
    rw [heq]
    simpa using h
  · simp at h

theorem phaseOf_of_leavingTo {s : Server} {id : SessionID} {target : Option Contents}
    (h : s.leavingTo id = some target) : s.phaseOf id = some (.leaving target) := by
  unfold leavingTo at h
  unfold phaseOf
  split at h
  · rename_i heq
    rw [heq]
    simpa using h
  · simp at h

end Server

open Server in
theorem systemStep_stepped {s s' : Server} {step : Step} (h : systemStep s step = some s') :
    Stepped s step s' := by
  cases step with
  | accept id =>
      simp only [systemStep] at h
      split at h
      · rename_i hc
        simp only [Bool.and_eq_true, Bool.not_eq_true', Option.isNone_iff_eq_none] at hc
        cases h
        exact .accept id hc.1.1 hc.1.2 hc.2
      · simp at h
  | onAccept pooled =>
      simp only [systemStep] at h
      split at h
      · rename_i id hacc
        split at h
        · rename_i hnew
          cases h
          exact .onAccept pooled id hacc (Option.isNone_iff_eq_none.mp hnew)
        · simp at h
      · simp at h
  | acceptEnter =>
      simp only [systemStep] at h
      split at h
      · rename_i id hacc
        split at h
        · rename_i hknown
          cases h
          refine .acceptEnter id _ hacc hknown ?_
          cases hmap : s.contentsMap MATCH with
          | none => exact Or.inr ⟨rfl, rfl⟩
          | some contents => exact Or.inl ⟨contents, rfl, rfl⟩
        · simp at h
      · simp at h
  | disconnect id => cases h; exact .disconnect id
  | release id =>
      simp only [systemStep] at h
      split at h
      · rename_i hphase
        cases h
        exact .release id (phaseOf_of_inPhase hphase)
      · simp at h
  | releaseFetch id =>
      simp only [systemStep] at h
      split at h
      · rename_i hphase
        cases h
        exact .releaseFetch id (phaseOf_of_inPhase hphase)
      · simp at h
  | releaseLeave id =>
      simp only [systemStep] at h
      split at h
      · rename_i contents hl
        cases h
        exact .releaseLeave id contents (phaseOf_of_leavingTo hl)
      · rename_i hl
        cases h
        exact .releaseNone id (phaseOf_of_leavingTo hl)
      · simp at h
  | onRelease id =>
      simp only [systemStep] at h
      split at h
      · rename_i hphase
        cases h
        exact .onRelease id (phaseOf_of_inPhase hphase)
      · simp at h
  | fetchEnter id n =>
      simp only [systemStep] at h
      split at h
      · rename_i hmem
        split at h
        · rename_i contents hmap
          cases h
          exact .fetchEnter id n contents hmem hmap
        · rename_i hmap
          cases h
          exact .dropEnter id n hmem hmap
      · simp at h
  | runEnter id contents =>
      simp only [systemStep] at h
      split at h
      · rename_i hmem
        cases h
        exact .runEnter id contents hmem
      · simp at h
  | update handle now =>
      simp only [systemStep] at h
      split at h
      · rename_i hh
        cases h
        exact .event _ handle _ rfl hh
      · simp at h
  | message handle id message now =>
      simp only [systemStep] at h
      split at h
      · rename_i hh
        cases h
        exact .event _ handle _ rfl hh
      · simp at h
  | rehash handle order =>
      simp only [systemStep] at h
      split at h
      · rename_i hh
        cases h
        exact .event _ handle _ rfl hh
      · simp at h
  | rehashMatch order place =>
      simp only [systemStep] at h
      split at h
      · rename_i hperm
        cases h
        exact .rehashMatch order place (List.isPerm_iff.mp hperm)
      · simp at h
  | control pooled matchID =>
      simp only [systemStep] at h
      split at h
      · rename_i group rest hidle hq
        cases h
        exact .fightAlloc pooled matchID group rest hidle hq
      · rename_i handle rest hidle hq
        cases h
        exact .fightFree pooled matchID handle rest hidle hq
      · rename_i rest hidle hq
        cases h
        exact .matchDeregister pooled matchID rest hidle hq
      · simp at h
  | post =>
      simp only [systemStep] at h
      split at h
      · rename_i n id rest hp
        cases h
        exact .post n id rest hp
      · rename_i n hp
        cases h
        exact .postDone n hp
      · simp at h
  | stopAccept =>
      simp only [systemStep] at h
      split at h
      · rename_i hidle
        cases h
        exact .stopAccept (Option.isNone_iff_eq_none.mp hidle)
      · simp at h
  | shutDown =>
      simp only [systemStep] at h
      split at h
      · rename_i hstop
        split at h
        · cases h
          exact .shutDown hstop
        · rename_i hmap
          cases h
          exact .shutDownLate hmap
      · simp at h

end SessionServer.Battle
