/-
  Battle/HomeRun.lean --- no session is orphaned.

  The homes of the live sessions, kept along every run that shares no number and ends
  no fight early, and a run that ends a fight early and orphans a session.
-/
import SessionServer.Battle.HomeClear

set_option autoImplicit false

namespace SessionServer.Battle

open SessionServer.Foundation

namespace Server

/-! ## The homes -/

/-- The session is live and not disconnected. -/
def Free (s : Server) (id : SessionID) (session : Session) : Prop :=
  s.sessions id = some session ∧ session.IsLive ∧ session.dFlag = false

/-- Every live session that is not disconnected is in a contents or on its way to one;
those in `accepting` may still have the number of the match only. -/
def Homed (s : Server) (accepting : List SessionID) : Prop :=
  ∀ id session, s.Free id session →
    s.InContents id session.contentsNum ∨ (session.contentsNum = CONMOV ∧ s.Moving id) ∨
      (id ∈ accepting ∧ session.contentsNum = MATCH)

/-- The session is held by a control or has an enter event. -/
def Bound (s : Server) (id : SessionID) : Prop :=
  (∃ control ∈ s.ctrlQ, control.Holds id) ∨ (∃ posting ∈ s.posting, id ∈ posting.2) ∨
    (∃ n, (id, n) ∈ s.queue) ∨ ∃ contents, (id, contents) ∈ s.entering

theorem Moving.bound {s : Server} {id : SessionID} (h : s.Moving id) : s.Bound id := by
  rcases h with h | h | ⟨event, hmem, rfl, _⟩ | ⟨event, hmem, rfl, _⟩
  · exact Or.inl h
  · exact Or.inr (Or.inl h)
  · exact Or.inr (Or.inr (Or.inl ⟨event.2, hmem⟩))
  · exact Or.inr (Or.inr (Or.inr ⟨event.2, hmem⟩))

/-- As long as the account holds, every enter event is aimed at a registered fight. -/
theorem Bound.moving {s : Server} (hcounted : Counted s) {id : SessionID} (h : s.Bound id) :
    s.Moving id := by
  rcases h with h | h | ⟨n, hmem⟩ | ⟨contents, hmem⟩
  · exact Or.inl h
  · exact Or.inr (Or.inl h)
  · obtain ⟨handle, hmap⟩ := hcounted.queued id n hmem
    exact Or.inr (Or.inr (Or.inl ⟨_, hmem, rfl, by simp [hmap]⟩))
  · obtain ⟨_, _, hreg⟩ := hcounted.entering id contents hmem
    exact Or.inr (Or.inr (Or.inr ⟨_, hmem, rfl, hreg⟩))

/-- A step that moves no session keeps the homes it does not take away. -/
theorem Homed.mono {s s' : Server} {accepting accepting' : List SessionID} (h : Homed s accepting)
    (hcounted : Counted s')
    (hback : ∀ id session, s'.Free id session →
      ∃ old, s.Free id old ∧ old.contentsNum = session.contentsNum)
    (hin : ∀ id session n, s'.Free id session → s.InContents id n → s'.InContents id n)
    (hbound : ∀ id, s.Bound id → s'.Bound id)
    (hacc : ∀ id ∈ accepting, id ∈ accepting') : Homed s' accepting' := by
  intro id session hfree
  obtain ⟨old, hold, hnum⟩ := hback id session hfree
  rw [← hnum]
  rcases h id old hold with hh | ⟨hc, hm⟩ | ⟨hmem, hc⟩
  · exact Or.inl (hin id session _ hfree hh)
  · exact Or.inr (Or.inl ⟨hc, (hbound id hm.bound).moving hcounted⟩)
  · exact Or.inr (Or.inr ⟨hacc id hmem, hc⟩)

theorem Free.of_lowered {s s' : Server} (h : Lowered s.sessions s'.sessions) {id : SessionID}
    {session : Session} (hfree : s'.Free id session) : s.Free id session := by
  obtain ⟨hs, hlive, hflag⟩ := hfree
  rcases h id with heq | ⟨old, _, hnew⟩
  · exact ⟨heq ▸ hs, hlive, hflag⟩
  · rw [hnew, Option.some.injEq] at hs
    rw [← hs] at hflag
    simp at hflag

/-- A change of phase out of the live ones. -/
theorem Free.of_setPhase {s : Server} {id : SessionID} {phase : Phase}
    (hphase : phase ≠ .live ∧ phase ≠ .accepting) {id' : SessionID} {session : Session}
    (hfree : (s.setPhase id phase).Free id' session) : id' ≠ id ∧ s.Free id' session := by
  obtain ⟨hs, hlive, hflag⟩ := hfree
  simp only [Server.setPhase, modifySession] at hs
  split at hs
  · obtain ⟨old, _, rfl⟩ := Option.map_eq_some_iff.mp hs
    rcases hlive with hl | hl
    · exact absurd hl hphase.2
    · exact absurd hl hphase.1
  · rename_i hne
    exact ⟨hne, hs, hlive, hflag⟩

theorem Free.phaseOf {s : Server} {id : SessionID} {session : Session} (h : s.Free id session) :
    s.phaseOf id = some .accepting ∨ s.phaseOf id = some .live := by
  simp only [Server.phaseOf, h.1, Option.map_some, Option.some.injEq]
  exact h.2.1

theorem Free.not_cut {s : Server} {id : SessionID} {session : Session} (h : s.Free id session) :
    ¬ Cut s.sessions id := by
  intro hcut
  have := hcut session h.1 h.2.1
  simp [h.2.2] at this

theorem Homed.setPhase {s : Server} {accepting : List SessionID} (h : Homed s accepting)
    (hcounted : Counted s) (id : SessionID) (phase : Phase)
    (hphase : phase ≠ .live ∧ phase ≠ .accepting) : Homed (s.setPhase id phase) accepting :=
  h.mono (hcounted.of_same rfl rfl rfl rfl rfl rfl)
    (fun _ session hfree => ⟨session, (Free.of_setPhase hphase hfree).2, rfl⟩)
    (fun _ _ _ _ hin => hin) (fun _ hb => hb) (fun _ hm => hm)

theorem Bound.frame {s s' : Server} {id : SessionID} (h : s.Bound id) (hframe : Frame s s')
    (hq : s'.ctrlQ = s.ctrlQ) : s'.Bound id := by
  rw [Bound, hq, hframe.posting, hframe.queue, hframe.entering]
  exact h

/-- An event of a fight takes away no control and no enter event. -/
theorem Bound.fightEvent {s : Server} {id : SessionID} (h : s.Bound id) (handle : FightHandle)
    (event : FightEvent) : (s.fightEvent handle event).Bound id := by
  obtain ⟨-, -, -, -, -, -, hposting, -, hqueue, hentering, -, -⟩ := s.fightEvent_rest handle event
  rcases h with ⟨control, hc, hholds⟩ | hb | hb | hb
  · refine Or.inl ⟨control, ?_, hholds⟩
    rw [(s.fightEvent_spec handle event).ctrlQ]
    exact List.mem_append_left _ hc
  · exact Or.inr (Or.inl (by rw [hposting]; exact hb))
  · exact Or.inr (Or.inr (Or.inl (by rw [hqueue]; exact hb)))
  · exact Or.inr (Or.inr (Or.inr (by rw [hentering]; exact hb)))

/-- An event that does not erase the session from its fight leaves it where it is. -/
theorem InContents.fightEvent {s : Server} {id : SessionID} {n : ContentsNum}
    (h : s.InContents id n) {handle : FightHandle} {event : FightEvent}
    (hkeys : id ∈ (s.fights handle).playerMap.keys →
      id ∈ ((s.fights handle).counted event).playerMap.keys) :
    (s.fightEvent handle event).InContents id n := by
  obtain ⟨-, -, -, hmatch, hmap, -, -, -, -, -, -, hfights⟩ := s.fightEvent_rest handle event
  obtain ⟨contents, hc, hid⟩ := h
  refine ⟨contents, by rw [hmap]; exact hc, ?_⟩
  cases contents with
  | match_ => simpa only [players, hmatch] using hid
  | fight k =>
      simp only [players, hfights] at hid ⊢
      split
      · rename_i heq
        rw [((s.fights handle).fightStep_kept event).keys.mem_iff]
        exact hkeys (heq ▸ hid)
      · exact hid

/-- An event of a fight, given that it erases nobody who is free. -/
theorem Homed.fightEvent {s : Server} {accepting : List SessionID} (h : Homed s accepting)
    {handle : FightHandle} {event : FightEvent} (hcounted : Counted (s.fightEvent handle event))
    (hkeys : ∀ id session, s.Free id session → id ∈ (s.fights handle).playerMap.keys →
      id ∈ ((s.fights handle).counted event).playerMap.keys) :
    Homed (s.fightEvent handle event) accepting := by
  have hlowered := (s.fightEvent_spec handle event).lowered
  refine h.mono hcounted (fun id session hfree => ⟨session, hfree.of_lowered hlowered, rfl⟩)
    ?_ (fun _ hb => hb.fightEvent handle event) (fun _ hm => hm)
  exact fun id session n hfree hin =>
    hin.fightEvent (hkeys id session (hfree.of_lowered (s := s) hlowered))

/-- The handler of an enter event, on `s'`, where the event has been taken off and the session
may have been moved already. -/
theorem Homed.enterEvent {s s' : Server} {accepting : List SessionID} (h : Homed s accepting)
    {id : SessionID} {handle : FightHandle} {event : FightEvent}
    (hmap : s'.contentsMap = s.contentsMap) (hfights : s'.fights = s.fights)
    (hmatch : s'.match_ = s.match_) (hother : ∀ id', id' ≠ id → s'.sessions id' = s.sessions id')
    (hbound : ∀ id', id' ≠ id → s.Bound id' → s'.Bound id')
    (hreg : s.Registered (.fight handle)) (hcounted : Counted (s'.fightEvent handle event))
    (hkeys : ∀ id' ∈ (s.fights handle).playerMap.keys,
      id' ∈ ((s.fights handle).counted event).playerMap.keys)
    (hself : ∀ session, s'.Free id session →
      session.contentsNum = (s.fights handle).contentsNum ∧
        id ∈ ((s.fights handle).counted event).playerMap.keys) :
    Homed (s'.fightEvent handle event) accepting := by
  intro id' session hfree
  have hfree' : s'.Free id' session :=
    hfree.of_lowered (s := s') (s'.fightEvent_spec handle event).lowered
  by_cases heq : id' = id
  · subst heq
    obtain ⟨hnum, hin⟩ := hself session hfree'
    obtain ⟨-, -, -, -, hmap', -, -, -, -, -, -, hfights'⟩ := s'.fightEvent_rest handle event
    refine Or.inl ⟨.fight handle, ?_, ?_⟩
    · rw [hmap', hmap, hnum]
      exact hreg
    · simp only [players, hfights', if_true]
      rw [((s'.fights handle).fightStep_kept event).keys.mem_iff, hfights]
      exact hin
  · have hold : s.Free id' session := ⟨hother id' heq ▸ hfree'.1, hfree'.2⟩
    rcases h id' session hold with ⟨contents, hc, hid⟩ | ⟨hc, hm⟩ | hacc
    · have hin : s'.InContents id' session.contentsNum := by
        refine ⟨contents, by rw [hmap]; exact hc, ?_⟩
        cases contents with
        | match_ => simpa only [players, hmatch] using hid
        | fight k => simpa only [players, hfights] using hid
      refine Or.inl (hin.fightEvent fun hmem => ?_)
      rw [hfights] at hmem ⊢
      exact hkeys id' hmem
    · have hkept := (hbound id' heq hm.bound).fightEvent handle event
      exact Or.inr (Or.inl ⟨hc, hkept.moving hcounted⟩)
    · exact Or.inr (Or.inr hacc)

/-- The session of an enter event moves into the fight; nobody else moves. -/
theorem Homed.runEnter {s : Server} {accepting : List SessionID} (h : Homed s accepting)
    (hcounted : Counted s) (hbook : Book s) (hdoors : Doors s) {id : SessionID}
    {handle : FightHandle} (hmem : (id, .fight handle) ∈ s.entering) :
    Homed ({ s with entering := s.entering.erase (id, .fight handle) }.fightEnter handle id)
      accepting := by
  have hcounted' := hcounted.runEnter hmem
  have hreg := (hcounted.entering_running hbook hmem).1
  have hpast := hdoors.past id (Or.inr (Or.inr (Or.inr (Or.inr ⟨_, hmem⟩))))
  -- Everybody else keeps the enter events it has.
  have hbound : ∀ id', id' ≠ id → s.Bound id' →
      Bound { s with entering := s.entering.erase (id, .fight handle) } id' := by
    rintro id' hne (hb | hb | hb | ⟨contents, hb⟩)
    · exact Or.inl hb
    · exact Or.inr (Or.inl hb)
    · exact Or.inr (Or.inr (Or.inl hb))
    · refine Or.inr (Or.inr (Or.inr ⟨contents, ?_⟩))
      rwa [List.mem_erase_of_ne]
      intro heq
      exact hne (Prod.mk.inj heq).1
  generalize hs₁ : { s with entering := s.entering.erase (id, .fight handle) } = s₁ at *
  have hsessions : s₁.sessions = s.sessions := by rw [← hs₁]
  have hplayers : s₁.playerMap = s.playerMap := by rw [← hs₁]
  have hmatch : s₁.match_ = s.match_ := by rw [← hs₁]
  have hmap : s₁.contentsMap = s.contentsMap := by rw [← hs₁]
  have hfights : s₁.fights = s.fights := by rw [← hs₁]
  unfold Server.fightEnter at hcounted' ⊢
  split at hcounted'
  · rename_i hnone
    refine h.enterEvent hmap hfights hmatch (fun _ _ => by rw [hsessions]) hbound hreg hcounted'
      (fun _ hid => hid) ?_
    -- A session past its accept that the server does not know is not live.
    intro session hfree
    have hfree : s.Free id session := ⟨hsessions ▸ hfree.1, hfree.2⟩
    rcases hfree.phaseOf with hp | hp
    · exact absurd hp hpast.2
    · have hk := hdoors.known id hp
      rw [← hplayers, hnone] at hk
      simp at hk
  · have hmove := s₁.tryMove_frame id (s₁.fights handle).contentsNum
    refine h.enterEvent (hmove.contentsMap.trans hmap) (hmove.fights.trans hfights)
      ((s₁.tryMove_match id _).trans hmatch) ?_
      (fun id' hne hb => (hbound id' hne hb).frame hmove (s₁.tryMove_ctrlQ id _)) hreg hcounted'
      ?_ ?_
    · intro id' hne
      rw [← hsessions]
      unfold tryMoveSessionToContents
      split
      · simp only [modifySession, if_neg hne]
      · rfl
    · intro id' hid
      simp only [FightContents.counted, FightContents.countEnter]
      split
      · rw [FightContents.enterPlayer_eq]
        exact PlayerMap.mem_keys_insert.mpr (Or.inr hid)
      · exact hid
    · intro session hfree
      by_cases hmovable : s₁.movable id = true
      · simp only [tryMoveSessionToContents, hmovable, if_true] at hfree ⊢
        obtain ⟨hs, _⟩ := hfree
        simp only [modifySession, if_true] at hs
        obtain ⟨old, _, rfl⟩ := Option.map_eq_some_iff.mp hs
        refine ⟨by rw [hfights], ?_⟩
        simp only [FightContents.counted, FightContents.countEnter, if_true]
        rw [FightContents.enterPlayer_eq]
        exact PlayerMap.mem_keys_insert.mpr (Or.inl rfl)
      · simp only [tryMoveSessionToContents, hmovable] at hfree
        obtain ⟨hs, hlive, hflag⟩ := hfree
        refine absurd ?_ hmovable
        simp [movable, show s₁.sessions id = some session from hs, hlive, hflag]

/-- The accepted session waits in the match, or is grouped at once with five others. -/
theorem Homed.acceptEnter {s : Server} {id : SessionID} (h : Homed s [id]) (hcounted : Counted s)
    (hdoors : Doors s) (hacc : s.accepting = some id) (hknown : (s.playerMap id).isSome) :
    Homed { (s.matchEnter id).setPhase id .live with accepting := none } [] := by
  obtain ⟨hrun, hmap⟩ := hdoors.running hacc
  have hframe := (s.matchEnter_frame id).frame
  have hcounted' : Counted { (s.matchEnter id).setPhase id .live with accepting := none } :=
    (hcounted.frame hframe).of_same rfl rfl rfl rfl rfl rfl
  obtain ⟨_, hcases⟩ := matchEnter_spec hrun hknown
  intro id' session hfree
  -- The session before the end of the accept, with another phase perhaps.
  have hbefore : ∃ old, (s.matchEnter id).Free id' old ∧ old.contentsNum = session.contentsNum := by
    obtain ⟨hs, hlive, hflag⟩ := hfree
    simp only [Server.setPhase, modifySession] at hs
    split at hs
    · rename_i heq
      obtain ⟨old, hold, rfl⟩ := Option.map_eq_some_iff.mp hs
      refine ⟨old, ⟨hold, Or.inl ?_, hflag⟩, rfl⟩
      have hp : (s.matchEnter id).phaseOf id' = some .accepting := by
        rw [hframe.phaseOf, heq]
        exact (hdoors.accepting id).mp hacc
      rw [Server.phaseOf, hold] at hp
      simpa using hp
    · exact ⟨session, ⟨hs, hlive, hflag⟩, rfl⟩
  obtain ⟨old, hold, hnum⟩ := hbefore
  rw [← hnum]
  have hbound : (s.matchEnter id).Bound id' →
      Moving { (s.matchEnter id).setPhase id .live with accepting := none } id' :=
    fun hb => Bound.moving hcounted' hb
  have hgrow : ∀ control ∈ s.ctrlQ, control ∈ (s.matchEnter id).ctrlQ := by
    intro control hc
    rcases hcases with ⟨_, hq, _, _⟩ | ⟨group, hq, _, _⟩ <;> rw [hq]
    · exact hc
    · exact List.mem_append_left _ hc
  have hkeep : s.Bound id' → (s.matchEnter id).Bound id' := by
    rintro (⟨control, hc, hholds⟩ | hb | hb | hb)
    · exact Or.inl ⟨control, hgrow control hc, hholds⟩
    · exact Or.inr (Or.inl (by rw [hframe.posting]; exact hb))
    · exact Or.inr (Or.inr (Or.inl (by rw [hframe.queue]; exact hb)))
    · exact Or.inr (Or.inr (Or.inr (by rw [hframe.entering]; exact hb)))
  -- Being in a fight, or in the match and not grouped.
  have hin : ∀ n, s.InContents id' n →
      (id' ∈ s.match_.playerMap → id' ∈ (s.matchEnter id).match_.playerMap) →
      (s.matchEnter id).InContents id' n := by
    rintro n ⟨contents, hc, hid⟩ hwait
    refine ⟨contents, by rw [hframe.contentsMap]; exact hc, ?_⟩
    cases contents with
    | match_ => exact hwait hid
    | fight k =>
        simp only [players, hframe.fights]
        exact hid
  rcases hcases with ⟨hsessions, _, hself, hmem⟩ | ⟨group, hq, hmoved, hmem⟩
  · have hs : s.Free id' old := ⟨hsessions ▸ hold.1, hold.2⟩
    rcases h id' old hs with hh | ⟨hc, hm⟩ | ⟨heq, hc⟩
    · exact Or.inl (hin _ hh fun hw => (hmem id').mpr (Or.inr hw))
    · exact Or.inr (Or.inl ⟨hc, hbound (hkeep hm.bound)⟩)
    · rw [List.mem_singleton] at heq
      refine Or.inl ⟨.match_, ?_, ?_⟩
      · show (s.matchEnter id).contentsMap old.contentsNum = some .match_
        rw [hframe.contentsMap, hc]
        exact hmap
      · rw [heq]
        exact hself
  · by_cases hg : id' ∈ group.sessions
    · refine Or.inr (Or.inl ⟨hmoved.out id' hg old hold.1 hold.2.1 hold.2.2, hbound (Or.inl ?_)⟩)
      exact ⟨.fightAlloc group, by rw [hq]; simp, hg⟩
    · have hs : s.Free id' old := ⟨(hmoved.same id' hg) ▸ hold.1, hold.2⟩
      have hwait : id' = id ∨ id' ∈ s.match_.playerMap →
          id' ∈ (s.matchEnter id).match_.playerMap := by
        intro hw
        rcases (hmem id').mpr hw with hw | hw
        · exact absurd hw hg
        · exact hw
      rcases h id' old hs with hh | ⟨hc, hm⟩ | ⟨heq, hc⟩
      · exact Or.inl (hin _ hh fun hw => hwait (Or.inr hw))
      · exact Or.inr (Or.inl ⟨hc, hbound (hkeep hm.bound)⟩)
      · rw [List.mem_singleton] at heq
        refine Or.inl ⟨.match_, ?_, hwait (Or.inl heq)⟩
        show (s.matchEnter id).contentsMap old.contentsNum = some .match_
        rw [hframe.contentsMap, hc]
        exact hmap

/-- A step that leaves the sessions and the contents alone. -/
theorem Homed.of_same {s s' : Server} {accepting accepting' : List SessionID}
    (h : Homed s accepting) (hcounted : Counted s') (hsessions : s'.sessions = s.sessions)
    (hmap : s'.contentsMap = s.contentsMap) (hplayers : s'.players = s.players)
    (hbound : ∀ id, s.Bound id → s'.Bound id) (hacc : ∀ id ∈ accepting, id ∈ accepting') :
    Homed s' accepting' := by
  refine h.mono hcounted (fun id session hfree => ⟨session, ?_, rfl⟩) ?_ hbound hacc
  · exact ⟨hsessions ▸ hfree.1, hfree.2⟩
  · intro id _ n _ hin
    simpa only [InContents, hmap, hplayers] using hin

theorem Homed.accept {s : Server} (h : Homed s []) {id : SessionID} :
    Homed { s with
      accepting := some id
      sessions := fun id' =>
        if id' = id then some ⟨.accepting, false, MATCH⟩ else s.sessions id' } [id] := by
  rintro id' session ⟨hs, hlive, hflag⟩
  simp only at hs
  split at hs
  · rename_i heq
    cases hs
    exact Or.inr (Or.inr ⟨List.mem_singleton.mpr heq, rfl⟩)
  · rcases h id' session ⟨hs, hlive, hflag⟩ with hh | hh | ⟨hmem, _⟩
    · exact Or.inl hh
    · exact Or.inr (Or.inl hh)
    · simp at hmem

theorem Homed.matchLeave {s : Server} {accepting : List SessionID} (h : Homed s accepting)
    {id : SessionID} (hcounted : Counted ((s.matchLeave id).setPhase id .left)) :
    Homed ((s.matchLeave id).setPhase id .left) accepting := by
  have hframe := (s.matchLeave_frame id).frame
  obtain ⟨hmatch, hsessions, _⟩ := checkStopRequested_spec
    { s with match_ := { s.match_ with playerMap := s.match_.playerMap.filter (· ≠ id) } }
  obtain ⟨more, _, hq⟩ := (s.matchLeave_frame id).ctrlQ
  refine h.mono hcounted (fun id' session hfree => ⟨session, ?_, rfl⟩) ?_ ?_ (fun _ hm => hm)
  · obtain ⟨_, hs, hrest⟩ := Free.of_setPhase ⟨by simp, by simp⟩ hfree
    exact ⟨hsessions ▸ hs, hrest⟩
  · rintro id' session n hfree ⟨contents, hc, hid⟩
    refine ⟨contents, ?_, ?_⟩
    · show contents ∈ (s.matchLeave id).contentsMap n
      rw [hframe.contentsMap]
      exact hc
    · cases contents with
      | match_ =>
          show id' ∈ (s.matchLeave id).match_.playerMap
          rw [Server.matchLeave, hmatch]
          have hne := (Free.of_setPhase ⟨by simp, by simp⟩ hfree).1
          exact List.mem_filter.mpr ⟨hid, by simpa using hne⟩
      | fight k =>
          show id' ∈ ((s.matchLeave id).fights k).playerMap.keys
          rw [hframe.fights]
          exact hid
  · rintro id' (⟨control, hc, hholds⟩ | hb | hb | hb)
    · refine Or.inl ⟨control, ?_, hholds⟩
      show control ∈ (s.matchLeave id).ctrlQ
      rw [hq]
      exact List.mem_append_left _ hc
    · exact Or.inr (Or.inl (hframe.posting ▸ hb))
    · exact Or.inr (Or.inr (Or.inl (hframe.queue ▸ hb)))
    · exact Or.inr (Or.inr (Or.inr (hframe.entering ▸ hb)))

theorem Homed.fightLeave {s : Server} {accepting : List SessionID} (h : Homed s accepting)
    {id : SessionID} {handle : FightHandle}
    (hphase : s.phaseOf id = some (.leaving (some (.fight handle))))
    (hcounted : Counted (s.fightEvent handle (.leave id))) :
    Homed ((s.fightEvent handle (.leave id)).setPhase id .left) accepting := by
  refine (h.fightEvent hcounted ?_).setPhase hcounted id _ ⟨by simp, by simp⟩
  intro id' session hfree hid
  -- Only the session that leaves is erased, and that one is not live.
  have hne : id' ≠ id := by
    rintro rfl
    rcases hfree.phaseOf with hp | hp <;> simp [hphase] at hp
  simp only [FightContents.counted]
  split
  · exact hid
  · rw [FightContents.removePlayer_fst]
    exact PlayerMap.mem_keys_erase.mpr ⟨hid, hne⟩

theorem Homed.fightAlloc {s : Server} {accepting : List SessionID} (h : Homed s accepting)
    (hbook : Book s) (hidle : s.posting = none) {group : Group} {rest : List Control}
    (hq : s.ctrlQ = .fightAlloc group :: rest) {pooled : FightContents} {matchID : Int}
    (hcounted : Counted ({ s with ctrlQ := rest }.handleFightAlloc group pooled matchID)) :
    Homed ({ s with ctrlQ := rest }.handleFightAlloc group pooled matchID) accepting := by
  rw [handleFightAlloc_eq] at hcounted ⊢
  refine h.mono hcounted (fun id session hfree => ⟨session, hfree, rfl⟩) ?_ ?_ (fun _ hm => hm)
  · rintro id session n _ ⟨contents, hc, hid⟩
    have hc : s.contentsMap n = some contents := hc
    refine ⟨contents, ?_, ?_⟩
    · show (if n = s.nextContentsNum ∧ s.contentsMap n = none then some (.fight s.created)
        else s.contentsMap n) = some contents
      rw [if_neg (by rw [hc]; simp)]
      exact hc
    · cases contents with
      | match_ => exact hid
      | fight k =>
          have hlt := hbook.mapped n k hc
          simp only [players, if_neg (Nat.ne_of_lt hlt)]
          exact hid
  · rintro id (⟨control, hc, hholds⟩ | ⟨posting, hp, _⟩ | hb | hb)
    · rw [hq] at hc
      rcases List.mem_cons.mp hc with rfl | hc
      · exact Or.inr (Or.inl ⟨_, rfl, hholds⟩)
      · exact Or.inl ⟨control, hc, hholds⟩
    · rw [hidle] at hp
      simp at hp
    · exact Or.inr (Or.inr (Or.inl hb))
    · exact Or.inr (Or.inr (Or.inr hb))

/-- A contents that holds nobody who is free is deregistered. -/
theorem Homed.deregister {s : Server} {accepting : List SessionID} (h : Homed s accepting)
    {m : ContentsNum} {control : Control} {rest : List Control} (hq : s.ctrlQ = control :: rest)
    (hholds : ∀ id, ¬ control.Holds id)
    (hempty : ∀ id session contents, s.Free id session → s.contentsMap m = some contents →
      id ∉ s.players contents)
    (hcounted : Counted ({ s with ctrlQ := rest }.deregisterContents m)) :
    Homed ({ s with ctrlQ := rest }.deregisterContents m) accepting := by
  refine h.mono hcounted (fun id session hfree => ⟨session, hfree, rfl⟩) ?_ ?_ (fun _ hm => hm)
  · rintro id session n hfree ⟨contents, hc, hid⟩
    have hc : s.contentsMap n = some contents := hc
    refine ⟨contents, ?_, hid⟩
    show (if n = m then none else s.contentsMap n) = some contents
    rw [if_neg]
    · exact hc
    · rintro rfl
      exact hempty id session contents hfree hc hid
  · rintro id (⟨c, hc, hh⟩ | hb)
    · rw [hq] at hc
      rcases List.mem_cons.mp hc with rfl | hc
      · exact absurd hh (hholds id)
      · exact Or.inl ⟨c, hc, hh⟩
    · exact Or.inr hb

theorem foldl_disconnect_lowered (ids : List SessionID) (s : Server) :
    Lowered s.sessions (ids.foldl disconnect s).sessions := by
  induction ids generalizing s with
  | nil => exact Lowered.refl _
  | cons id ids ih => exact (s.disconnect_lowered id).trans (ih (s.disconnect id))

theorem Homed.matchShutDown {s : Server} {accepting : List SessionID} (h : Homed s accepting)
    (hcounted : Counted s.matchShutDown) : Homed s.matchShutDown accepting := by
  have hframe := s.matchShutDown_frame.frame
  obtain ⟨hmatch, hsessions, _⟩ := s.matchShutDown_spec
  obtain ⟨more, _, hq⟩ := s.matchShutDown_frame.ctrlQ
  have hlowered : Lowered s.sessions s.matchShutDown.sessions := by
    rw [hsessions]
    exact foldl_disconnect_lowered s.match_.playerMap
      { s with match_ := { s.match_ with stopRequested := true } }
  refine h.mono hcounted (fun id session hfree => ⟨session, hfree.of_lowered hlowered, rfl⟩) ?_ ?_
    (fun _ hm => hm)
  · rintro id session n _ ⟨contents, hc, hid⟩
    refine ⟨contents, by rw [hframe.contentsMap]; exact hc, ?_⟩
    cases contents with
    | match_ => simpa only [players, hmatch] using hid
    | fight k => simpa only [players, hframe.fights] using hid
  · rintro id (⟨control, hc, hholds⟩ | hb | hb | hb)
    · exact Or.inl ⟨control, by rw [hq]; exact List.mem_append_left _ hc, hholds⟩
    · exact Or.inr (Or.inl (by rw [hframe.posting]; exact hb))
    · exact Or.inr (Or.inr (Or.inl (by rw [hframe.queue]; exact hb)))
    · exact Or.inr (Or.inr (Or.inr (by rw [hframe.entering]; exact hb)))

/-- **A step takes no home away**, as long as the other invariants hold. -/
theorem Homed.step {s s' : Server} {step : Step} (h : Homed s s.accepting.toList)
    (hbook : Book s) (hreg : Register s) (hcounted : Counted s) (hdoors : Doors s)
    (hcleared : Cleared s) (hcounted' : Counted s') (hstep : Stepped s step s') :
    Homed s' s'.accepting.toList := by
  cases hstep with
  | accept id hrun hidle hnew =>
      rw [hidle] at h
      exact Homed.accept h
  | onAccept pooled id hacc hnew =>
      exact h.of_same hcounted' rfl rfl rfl (fun _ hb => hb) (fun _ hm => hm)
  | acceptEnter id entered hacc hknown hentered =>
      have hmap := (hdoors.running hacc).2
      rw [hacc] at h
      rcases hentered with ⟨contents, hmap', rfl⟩ | ⟨hnone, _⟩
      · rw [hreg.match_contents hmap']
        exact Homed.acceptEnter h hcounted hdoors hacc hknown
      · rw [hmap] at hnone
        simp at hnone
  | disconnect id =>
      exact h.mono hcounted'
        (fun _ session hfree => ⟨session, hfree.of_lowered (s.disconnect_lowered id), rfl⟩)
        (fun _ _ _ _ hin => hin) (fun _ hb => hb) (fun _ hm => hm)
  | release id hphase => exact h.setPhase hcounted id _ ⟨by simp, by simp⟩
  | releaseFetch id hphase => exact h.setPhase hcounted id _ ⟨by simp, by simp⟩
  | releaseLeave id contents hphase =>
      cases contents with
      | match_ =>
          have hacc : ((s.matchLeave id).setPhase id .left).accepting = s.accepting :=
            (s.matchLeave_frame id).frame.accepting
          simp only [contentsLeave]
          rw [hacc]
          exact Homed.matchLeave h hcounted'
      | fight handle =>
          have hacc : ((s.fightEvent handle (.leave id)).setPhase id .left).accepting =
              s.accepting := (s.fightEvent_rest handle _).1
          simp only [contentsLeave]
          rw [hacc]
          exact Homed.fightLeave h hphase (hcounted'.of_same rfl rfl rfl rfl rfl rfl)
  | releaseNone id hphase => exact h.setPhase hcounted id _ ⟨by simp, by simp⟩
  | onRelease id hphase =>
      exact (h.setPhase hcounted id .released ⟨by simp, by simp⟩).of_same hcounted' rfl
        rfl rfl (fun _ hb => hb) (fun _ hm => hm)
  | fetchEnter id n contents hmem hmap =>
      refine h.of_same hcounted' rfl rfl rfl ?_ (fun _ hm => hm)
      rintro id' (hb | hb | ⟨n', hb⟩ | ⟨contents', hb⟩)
      · exact Or.inl hb
      · exact Or.inr (Or.inl hb)
      · by_cases heq : (id', n') = (id, n)
        · rw [Prod.mk.injEq] at heq
          exact Or.inr (Or.inr (Or.inr ⟨contents, by rw [heq.1]; simp⟩))
        · exact Or.inr (Or.inr (Or.inl ⟨n', (List.mem_erase_of_ne heq).mpr hb⟩))
      · exact Or.inr (Or.inr (Or.inr ⟨contents', List.mem_cons_of_mem _ hb⟩))
  | dropEnter id n hmem hmap =>
      obtain ⟨handle, hm⟩ := hcounted.queued id n hmem
      rw [hmap] at hm
      simp at hm
  | runEnter id contents hmem =>
      obtain ⟨handle, rfl, _⟩ := hcounted.entering id contents hmem
      have hacc : ({ s with entering := s.entering.erase (id, .fight handle) }.fightEnter
          handle id).accepting = s.accepting := by
        obtain ⟨moved, _, _, hmove, _, _, henter⟩ := fightEnter_moved
          { s with entering := s.entering.erase (id, .fight handle) } handle id
        rw [henter]
        exact (moved.fightEvent_rest handle _).1.trans hmove.accepting
      simp only [contentsEnter]
      rw [hacc]
      exact Homed.runEnter h hcounted hbook hdoors hmem
  | event step handle event hstep hhandle =>
      have hacc := (s.fightEvent_rest handle event).1
      rw [hacc]
      refine Homed.fightEvent h hcounted' fun id session _ hid => ?_
      rw [event_counted hstep]
      exact hid
  | rehashMatch order place hperm =>
      refine h.mono hcounted' (fun _ session hfree => ⟨session, hfree, rfl⟩) ?_ (fun _ hb => hb)
        (fun _ hm => hm)
      rintro id session n _ ⟨contents, hc, hid⟩
      refine ⟨contents, hc, ?_⟩
      cases contents with
      | match_ => exact hperm.mem_iff.mpr hid
      | fight k => exact hid
  | fightAlloc pooled matchID group rest hidle hq =>
      have hacc : ({ s with ctrlQ := rest }.handleFightAlloc group pooled matchID).accepting =
          s.accepting := by rw [handleFightAlloc_eq]
      rw [hacc]
      exact Homed.fightAlloc h hbook hidle hq hcounted'
  | fightFree pooled matchID handle rest hidle hq =>
      obtain ⟨hlt, hend, hr, _⟩ := fightFree_registered hreg hbook hq
      refine Homed.deregister h hq (fun _ => id) ?_ hcounted'
      intro id session contents hfree hmap hid
      have hmap : s.contentsMap (s.fights handle).contentsNum = some contents := hmap
      rw [hr, Option.some.injEq] at hmap
      subst hmap
      exact hfree.not_cut (hcleared.gone handle hlt hend id hid)
  | matchDeregister pooled matchID rest hidle hq =>
      refine Homed.deregister h hq (fun _ => id) ?_ hcounted'
      intro id session contents _ hmap hid
      have hnil := (hdoors.deregister (by rw [hq]; simp)).2
      rw [hreg.match_contents hmap] at hid
      simp [players, hnil] at hid
  | post n id rest hposting =>
      refine h.of_same hcounted' rfl rfl rfl ?_ (fun _ hm => hm)
      rintro id' (hb | ⟨posting, hp, hid⟩ | ⟨n', hb⟩ | hb)
      · exact Or.inl hb
      · rw [hposting, Option.mem_def, Option.some.injEq] at hp
        rw [← hp] at hid
        rcases List.mem_cons.mp hid with rfl | hid
        · exact Or.inr (Or.inr (Or.inl ⟨n, by simp⟩))
        · exact Or.inr (Or.inl ⟨_, rfl, hid⟩)
      · exact Or.inr (Or.inr (Or.inl ⟨n', List.mem_append_left _ hb⟩))
      · exact Or.inr (Or.inr (Or.inr hb))
  | postDone n hposting =>
      refine h.of_same hcounted' rfl rfl rfl ?_ (fun _ hm => hm)
      rintro id' (hb | ⟨posting, hp, hid⟩ | hb)
      · exact Or.inl hb
      · rw [hposting, Option.mem_def, Option.some.injEq] at hp
        rw [← hp] at hid
        simp at hid
      · exact Or.inr (Or.inr hb)
  | stopAccept hidle =>
      exact h.of_same hcounted' rfl rfl rfl (fun _ hb => hb) (fun _ hm => hm)
  | shutDown hstop =>
      rw [s.matchShutDown_frame.frame.accepting]
      exact Homed.matchShutDown h hcounted'
  | shutDownLate hmap => exact h

end Server

/-! ## Runs -/

/-- What every run that shares no number and ends no fight early keeps. -/
structure Kept (s : Server) : Prop where
  book : s.Book
  register : s.Register
  counted : s.Counted
  doors : s.Doors
  cleared : s.Cleared
  homed : s.Homed s.accepting.toList

theorem kept_initial (pooled : FightContents) : Kept (initialServer pooled) where
  book := Server.book_initial pooled
  register := Server.register_initial pooled
  counted := Server.counted_initial pooled
  doors := Server.doors_initial pooled
  cleared := Server.cleared_initial pooled
  homed := by
    rintro id session ⟨hs, _⟩
    simp [initialServer] at hs

theorem Kept.step {s s' : Server} {step : Step} (h : Kept s)
    (hok : Unshared s step ∧ NoEarlyEnd s step) (hstep : systemStep s step = some s') :
    Kept s' := by
  have hstepped := systemStep_stepped hstep
  have hcounted := h.counted.step h.book h.register hok.1 hok.2 hstepped
  exact
    { book := h.book.step hstepped
      register := h.register.step h.book hok.1 hstepped
      counted := hcounted
      doors := h.doors.step h.book h.register h.counted hstepped
      cleared := h.cleared.step h.book h.register h.counted h.doors hstepped
      homed := h.homed.step h.book h.register h.counted h.doors h.cleared hcounted hstepped }

/-- **No session is orphaned.**  In every state of every run whose FIGHTALLOCs find
their contents number free and whose leaves end no fight early, each live session that
is not disconnected is in a registered contents, on its way to one, or being accepted. -/
theorem no_session_orphaned (pooled : FightContents) (steps : List Step) (s : Server)
    (hok : Along systemStep (fun s step => Unshared s step ∧ NoEarlyEnd s step)
      (initialServer pooled) steps)
    (hrun : exec systemStep (initialServer pooled) steps = some s) (id : SessionID)
    (session : Session) (hsession : s.sessions id = some session) (hlive : session.IsLive)
    (hflag : session.dFlag = false) : s.Home id session := by
  have h : Kept s :=
    exec_invariant_along (fun _ _ _ h hok hs => h.step hok hs) (kept_initial pooled) hok hrun
  rcases h.homed id session ⟨hsession, hlive, hflag⟩ with hh | hh | ⟨hmem, _⟩
  · exact Or.inl hh
  · exact Or.inr (Or.inl hh)
  · -- The accept of this session is in progress.
    rw [Option.mem_toList] at hmem
    have hphase := (h.doors.accepting id).mp hmem
    rw [Server.phaseOf, hsession, Option.map_some, Option.some.injEq] at hphase
    exact Or.inr (Or.inr hphase)

/-- Everybody enters the first fight, and one player leaves it. -/
def oneLeft : List Step :=
  fightPosted ++ (List.range 6).flatMap entersFight ++ leavesFight 0

theorem oneLeft_orphans_nobody :
    ∃ s session, exec systemStep (initialServer pooledFight) oneLeft = some s ∧
      s.sessions (firstSession 1) = some session ∧ session.IsLive ∧ session.dFlag = false ∧
      s.Home (firstSession 1) session := by
  have hok : Along systemStep (fun s step => Unshared s step ∧ NoEarlyEnd s step)
      (initialServer pooledFight) oneLeft := by decide +kernel
  have hsession : ((exec systemStep (initialServer pooledFight) oneLeft).bind fun s =>
      s.sessions (firstSession 1)) = some ⟨.live, false, 1⟩ := by decide +kernel
  obtain ⟨s, hs, hsession⟩ := Option.bind_eq_some_iff.mp hsession
  exact ⟨s, _, hs, hsession, Or.inr rfl, rfl,
    no_session_orphaned pooledFight oneLeft s hok hs _ _ hsession (Or.inr rfl) rfl⟩

/-- Of a fight's six, one enters first and leaves at once: the fight ends and is
deregistered, and the enter event of the next player is dropped. -/
def earlyLeave : List Step :=
  fightPosted ++ entersFight 5 ++ leavesFight 5 ++
    [.control pooledFight 1, .fetchEnter (firstSession 4) 1]

theorem earlyLeave_orphans :
    ∃ s session, exec systemStep (initialServer pooledFight) earlyLeave = some s ∧
      s.sessions (firstSession 4) = some session ∧ session.IsLive ∧ session.dFlag = false ∧
      ¬ s.Home (firstSession 4) session := by
  have hsession : ((exec systemStep (initialServer pooledFight) earlyLeave).bind fun s =>
      s.sessions (firstSession 4)) = some ⟨.live, false, CONMOV⟩ := by decide +kernel
  have hhome : ∀ s ∈ exec systemStep (initialServer pooledFight) earlyLeave,
      ¬ s.Home (firstSession 4) ⟨.live, false, CONMOV⟩ := by decide +kernel
  obtain ⟨s, hs, hsession⟩ := Option.bind_eq_some_iff.mp hsession
  exact ⟨s, _, hs, hsession, Or.inr rfl, rfl, hhome s hs⟩

end SessionServer.Battle
