/-
  Battle/Ownership.lean --- who may still use a player that is freed.

  `OnRelease` gives the player object back to the pool.  The map of a fight holds
  pointers to players, and a worker that has fetched the fight may run a handler on it
  when the fight is no longer registered.  A release whose lookup comes after the
  deregistration finds no contents and skips `OnLeave`.
-/
import SessionServer.Battle.HandlingRun
import SessionServer.Battle.ControlWake

set_option autoImplicit false

namespace SessionServer.Battle

open SessionServer.Foundation

/-! ## References -/

/-- The server, its handlers in progress, and the references to fights whose handler is
still to run; those of the enter events are in `entering`. -/
structure Owners where
  handling : Handling
  /-- fetched for an update or a message -/
  fetched : List FightHandle
  /-- fetched by a `Release` for its `OnLeave` -/
  leaving : List (SessionID × FightHandle)

namespace Owners

/-- Some thread has fetched the fight and has still to run its handler. -/
def Held (o : Owners) (handle : FightHandle) : Prop :=
  handle ∈ o.fetched ∨ (∃ event ∈ o.handling.server.entering, event.2 = .fight handle) ∨
    ∃ entry ∈ o.leaving, entry.2 = handle

instance (o : Owners) (handle : FightHandle) : Decidable (o.Held handle) :=
  inferInstanceAs (Decidable (_ ∨ _ ∨ _))

/-- A handler can still run on the fight: through the contents map, on a reference
fetched before, or because it is in progress. -/
def Runnable (o : Owners) (handle : FightHandle) : Prop :=
  o.handling.server.Registered (.fight handle) ∨ o.Held handle ∨
    ∃ work ∈ o.handling.inserting, work.handle = handle

instance (o : Owners) (handle : FightHandle) : Decidable (o.Runnable handle) :=
  inferInstanceAs (Decidable (_ ∨ _ ∨ _))

/-- A handler of the fight on a reference fetched before. -/
def useFetched (o : Owners) (handle : FightHandle) : Option Owners :=
  if handle ∈ o.fetched then some { o with fetched := o.fetched.erase handle } else none

/-- The reference that `Release` keeps from its lookup to its `OnLeave`. -/
def keepLeaving (o : Owners) (id : SessionID) : Owners :=
  match o.handling.server.leaveTarget id with
  | some (.fight handle) => { o with leaving := (id, handle) :: o.leaving }
  | _ => o

/-- What a step takes from the references and leaves them. -/
def prepare (o : Owners) : HandlingStep → Option Owners
  | .server (.update handle _) => o.useFetched handle
  | .server (.message handle _ _ _) => o.useFetched handle
  | .server (.releaseFetch id) => some (o.keepLeaving id)
  | .server (.releaseLeave id) =>
      some { o with leaving := o.leaving.filter fun entry => entry.1 ≠ id }
  | _ => some o

end Owners

/-- What happens next. -/
inductive OwnerStep where
  | handling (step : HandlingStep)
  /-- a worker looks up a fight for an update or a message -/
  | fetch (handle : FightHandle)

/-- One step; `none` where it is not enabled. -/
def ownerStep (o : Owners) : OwnerStep → Option Owners
  | .handling step =>
      (o.prepare step).bind fun prepared =>
        (handlingStep o.handling step).map fun handling => { prepared with handling := handling }
  | .fetch handle =>
      if handle < o.handling.server.created ∧ o.handling.server.Registered (.fight handle) then
        some { o with fetched := handle :: o.fetched }
      else none

def initialOwners (pooled : FightContents) : Owners := ⟨initialHandling pooled, [], []⟩

/-! ## What a step does to the maps -/

open Server in
/-- Outside the enter events nobody comes into the map of a fight. -/
theorem Stepped.inFight {s s' : Server} {step : Step} (hstep : Stepped s step s')
    (hsplit : Handling.splits step = false) {handle : FightHandle} {id : SessionID}
    (hin : s'.InFight handle id) : s.InFight handle id := by
  obtain ⟨hlt, hid⟩ := hin
  have hevent : ∀ (k : FightHandle) (event : FightEvent),
      (∀ id, id ∈ ((s.fights k).counted event).playerMap.keys →
        id ∈ (s.fights k).playerMap.keys) →
      id ∈ ((s.fightEvent k event).fights handle).playerMap.keys →
      id ∈ (s.fights handle).playerMap.keys := by
    intro k event hkeys hmem
    rw [Handling.fightEvent_keys] at hmem
    split at hmem
    · rename_i heq
      exact heq ▸ hkeys id hmem
    · exact hmem
  by_cases hcontrol : step.isControl = false
  · refine ⟨(hstep.worked hcontrol).created ▸ hlt, ?_⟩
    cases hstep with
    | acceptEnter _ entered hacc hknown hentered => simp [Handling.splits] at hsplit
    | runEnter _ contents hmem => simp [Handling.splits] at hsplit
    | releaseLeave id' contents hphase =>
        cases contents with
        | match_ =>
            have hid : id ∈ ((s.matchLeave id').fights handle).playerMap.keys := hid
            rwa [(s.matchLeave_frame id').frame.fights] at hid
        | fight k => exact hevent k _ (fun _ => counted_leave_keys) hid
    | event _ k event hev hhandle =>
        refine hevent k event (fun id' hid' => ?_) hid
        rwa [event_counted hev] at hid'
    | fightAlloc pooled matchID group rest hidle hq => simp [Step.isControl] at hcontrol
    | shutDown hstop => rwa [s.matchShutDown_frame.frame.fights] at hid
    | _ => exact hid
  · cases hstep with
    | fightAlloc pooled matchID group rest hidle hq =>
        rw [handleFightAlloc_eq] at hlt hid
        simp only at hlt hid
        split at hid
        · simp [(newFight_init pooled s.nextContentsNum matchID group).2.2.1,
            PlayerMap.keys] at hid
        · rename_i hne
          exact ⟨Nat.lt_of_le_of_ne (Nat.le_of_lt_succ hlt) hne, hid⟩
    | fightFree pooled matchID k rest hidle hq => exact ⟨hlt, hid⟩
    | matchDeregister pooled matchID rest hidle hq => exact ⟨hlt, hid⟩
    | event _ k event hevent hhandle =>
        exact absurd (Step.isControl_of_event hevent) hcontrol
    | _ => exact absurd rfl hcontrol

open Server in
/-- A fight that is registered after a step was registered before. -/
theorem Stepped.registered {s s' : Server} {step : Step} (hstep : Stepped s step s')
    {handle : FightHandle} (hlt : handle < s.created)
    (hreg : s'.Registered (.fight handle)) : s.Registered (.fight handle) := by
  by_cases hcontrol : step.isControl = false
  · have hw := hstep.worked hcontrol
    simpa only [Registered, numberOf, hw.contentsMap, hw.number] using hreg
  · cases hstep with
    | fightAlloc pooled matchID group rest hidle hq =>
        rw [handleFightAlloc_eq] at hreg
        simp only [Registered, numberOf, if_neg (Nat.ne_of_lt hlt)] at hreg
        split at hreg
        · rw [Option.some.injEq, Contents.fight.injEq] at hreg
          exact absurd hreg.symm (Nat.ne_of_lt hlt)
        · exact hreg
    | fightFree pooled matchID k rest hidle hq =>
        exact mapped_of_deregister hreg
    | matchDeregister pooled matchID rest hidle hq =>
        exact mapped_of_deregister hreg
    | event _ k event hevent hhandle =>
        exact absurd (Step.isControl_of_event hevent) hcontrol
    | _ => exact absurd rfl hcontrol

/-! ## Releases past their lookup -/

namespace Handling

/-- The release of the session is past its lookup, and is not to leave the fight. -/
def Past (h : Handling) (id : SessionID) (handle : FightHandle) : Prop :=
  h.server.phaseOf id = some .left ∨
    ∃ target, h.server.phaseOf id = some (.leaving target) ∧ target ≠ some (.fight handle)

/-- What a step brings to the fights: no session past its lookup, and references to
registered fights only. -/
structure Guards (h h' : Handling) : Prop where
  past : ∀ id handle, Past h' id handle → h'.Belongs id (.fight handle) →
    Past h id handle ∧ h.Belongs id (.fight handle)
  registered : ∀ handle < h.server.created, h'.server.Registered (.fight handle) →
    h.server.Registered (.fight handle)
  entering : ∀ id handle, (id, .fight handle) ∈ h'.server.entering →
    (id, .fight handle) ∈ h.server.entering ∨ h.server.Registered (.fight handle)

theorem Past.of_phaseOf {h h' : Handling} {id : SessionID} {handle : FightHandle}
    (hpast : Past h' id handle) (hphase : h'.server.phaseOf id = h.server.phaseOf id) :
    Past h id handle := by
  simpa only [Past, hphase] using hpast

/-- The phase a release step or an accept writes. -/
theorem Past.of_setPhase {h h' : Handling} {id id' : SessionID} {handle : FightHandle}
    {phase : Phase} (hpast : Past h' id' handle)
    (hphase : ∀ id', h'.server.phaseOf id' = (h.server.setPhase id phase).phaseOf id')
    (hnew : Past h id handle ∨ (phase ≠ .left ∧ ∀ target, phase ≠ .leaving target)) :
    Past h id' handle := by
  simp only [Past, hphase, Server.phaseOf_setPhase] at hpast
  by_cases heq : id' = id
  · subst heq
    rw [if_pos rfl] at hpast
    rcases hnew with hold | ⟨hleft, hleaving⟩
    · exact hold
    · rcases hpast with hpast | ⟨target, hpast, _⟩ <;>
        obtain ⟨_, _, hp⟩ := Option.map_eq_some_iff.mp hpast
      · exact absurd hp hleft
      · exact absurd hp (hleaving target)
  · rw [if_neg heq] at hpast
    exact hpast

/-- A step of the server brings nobody to a fight. -/
theorem server_belongs {h : Handling} {s : Server} {step : Step} (hb : Bounded h)
    (hsplit : splits step = false) (hstep : Stepped h.server step s) {id : SessionID}
    {handle : FightHandle} (hbelongs : Belongs { h with server := s } id (.fight handle)) :
    h.Belongs id (.fight handle) := by
  rcases hbelongs with hin | ⟨_, work, hwork, rfl, hrest⟩
  · exact Or.inl (hstep.inFight hsplit hin)
  · exact Or.inr ⟨hb.inserting work hwork, work, hwork, rfl, hrest⟩

/-- Every step of the server but the lookup of a release. -/
theorem server_guards {h : Handling} {s : Server} {step : Step} (hb : Bounded h)
    (hfree : h.free step = true) (hsplit : splits step = false)
    (hfetch : ∀ id, step ≠ .releaseFetch id) (hstep : Stepped h.server step s) :
    Guards h { h with server := s } := by
  refine ⟨fun id handle hpast hbelongs => ?_, fun handle hlt => hstep.registered hlt, ?_⟩
  · have hold := server_belongs hb hsplit hstep hbelongs
    refine ⟨?_, hold⟩
    cases hstep with
    | accept id' hrun hidle hnew =>
        have hphase : ∀ id'', id'' ≠ id' → Server.phaseOf { h.server with
            accepting := some id'
            sessions := fun id'' =>
              if id'' = id' then some ⟨.accepting, false, MATCH⟩ else h.server.sessions id'' } id'' =
            h.server.phaseOf id'' := by
          intro id'' hne
          simp only [Server.phaseOf, if_neg hne]
        by_cases heq : id = id'
        · subst heq
          simp [Past, Server.phaseOf] at hpast
        · exact hpast.of_phaseOf (hphase id heq)
    | acceptEnter _ entered hacc hknown hentered => simp [splits] at hsplit
    | runEnter _ contents hmem => simp [splits] at hsplit
    | releaseFetch id' hphase => exact absurd rfl (hfetch id')
    | disconnect id' => exact hpast.of_phaseOf ((h.server.disconnect_frame id').phaseOf id)
    | release id' hphase =>
        exact hpast.of_setPhase (fun _ => rfl) (Or.inr ⟨by simp, by simp⟩)
    | releaseLeave id' contents hphase =>
        have hbusy : h.busy contents = false := by
          simpa [free, Server.leavingTo_of_phaseOf hphase] using hfree
        obtain ⟨hstays, hgone⟩ := contentsLeave_stays id' hbusy
        by_cases heq : id = id'
        · subst heq
          -- The session leaves the contents it has looked up, and no other.
          refine Or.inr ⟨_, hphase, ?_⟩
          rintro hsome
          rw [Option.some.injEq] at hsome
          subst hsome
          exact hgone hbelongs
        · have hsame := hstays.phaseOf id
          refine hpast.of_phaseOf ?_
          rw [← hsame]
          simp only [Server.phaseOf_setPhase, if_neg heq]
    | releaseNone id' hphase =>
        refine hpast.of_setPhase (fun _ => rfl) (Or.inl (Or.inr ⟨none, hphase, by simp⟩))
    | onRelease id' hphase =>
        exact hpast.of_setPhase (fun _ => rfl) (Or.inr ⟨by simp, by simp⟩)
    | event _ k event hevent hhandle =>
        exact hpast.of_phaseOf (h.server.fightEvent_phaseOf k event id)
    | fightAlloc pooled matchID group rest hidle hq =>
        refine hpast.of_phaseOf ?_
        rw [Server.handleFightAlloc_eq]
        rfl
    | shutDown hstop => exact hpast.of_phaseOf (h.server.matchShutDown_frame.frame.phaseOf id)
    | _ => exact hpast
  · intro id handle hmem
    rcases hstep.entering with ⟨id', n, contents, _, hmap, hentering⟩ |
      ⟨id', contents, hrun, _, _⟩ | ⟨_, hentering⟩
    · have hmem : (id, .fight handle) ∈ s.entering := hmem
      rw [hentering] at hmem
      rcases List.mem_cons.mp hmem with heq | hmem
      · rw [Prod.mk.injEq] at heq
        rw [← heq.2] at hmap
        rcases hb.mapped n _ hmap with ⟨hc, _⟩ | ⟨k, hc, _, hnum⟩
        · simp at hc
        · rw [Contents.fight.injEq] at hc
          subst hc
          refine Or.inr ?_
          rw [Server.Registered, Server.numberOf, hnum]
          exact hmap
      · exact Or.inl hmem
    · rw [hrun] at hsplit
      simp [splits] at hsplit
    · have hmem : (id, .fight handle) ∈ s.entering := hmem
      rw [hentering] at hmem
      exact Or.inl hmem

/-- A handler of the match, in which the fights stay as they are. -/
theorem match_guards {h h' : Handling} (hfights : h'.server.fights = h.server.fights)
    (hcreated : h'.server.created = h.server.created)
    (hmap : h'.server.contentsMap = h.server.contentsMap)
    (hentering : h'.server.entering = h.server.entering)
    (hinserting : h'.inserting = h.inserting)
    (hphase : ∀ id phase, h'.server.phaseOf id = some phase → phase ≠ .live →
      h.server.phaseOf id = some phase) : Guards h h' where
  past := by
    intro id handle hpast hbelongs
    refine ⟨?_, ?_⟩
    · rcases hpast with hpast | ⟨target, hpast, hne⟩
      · exact Or.inl (hphase id _ hpast (by simp))
      · exact Or.inr ⟨target, hphase id _ hpast (by simp), hne⟩
    · simpa only [Belongs, Server.InFight, hfights, hcreated, hinserting] using hbelongs
  registered := by
    intro handle _ hreg
    simpa only [Server.Registered, Server.numberOf, hmap, hfights] using hreg
  entering := by
    intro id handle hmem
    rw [hentering] at hmem
    exact Or.inl hmem

theorem finishAccept_phaseOf (h : Handling) {id id' : SessionID} {phase : Phase}
    (hphase : (h.finishAccept id).server.phaseOf id' = some phase) (hlive : phase ≠ .live) :
    h.server.phaseOf id' = some phase := by
  have hset : (h.server.setPhase id .live).phaseOf id' = some phase := hphase
  rw [Server.phaseOf_setPhase] at hset
  split at hset
  · obtain ⟨_, _, heq⟩ := Option.map_eq_some_iff.mp hset
    exact absurd heq.symm hlive
  · exact hset

theorem finishAccept_guards (h : Handling) (id : SessionID) : Guards h (h.finishAccept id) :=
  match_guards rfl rfl rfl rfl rfl fun _ _ hphase hlive => h.finishAccept_phaseOf hphase hlive

theorem matchEnter_guards (h : Handling) (id : SessionID) : Guards h (h.matchEnter id) := by
  have hins := (h.server.insertWaiting_frame id).1
  unfold Handling.matchEnter
  split
  · have hf := h.server.disconnect_frame id
    refine match_guards rfl rfl rfl rfl rfl fun id' phase hphase hlive => ?_
    rw [← hf.phaseOf]
    exact finishAccept_phaseOf _ hphase hlive
  · simp only
    split
    · refine match_guards hins.fights hins.created hins.contentsMap hins.entering rfl ?_
      intro id' phase hphase _
      exact (hins.phaseOf id').symm.trans hphase
    · refine match_guards hins.fights hins.created hins.contentsMap hins.entering rfl ?_
      intro id' phase hphase hlive
      rw [← hins.phaseOf]
      exact finishAccept_phaseOf _ hphase hlive

theorem groupMove_guards (h : Handling) (work : Grouping) (id : SessionID) :
    Guards h (h.groupMove work id) := by
  have hf := (h.server.setTeam_frame id work.team).trans
    ((h.server.setTeam id work.team).tryMove_frame id CONMOV)
  refine match_guards hf.fights hf.created hf.contentsMap hf.entering rfl ?_
  intro id' phase hphase _
  exact (hf.phaseOf id').symm.trans hphase

/-- A session whose slot `OnEnter` writes is not being released. -/
theorem fightMove_guards {h : Handling} {id : SessionID} {handle : FightHandle} :
    Guards h (h.fightMove id handle) := by
  unfold Handling.fightMove
  simp only
  split
  · -- The server does not know the player, and the map of the fight stays.
    obtain ⟨-, -, -, -, hmap, hcreated, -, -, -, hentering, -, -⟩ :=
      Server.fightEvent_rest
        { h.server with entering := h.server.entering.erase (id, .fight handle) } handle
        (.enter id none false)
    refine ⟨fun id' k hpast hbelongs => ⟨?_, ?_⟩, fun k hlt hreg => ?_, fun id' k hmem => ?_⟩
    · exact hpast.of_phaseOf (Server.fightEvent_phaseOf
        { h.server with entering := h.server.entering.erase (id, .fight handle) } handle _ id')
    · rcases hbelongs with ⟨hlt, hid⟩ | ⟨hlt, hwork⟩
      · rw [hcreated] at hlt
        rw [fightEvent_keys] at hid
        refine Or.inl ⟨hlt, ?_⟩
        split at hid
        · rename_i heq
          exact heq ▸ hid
        · exact hid
      · rw [hcreated] at hlt
        exact Or.inr ⟨hlt, hwork⟩
    · simpa only [Server.Registered, Server.numberOf, hmap, fightEvent_number] using hreg
    · have hmem : (id', .fight k) ∈ Server.entering (Server.fightEvent
          { h.server with entering := h.server.entering.erase (id, .fight handle) } handle
          (.enter id none false)) := hmem
      rw [hentering] at hmem
      exact Or.inl (List.mem_of_mem_erase hmem)
  · rename_i player _
    have hf := Server.tryMove_frame
      { h.server with entering := h.server.entering.erase (id, .fight handle) } id
      (h.server.fights handle).contentsNum
    have hslot := (tryMove_slot
      { h.server with entering := h.server.entering.erase (id, .fight handle) } id
      (h.server.fights handle).contentsNum).2
    generalize Server.tryMoveSessionToContents
      { h.server with entering := h.server.entering.erase (id, .fight handle) } id
      (h.server.fights handle).contentsNum = moved at *
    refine ⟨fun id' k hpast hbelongs => ?_, fun k hlt hreg => ?_, fun id' k hmem => ?_⟩
    · have hpast' : Past h id' k := hpast.of_phaseOf (hf.phaseOf id')
      refine ⟨hpast', ?_⟩
      simp only [Belongs, Server.InFight, hf.fights, hf.created] at hbelongs
      rcases hbelongs with hin | ⟨hlt, work, hwork, rfl, rfl, hflag⟩
      · exact Or.inl hin
      · rcases List.mem_cons.mp hwork with rfl | hwork
        · -- The slot of a session past its lookup is not written any more.
          have hphase : h.server.phaseOf id = some .accepting ∨ h.server.phaseOf id = some .live :=
            (hslot hflag).2
          rcases hpast' with hleft | ⟨target, hleaving, _⟩
          · rcases hphase with hphase | hphase <;> rw [hphase] at hleft <;> simp at hleft
          · rcases hphase with hphase | hphase <;> rw [hphase] at hleaving <;> simp at hleaving
        · exact Or.inr ⟨hlt, work, hwork, rfl, rfl, hflag⟩
    · simpa only [Server.Registered, Server.numberOf, hf.contentsMap, hf.fights] using hreg
    · have hmem : (id', .fight k) ∈ moved.1.entering := hmem
      rw [hf.entering] at hmem
      exact Or.inl (List.mem_of_mem_erase hmem)

theorem fightInsert_guards {h : Handling} (hb : Bounded h) {work : Inserting}
    (hwork : work ∈ h.inserting) : Guards h (h.fightInsert work) := by
  obtain ⟨-, -, -, -, hmap, -, -, -, -, hentering, -, -⟩ :=
    h.server.fightEvent_rest work.handle (.enter work.id (some work.player) work.moved)
  refine ⟨fun id k hpast hbelongs => ⟨?_, fightInsert_belongs hb hwork hbelongs⟩,
    fun k hlt hreg => ?_, fun id k hmem => ?_⟩
  · exact hpast.of_phaseOf (h.server.fightEvent_phaseOf work.handle _ id)
  · simpa only [Handling.fightInsert, Server.Registered, Server.numberOf, hmap,
      fightEvent_number] using hreg
  · simp only [Handling.fightInsert, hentering] at hmem
    exact Or.inl hmem

/-- **Every step but the lookup of a release** brings no session past its lookup to a
fight, and no reference to a fight that is not registered. -/
theorem guards_step {h h' : Handling} {step : HandlingStep} (hb : Bounded h)
    (hfetch : ∀ id, step ≠ .server (.releaseFetch id)) (hstep : handlingStep h step = some h') :
    Guards h h' := by
  cases handlingStep_moved hstep with
  | server step server hfree hwhole hserver =>
      exact server_guards hb hfree hwhole (fun id heq => hfetch id (heq ▸ rfl))
        (systemStep_stepped hserver)
  | matchEnter id hacc hidle => exact h.matchEnter_guards _
  | noMatch id hacc hidle => exact h.finishAccept_guards _
  | groupMove work id rest hgrouping hidle hmap => exact h.groupMove_guards _ _
  | groupErase work id rest hgrouping hmoved hmap =>
      exact match_guards rfl rfl rfl rfl rfl fun _ _ hphase _ => hphase
  | groupDone work id hgrouping hidle hfull hacc =>
      refine match_guards rfl rfl rfl rfl rfl fun id' phase hphase hlive => ?_
      exact finishAccept_phaseOf _ hphase hlive
  | fightMove id handle hmem => exact fightMove_guards
  | fightInsert handle work hmem => exact fightInsert_guards hb hmem

end Handling

/-! ## Released players -/

namespace Owners

/-- No release looks up its contents while its session is in a fight that is no longer
registered, or about to be inserted there, and a thread that has fetched that fight has
still to run its handler. -/
def Looks (o : Owners) : OwnerStep → Prop
  | .handling (.server (.releaseFetch id)) =>
      ∀ handle < o.handling.server.created, o.handling.Belongs id (.fight handle) →
        ¬ o.handling.server.Registered (.fight handle) → ¬ o.Held handle
  | _ => True

instance (h : Handling) (id : SessionID) (handle : FightHandle) :
    Decidable (h.Belongs id (.fight handle)) :=
  inferInstanceAs (Decidable ((_ ∧ _) ∨ (_ ∧ _)))

instance (o : Owners) (step : OwnerStep) : Decidable (Looks o step) := by
  unfold Looks
  split <;> infer_instance

/-- Nobody can run a handler on a fight that still holds a session whose release is past
its lookup. -/
def Guarded (o : Owners) : Prop :=
  ∀ id handle, o.handling.Past id handle → o.handling.Belongs id (.fight handle) →
    ¬ o.handling.server.Registered (.fight handle) ∧ ¬ o.Held handle

/-- References change hands; only the lookup of a release adds one. -/
theorem prepare_spec {o prepared : Owners} {step : HandlingStep}
    (h : o.prepare step = some prepared) (hfetch : ∀ id, step ≠ .server (.releaseFetch id)) :
    (∀ handle ∈ prepared.fetched, handle ∈ o.fetched) ∧
      ∀ entry ∈ prepared.leaving, entry ∈ o.leaving := by
  have hused : ∀ handle, o.useFetched handle = some prepared →
      (∀ handle ∈ prepared.fetched, handle ∈ o.fetched) ∧
        ∀ entry ∈ prepared.leaving, entry ∈ o.leaving := by
    intro handle hused
    unfold useFetched at hused
    split at hused
    · cases hused
      exact ⟨fun _ hmem => List.mem_of_mem_erase hmem, fun _ hmem => hmem⟩
    · simp at hused
  unfold prepare at h
  split at h
  · exact hused _ h
  · exact hused _ h
  · exact absurd rfl (hfetch _)
  · cases h
    exact ⟨fun _ hmem => hmem, fun _ hmem => (List.mem_filter.mp hmem).1⟩
  · cases h
    exact ⟨fun _ hmem => hmem, fun _ hmem => hmem⟩

theorem Guarded.guards {o o' : Owners} (h : Guarded o)
    (hguards : Handling.Guards o.handling o'.handling)
    (hfetched : ∀ handle ∈ o'.fetched, handle ∈ o.fetched)
    (hleaving : ∀ entry ∈ o'.leaving, entry ∈ o.leaving) : Guarded o' := by
  intro id handle hpast hbelongs
  obtain ⟨hpast, hbelongs⟩ := hguards.past id handle hpast hbelongs
  obtain ⟨hreg, hheld⟩ := h id handle hpast hbelongs
  have hlt : handle < o.handling.server.created := by
    rcases hbelongs with hin | hin
    · exact hin.1
    · exact hin.1
  refine ⟨fun hreg' => hreg (hguards.registered handle hlt hreg'), ?_⟩
  rintro (hmem | ⟨⟨id', contents⟩, hmem, rfl⟩ | ⟨entry, hmem, rfl⟩)
  · exact hheld (Or.inl (hfetched handle hmem))
  · rcases hguards.entering id' handle hmem with hold | hreg'
    · exact hheld (Or.inr (Or.inl ⟨_, hold, rfl⟩))
    · exact hreg hreg'
  · exact hheld (Or.inr (Or.inr ⟨entry, hleaving entry hmem, rfl⟩))

/-- The lookup of a release finds the fight that holds its session while that fight is
registered. -/
theorem Guarded.releaseFetch {o : Owners} (h : Guarded o) (hp : o.handling.Placed)
    (hb : o.handling.Bounded) {id : SessionID} {server : Server}
    (hok : Looks o (.handling (.server (.releaseFetch id))))
    (hstep : Stepped o.handling.server (.releaseFetch id) server) :
    Guarded { o.keepLeaving id with handling := { o.handling with server := server } } := by
  have hserver : server = o.handling.server.setPhase id
      (.leaving (o.handling.server.leaveTarget id)) := by
    cases hstep with
    | releaseFetch _ hphase => rfl
    | event _ handle event hevent hhandle => simp [Step.event?] at hevent
  -- The lookup takes a reference to its target, which is registered.
  have hheld : ∀ handle, Held { o.keepLeaving id with
      handling := { o.handling with server := server } } handle →
      o.Held handle ∨ o.handling.server.leaveTarget id = some (.fight handle) := by
    subst hserver
    intro handle hheld
    unfold keepLeaving at hheld
    split at hheld
    · rename_i target htarget
      rcases hheld with hmem | hmem | ⟨entry, hmem, rfl⟩
      · exact Or.inl (Or.inl hmem)
      · exact Or.inl (Or.inr (Or.inl hmem))
      · rcases List.mem_cons.mp hmem with rfl | hmem
        · exact Or.inr htarget
        · exact Or.inl (Or.inr (Or.inr ⟨entry, hmem, rfl⟩))
    · exact Or.inl hheld
  have htarget : ∀ handle, o.handling.server.leaveTarget id = some (.fight handle) →
      o.handling.server.Registered (.fight handle) := by
    intro handle htarget
    unfold Server.leaveTarget at htarget
    split at htarget
    · split at htarget
      · rcases hb.mapped _ _ htarget with ⟨hc, _⟩ | ⟨k, hc, _, hnum⟩
        · simp at hc
        · rw [Contents.fight.injEq] at hc
          subst hc
          rw [Server.Registered, Server.numberOf, hnum]
          exact htarget
      · simp at htarget
    · simp at htarget
  subst hserver
  intro id' handle hpast hin
  have hbelongs : o.handling.Belongs id' (.fight handle) := hin
  have hlt : handle < o.handling.server.created := by
    rcases hbelongs with hin | hin
    · exact hin.1
    · exact hin.1
  have hnew : ¬ o.handling.server.Registered (.fight handle) ∧ ¬ o.Held handle := by
    by_cases heq : id' = id
    · subst heq
      have hnot : ¬ o.handling.server.Registered (.fight handle) := by
        intro hreg
        have hfound := hp.leaveTarget hb hbelongs hreg
        simp only [Handling.Past, Server.phaseOf_setPhase, if_pos, Option.map_eq_some_iff]
          at hpast
        rcases hpast with ⟨_, _, hleft⟩ | ⟨target, ⟨_, _, hleaving⟩, hne⟩
        · simp at hleft
        · rw [Phase.leaving.injEq] at hleaving
          exact hne (hleaving.symm.trans hfound)
      exact ⟨hnot, hok handle hlt hbelongs hnot⟩
    · refine h id' handle ?_ hbelongs
      refine hpast.of_phaseOf ?_
      simp only [Server.phaseOf_setPhase, if_neg heq]
  refine ⟨hnew.1, fun hheld' => ?_⟩
  rcases hheld handle hheld' with hold | hfound
  · exact hnew.2 hold
  · exact hnew.1 (htarget handle hfound)

theorem Guarded.step {o o' : Owners} {step : OwnerStep} (h : Guarded o)
    (hp : o.handling.Placed) (hb : o.handling.Bounded) (hok : Looks o step)
    (hstep : ownerStep o step = some o') : Guarded o' := by
  cases step with
  | fetch handle =>
      simp only [ownerStep] at hstep
      split at hstep
      · rename_i hguard
        rw [Option.some.injEq] at hstep
        subst hstep
        intro id k hpast hbelongs
        obtain ⟨hreg, hheld⟩ := h id k hpast hbelongs
        refine ⟨hreg, ?_⟩
        rintro (hmem | hmem)
        · rcases List.mem_cons.mp hmem with rfl | hmem
          · exact hreg hguard.2
          · exact hheld (Or.inl hmem)
        · exact hheld (Or.inr hmem)
      · simp at hstep
  | handling step =>
      simp only [ownerStep] at hstep
      obtain ⟨prepared, hprepare, hstep⟩ := Option.bind_eq_some_iff.mp hstep
      obtain ⟨handling, hhandling, rfl⟩ := Option.map_eq_some_iff.mp hstep
      by_cases hfetch : ∃ id, step = .server (.releaseFetch id)
      · obtain ⟨id, rfl⟩ := hfetch
        simp only [prepare, Option.some.injEq] at hprepare
        subst hprepare
        cases handlingStep_moved hhandling with
        | server step server hfree hwhole hserver =>
            exact h.releaseFetch hp hb hok (systemStep_stepped hserver)
      · have hfetch : ∀ id, step ≠ .server (.releaseFetch id) := fun id heq => hfetch ⟨id, heq⟩
        obtain ⟨hfetched, hleaving⟩ := prepare_spec hprepare hfetch
        exact h.guards (Handling.guards_step hb hfetch hhandling) hfetched hleaving

/-- The handlers of a run of owners go as a run of the handlers. -/
theorem ownerStep_placed {o o' : Owners} {step : OwnerStep}
    (h : o.handling.Placed ∧ o.handling.Bounded) (hstep : ownerStep o step = some o') :
    o'.handling.Placed ∧ o'.handling.Bounded := by
  cases step with
  | fetch handle =>
      simp only [ownerStep] at hstep
      split at hstep
      · rw [Option.some.injEq] at hstep
        exact hstep ▸ h
      · simp at hstep
  | handling step =>
      simp only [ownerStep] at hstep
      obtain ⟨prepared, _, hstep⟩ := Option.bind_eq_some_iff.mp hstep
      obtain ⟨handling, hhandling, rfl⟩ := Option.map_eq_some_iff.mp hstep
      exact h.1.step h.2 hhandling

/-- **A released player is in no fight that can still run.**  In every run whose lookups
meet the condition, when `OnRelease` gives a player back no handler can run on a fight
that has the player in its map. -/
theorem released_players_unused (pooled : FightContents) (steps : List OwnerStep) (o : Owners)
    (hok : Along ownerStep Looks (initialOwners pooled) steps)
    (hrun : exec ownerStep (initialOwners pooled) steps = some o) (id : SessionID)
    (henabled : (ownerStep o (.handling (.server (.onRelease id)))).isSome) :
    ∀ handle < o.handling.server.created, o.Runnable handle →
      id ∉ (o.handling.server.fights handle).playerMap.keys := by
  have h : (o.handling.Placed ∧ o.handling.Bounded) ∧ Guarded o := by
    refine exec_invariant_along
      (I := fun o => (o.handling.Placed ∧ o.handling.Bounded) ∧ Guarded o)
      (fun _ _ _ h hok hs => ⟨ownerStep_placed h.1 hs, h.2.step h.1.1 h.1.2 hok hs⟩)
      ⟨⟨Handling.placed_initial pooled, Handling.bounded_initial pooled⟩, ?_⟩ hok hrun
    rintro id handle (hpast | ⟨_, hpast, _⟩) <;>
      simp [initialOwners, initialHandling, initialServer, Server.phaseOf] at hpast
  obtain ⟨o', hstep⟩ := Option.isSome_iff_exists.mp henabled
  simp only [ownerStep, prepare, Option.bind_some, handlingStep] at hstep
  obtain ⟨handling, hhandling, _⟩ := Option.map_eq_some_iff.mp hstep
  split at hhandling
  · rename_i hfree
    simp only [Handling.free, Bool.and_eq_true, Option.isNone_iff_eq_none,
      List.isEmpty_iff] at hfree
    obtain ⟨server, hs, _⟩ := Option.map_eq_some_iff.mp hhandling
    have hleft : o.handling.server.phaseOf id = some .left := by
      cases systemStep_stepped hs with
      | onRelease _ hphase => exact hphase
      | event _ k event hevent hhandle => simp [Step.event?] at hevent
    intro handle hlt hrunnable hmem
    obtain ⟨hreg, hheld⟩ := h.2 id handle (Or.inl hleft) (Or.inl ⟨hlt, hmem⟩)
    rcases hrunnable with hr | hr | ⟨work, hwork, _⟩
    · exact hreg hr
    · exact hheld hr
    · rw [hfree.1.2] at hwork
      simp at hwork
  · simp at hhandling

end Owners

/-- Six sessions are grouped and enter their fight. -/
def groupedFight : List HandlingStep :=
  ((List.range 6).flatMap (fun i =>
    [HandlingStep.server (.accept (firstSession i)), .server (.onAccept (firstPlayer i .red)),
      .matchEnter]) ++
  (List.range 6).flatMap (fun _ => [HandlingStep.groupMove, .groupErase]) ++
  [.groupDone, .server (.control pooledFight 1)] ++ List.replicate 7 (.server .post) ++
  (List.range 6).flatMap fun i =>
    [HandlingStep.server (.fetchEnter (firstSession i) 1), .fightMove (firstSession i) 0,
      .fightInsert 0])

/-- A session is released up to its `OnLeave`. -/
def ownerLeaves (i : Nat) : List OwnerStep :=
  (leavesFight i).map fun step => .handling (.server step)

/-- A worker fetches the fight for an update; one team leaves and the fight is
deregistered; then a player that remained is released. -/
def lateUpdate : List OwnerStep :=
  groupedFight.map .handling ++ [.fetch 0] ++ (List.range 3).flatMap ownerLeaves ++
    [.handling (.server (.control pooledFight 2))] ++ ownerLeaves 3

theorem lateUpdate_frees_used :
    ∃ o ∈ exec ownerStep (initialOwners pooledFight) lateUpdate,
      (ownerStep o (.handling (.server (.onRelease (firstSession 3))))).isSome ∧
        0 < o.handling.server.created ∧ o.Runnable 0 ∧
        firstSession 3 ∈ (o.handling.server.fights 0).playerMap.keys := by
  decide +kernel

/-- The same when the update has run before the deregistration. -/
def timelyUpdate : List OwnerStep :=
  groupedFight.map .handling ++ [.fetch 0, .handling (.server (.update 0 20))] ++
    (List.range 3).flatMap ownerLeaves ++
    [.handling (.server (.control pooledFight 2))] ++ ownerLeaves 3

theorem timelyUpdate_unused :
    ∃ o ∈ exec ownerStep (initialOwners pooledFight) timelyUpdate,
      firstSession 3 ∈ (o.handling.server.fights 0).playerMap.keys ∧
        ∀ handle < o.handling.server.created, o.Runnable handle →
          firstSession 3 ∉ (o.handling.server.fights handle).playerMap.keys := by
  have hsome : ∃ o ∈ exec ownerStep (initialOwners pooledFight) timelyUpdate,
      firstSession 3 ∈ (o.handling.server.fights 0).playerMap.keys ∧
        (ownerStep o (.handling (.server (.onRelease (firstSession 3))))).isSome := by
    decide +kernel
  obtain ⟨o, ho, hmem, henabled⟩ := hsome
  exact ⟨o, ho, hmem, Owners.released_players_unused pooledFight timelyUpdate o
    (by decide +kernel) ho (firstSession 3) henabled⟩

end SessionServer.Battle
