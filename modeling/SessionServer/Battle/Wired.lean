/-
  Battle/Wired.lean --- a fight behind the receive rings of its sessions.

  A completion takes the bytes that have come for one session, whatever their number, and
  hands each frame to the stub, all under the lock of the contents.  Such a step is some
  number of messages of the fight.  Over a run the messages of a session are what its
  payloads ask for, in the order they were sent, and the rest of the fight is none the wiser.
-/
import SessionServer.Battle.Started
import SessionServer.Battle.Rpc
import SessionServer.Foundation.Expansion

set_option autoImplicit false

namespace SessionServer.Battle

open SessionServer.Common SessionServer.ContentLib SessionServer.Foundation

/-! ## The system -/

/-- A fight, the receiving ends of the sessions, and what the fight has asked for, call by
call. -/
structure Wired where
  fight : FightContents
  receivers : SessionID → Receiver
  asked : List (List Effect)

/-- What happens next: a call into the fight that is not a message, or a completion.  For the
`i`-th frame of a completion the environment gives the buffer of the pool, what an
uninitialised `type` holds, and the reading of the clock. -/
inductive WiredLabel where
  | call (event : FightEvent)
  | complete (sessionID : SessionID) (cbTransferred : Nat) (msgbufs : Nat → PooledBuffer)
      (unset : Nat → UInt8) (clock : Nat → UInt32)

def FightEvent.isMessage : FightEvent → Bool
  | .message _ _ _ => true
  | _ => false

/-- The messages of a completion that hands over the payloads. -/
def messagesOf (sessionID : SessionID) (msgbufs : Nat → PooledBuffer) (unset : Nat → UInt8)
    (clock : Nat → UInt32) (payloads : List (List UInt8)) : List FightEvent :=
  payloads.mapIdx fun i payload =>
    .message sessionID
      (FightStub.procMessage (unset i) (framePacket (msgbufs i) (setBufferHeader payload)))
      (clock i)

namespace Wired

/-- The receiving end after a completion in this fight. -/
def arrived (w : Wired) (sessionID : SessionID) (cbTransferred : Nat) : Option Receiver :=
  recvStep (fun n => n = w.fight.contentsNum) (w.receivers sessionID)
    ⟨cbTransferred, w.fight.contentsNum⟩

/-- The calls a label makes. -/
def calls (w : Wired) : WiredLabel → List FightEvent
  | .call event => [event]
  | .complete sessionID cbTransferred msgbufs unset clock =>
      match w.arrived sessionID cbTransferred with
      | none => []
      | some r =>
          messagesOf sessionID msgbufs unset clock
            (r.handed.drop (w.receivers sessionID).handed.length)

def step (w : Wired) (label : WiredLabel) : Option Wired :=
  let handled := fun receivers =>
    { fight := after fightStep w.fight (w.calls label)
      receivers := receivers
      asked := w.asked ++ answers fightStep w.fight (w.calls label) : Wired }
  match label with
  | .call event => if event.isMessage then none else some (handled w.receivers)
  | .complete sessionID cbTransferred _ _ _ =>
      (w.arrived sessionID cbTransferred).map fun r =>
        handled (Function.update w.receivers sessionID r)

/-- The events of a run. -/
def events (w : Wired) (labels : List WiredLabel) : List FightEvent :=
  callsAlong step calls w labels

end Wired

/-- The request of an event, if it is one of the session. -/
def FightEvent.requestOf (sessionID : SessionID) : FightEvent → Option CSMessage
  | .message sender request _ => if sender = sessionID then some request else none
  | _ => none

/-- The requests of a session among the events. -/
def requestsOf (sessionID : SessionID) (events : List FightEvent) : List CSMessage :=
  events.filterMap (FightEvent.requestOf sessionID)

/-! ## One step -/

theorem requestsOf_append (sessionID : SessionID) (events more : List FightEvent) :
    requestsOf sessionID (events ++ more) =
      requestsOf sessionID events ++ requestsOf sessionID more :=
  List.filterMap_append

/-- The messages of a completion are what the payloads ask for. -/
theorem requestsOf_messagesOf (sessionID other : SessionID) (msgbufs : Nat → PooledBuffer)
    (unset : Nat → UInt8) (clock : Nat → UInt32) {payloads : List (List UInt8)}
    (hsize : ∀ payload ∈ payloads, PayloadSize payload) :
    requestsOf other (messagesOf sessionID msgbufs unset clock payloads) =
      if sessionID = other then payloads.map CSMessage.ofPayload else [] := by
  induction payloads generalizing msgbufs unset clock with
  | nil => split <;> rfl
  | cons payload payloads ih =>
      have hfirst := hsize payload List.mem_cons_self
      have hne : payload ≠ [] := List.length_pos_iff.mp hfirst.1
      have hread : FightStub.procMessage (unset 0)
          (framePacket (msgbufs 0) (setBufferHeader payload)) = CSMessage.ofPayload payload :=
        procMessage_eq (framePacket_pending (msgbufs 0) hfirst.2) hne (unset 0)
      have hrest := ih (fun i => msgbufs (i + 1)) (fun i => unset (i + 1)) (fun i => clock (i + 1))
        fun other hother => hsize other (List.mem_cons_of_mem _ hother)
      rw [messagesOf, List.mapIdx_cons, hread, requestsOf, List.filterMap_cons,
        FightEvent.requestOf]
      by_cases hsame : sessionID = other
      · rw [if_pos hsame] at hrest ⊢
        rw [if_pos hsame, List.map_cons]
        exact congrArg (List.cons _) hrest
      · rw [if_neg hsame] at hrest ⊢
        rw [if_neg hsame]
        exact hrest

namespace Wired

theorem step_expands :
    Expands step fightStep Wired.fight Wired.asked calls where
  state w label w' hstep := by
    cases label with
    | call event =>
        simp only [step] at hstep
        split at hstep
        · cases hstep
        · cases hstep
          rfl
    | complete sessionID cbTransferred msgbufs unset clock =>
        obtain ⟨r, _, rfl⟩ := Option.map_eq_some_iff.mp hstep
        rfl
  answered w label w' hstep := by
    cases label with
    | call event =>
        simp only [step] at hstep
        split at hstep
        · cases hstep
        · cases hstep
          rfl
    | complete sessionID cbTransferred msgbufs unset clock =>
        obtain ⟨r, _, rfl⟩ := Option.map_eq_some_iff.mp hstep
        rfl

/-- What has been handed over to a session grows with what its completions hand over. -/
theorem arrived_handed {w : Wired} {sessionID : SessionID} {cbTransferred : Nat} {r : Receiver}
    (h : w.arrived sessionID cbTransferred = some r) :
    (w.receivers sessionID).handed <+: r.handed := by
  simp only [arrived, recvStep] at h
  split at h
  · cases h
    exact List.prefix_append _ _
  · cases h

/-- **The history of the connections**: every session is in step with its stream, and its
requests so far are what the payloads handed over since `start` ask for. -/
structure InHistory (start : Wired) (payloads : SessionID → List Payload) (w : Wired)
    (events : List FightEvent) : Prop where
  contentsNum : w.fight.contentsNum = start.fight.contentsNum
  inStep : ∀ sessionID, InStep (payloads sessionID) (w.receivers sessionID)
  requests : ∀ sessionID, (w.receivers sessionID).handed.map CSMessage.ofPayload =
    (start.receivers sessionID).handed.map CSMessage.ofPayload ++ requestsOf sessionID events

theorem after_contentsNum (f : FightContents) (events : List FightEvent) :
    (after fightStep f events).contentsNum = f.contentsNum :=
  after_invariant (I := fun g : FightContents => g.contentsNum = f.contentsNum)
    (fun g event h => (g.fightStep_init event).1.trans h) rfl events

variable {start w w' : Wired} {payloads : SessionID → List Payload} {done : List FightEvent}

theorem InHistory.step (h : InHistory start payloads w done)
    (hzero : start.fight.contentsNum ≠ 0) (hmove : start.fight.contentsNum ≠ ContentLib.CONMOV)
    {label : WiredLabel} (hstep : w.step label = some w') :
    InHistory start payloads w' (done ++ w.calls label) := by
  cases label with
  | call event =>
      simp only [Wired.step] at hstep
      split at hstep
      · cases hstep
      · rename_i hplain
        cases hstep
        refine ⟨?_, h.inStep, fun sessionID => ?_⟩
        · exact (after_contentsNum _ _).trans h.contentsNum
        · have hnone : requestsOf sessionID [event] = [] := by
            cases event with
            | message sender message now => exact absurd rfl hplain
            | _ => rfl
          rw [requestsOf_append, calls, hnone, List.append_nil]
          exact h.requests sessionID
  | complete sessionID cbTransferred msgbufs unset clock =>
      obtain ⟨r, hr, rfl⟩ := Option.map_eq_some_iff.mp hstep
      obtain ⟨more, hmore⟩ := arrived_handed hr
      have hin : InStep (payloads sessionID) r := by
        refine (h.inStep sessionID).step ?_ ?_ hr
        · exact h.contentsNum ▸ hzero
        · exact h.contentsNum ▸ hmove
      have hsize : ∀ payload ∈ more, PayloadSize payload := by
        intro payload hpayload
        obtain ⟨taken, left, _, htaken, _⟩ := hin.split
        rw [htaken] at hmore
        have hmem : payload ∈ taken.map Subtype.val :=
          hmore ▸ List.mem_append_right _ hpayload
        obtain ⟨sized, _, rfl⟩ := List.mem_map.mp hmem
        exact sized.property
      have hcalls : w.calls (.complete sessionID cbTransferred msgbufs unset clock) =
          messagesOf sessionID msgbufs unset clock more := by
        simp only [calls, hr]
        rw [← hmore, List.drop_left]
      refine ⟨?_, fun other => ?_, fun other => ?_⟩
      · exact (after_contentsNum _ _).trans h.contentsNum
      · show InStep _ (Function.update w.receivers sessionID r other)
        by_cases hsame : other = sessionID
        · rw [hsame, Function.update_self]
          exact hin
        · rw [Function.update_of_ne hsame]
          exact h.inStep other
      · show (Function.update w.receivers sessionID r other).handed.map _ = _
        rw [requestsOf_append, hcalls, requestsOf_messagesOf _ _ _ _ _ hsize, ← List.append_assoc,
          ← h.requests other]
        by_cases hsame : other = sessionID
        · rw [hsame, Function.update_self, if_pos rfl, ← hmore, List.map_append]
        · rw [Function.update_of_ne hsame, if_neg (Ne.symm hsame), List.append_nil]

/-- **The fight sees messages, not bytes.**  Whatever chunks the streams of the sessions come
in and however their completions interleave with the other calls, a run of the wired fight is
a run of the fight over its events, with what it asks for; the requests of a session are
those of its payloads in order, and of all of them once its stream has come. -/
theorem wired_refines (hzero : start.fight.contentsNum ≠ 0)
    (hmove : start.fight.contentsNum ≠ ContentLib.CONMOV)
    (hstart : ∀ sessionID, InStep (payloads sessionID) (start.receivers sessionID))
    (labels : List WiredLabel) (hrun : exec step start labels = some w) :
    w.fight = fightRun start.fight (start.events labels) ∧
      w.asked = start.asked ++ answers fightStep start.fight (start.events labels) ∧
      ∀ sessionID, ∃ left,
        (payloads sessionID).map (fun payload => CSMessage.ofPayload payload.val) =
          (start.receivers sessionID).handed.map CSMessage.ofPayload ++
            requestsOf sessionID (start.events labels) ++ left ∧
        ((w.receivers sessionID).incoming = [] → left = []) := by
  obtain ⟨hfight, hasked⟩ := step_expands.run hrun
  have hhistory : InHistory start payloads w ([] ++ start.events labels) :=
    calls_history (fun _ _ _ _ h hstep => h.step hzero hmove hstep)
      ⟨rfl, hstart, fun _ => (List.append_nil _).symm⟩ hrun
  refine ⟨hfight, hasked, fun sessionID => ?_⟩
  obtain ⟨taken, left, hpayloads, hhanded, hall, hunfinished⟩ :=
    (hhistory.inStep sessionID).split
  refine ⟨left.map fun payload => CSMessage.ofPayload payload.val, ?_, fun hend => ?_⟩
  · have hrequests := hhistory.requests sessionID
    rw [List.nil_append, hhanded, List.map_map] at hrequests
    rw [← hrequests, hpayloads, List.map_append]
    rfl
  · rw [hend, List.append_nil, ← lanFraming_stream] at hall
    obtain ⟨rfl, _⟩ := hunfinished.nil_of_eq hall
    rfl

end Wired

/-- A request to walk and one to strike; the second has bytes behind its fields. -/
def walkAndStrike : List Payload :=
  [⟨[10, 4, 40, 0, 90, 0], by simp [PayloadSize]⟩,
    ⟨[24, 4, 40, 0, 90, 0, 7, 7], by simp [PayloadSize]⟩]

/-- A request to stop that has lost its last bytes. -/
def cutStop : List Payload := [⟨[12, 0, 88], by simp [PayloadSize]⟩]

def wiredPayloads (sessionID : SessionID) : List Payload :=
  if sessionID = firstSession 0 then walkAndStrike
  else if sessionID = firstSession 3 then cutStop else []

def firstWired : Wired where
  fight := firstStarted
  receivers sessionID :=
    Receiver.accepted (fun _ => 0) ((wiredPayloads sessionID).map Subtype.val)
  asked := []

/-- So many bytes come for the `i`-th session. -/
def arrive (i cbTransferred : Nat) : WiredLabel :=
  .complete (firstSession i) cbTransferred (fun _ => ⟨Common.SBuffer.new fun _ => 255, rfl⟩)
    (fun _ => 255) fun _ => 1000

/-- The streams come in pieces, one between the pieces of the other. -/
def firstArrivals : List WiredLabel :=
  [arrive 0 3, arrive 3 4, .call (.update 20), arrive 0 6, arrive 3 1, arrive 0 9]

theorem firstArrivals_refined :
    ∃ w, exec Wired.step firstWired firstArrivals = some w ∧
      w.fight = fightRun firstStarted (firstWired.events firstArrivals) ∧
      requestsOf (firstSession 0) (firstWired.events firstArrivals) =
        [.moveStart 4 40 90, .attack .attack3 4 40 90] ∧
      requestsOf (firstSession 3) (firstWired.events firstArrivals) = [.moveStop 0 0 0] := by
  have hrun : ∃ w ∈ exec Wired.step firstWired firstArrivals,
      (w.receivers (firstSession 0)).incoming = [] ∧
        (w.receivers (firstSession 3)).incoming = [] := by
    decide +kernel
  obtain ⟨w, hw, hred, hblue⟩ := hrun
  obtain ⟨hfight, _, hrequests⟩ := @Wired.wired_refines firstWired w wiredPayloads
    (by decide +kernel) (by decide +kernel)
    (fun sessionID => inStep_accepted _ (wiredPayloads sessionID)) firstArrivals hw
  obtain ⟨left, hall, hnone⟩ := hrequests (firstSession 0)
  obtain ⟨left', hall', hnone'⟩ := hrequests (firstSession 3)
  rw [hnone hred, List.append_nil] at hall
  rw [hnone' hblue, List.append_nil] at hall'
  refine ⟨w, hw, hfight, hall.symm.trans ?_, hall'.symm.trans ?_⟩
  · decide +kernel
  · decide +kernel

end SessionServer.Battle
