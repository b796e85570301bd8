/-
  Battle/BansRun.lean --- the server behind the bans.

  `Gate` accepts and releases a session in one step.  Here the slots are those of
  `ContentLib/ContentsServer.lean`, where `AcceptThread`, `Release` and the workers interleave;
  each slot has with it the address of its client and the `Connection` that is received on.
  A run of that server is a run of the gate: a connection is accepted where `AcceptThread` takes
  its index, and released where `Release` gives it back.
-/
import SessionServer.Foundation.Expansion
import SessionServer.ContentLib.SessionIDs
import SessionServer.ContentLib.SlotRun
import SessionServer.Battle.Bans

set_option autoImplicit false

namespace SessionServer.ContentLib

open SessionServer.Foundation ContentLib.Frame ContentsServer

/-! ## Indexes, IDs and keys -/

namespace Frame

/-- `AcceptThread` with a slot, before it stores the session ID. -/
def unidentified : Frame → Nat
  | accept _ .sessionCount => 1
  | accept _ .clear => 1
  | accept _ .clearTake => 1
  | accept _ (.clearDrop _) => 1
  | accept _ .clearRestore => 1
  | accept _ .sessionID => 1
  | _ => 0

/-- `AcceptThread` with a slot, before it increments `_sessionKey`. -/
def promised : Frame → Nat
  | accept _ .onAccept => 0
  | accept _ .enter => 0
  | accept _ .wsaRecv => 0
  | accept _ _ => 1
  | _ => 0

theorem unidentified_le_owns (frame : Frame) : frame.unidentified ≤ 1 * frame.owns := by
  unfold unidentified
  split <;> first | exact Nat.le_refl _ | exact Nat.zero_le _

theorem unidentified_le_accepting (frame : Frame) :
    frame.unidentified ≤ 1 * frame.accepting := by
  unfold unidentified
  split <;> first | exact Nat.le_refl _ | exact Nat.zero_le _

theorem promised_le_accepting (frame : Frame) : frame.promised ≤ 1 * frame.accepting := by
  unfold promised
  split <;> first | exact Nat.le_refl _ | exact Nat.zero_le _

end Frame

variable {cfg : Config} {s s' : ContentsServer} {frame : Frame} {frames : List Frame}

/-- A step that neither takes a slot, nor stores an ID, nor increments the key. -/
theorem runFrame_steady (hpop : frame ≠ .pop) (hid : ∀ i, frame ≠ .accept i .sessionID)
    (hkey : ∀ i, frame ≠ .accept i .sessionKey) (now : UInt64) (outcome : Outcome) :
    ((s.runFrame cfg now outcome frame).2.map unidentified).sum = frame.unidentified ∧
      ((s.runFrame cfg now outcome frame).2.map promised).sum = frame.promised := by
  have hother : frame.accepting = 0 →
      ((s.runFrame cfg now outcome frame).2.map unidentified).sum = 0 ∧
        ((s.runFrame cfg now outcome frame).2.map promised).sum = 0 := by
    intro hzero
    have hnext : ∀ next ∈ (s.runFrame cfg now outcome frame).2, next.accepting = 0 :=
      fun next hnext => (runFrame_next hnext).accepting hzero
    refine ⟨sum_map_zero fun next hmem => ?_, sum_map_zero fun next hmem => ?_⟩
    · have hzero := hnext next hmem
      cases next <;> first | rfl | simp [accepting] at hzero
    · have hzero := hnext next hmem
      cases next <;> first | rfl | simp [accepting] at hzero
  cases frame with
  | pop => exact absurd rfl hpop
  | accept i pc =>
      cases pc with
      | sessionID => exact absurd rfl (hid i)
      | sessionKey => exact absurd rfl (hkey i)
      | _ =>
          simp only [ContentsServer.runFrame, ContentsServer.acceptStep]
          try split
          all_goals simp [unidentified, promised]
  | _ => exact hother rfl

/-- The free indexes change where one is taken or given back. -/
theorem Ran.indexArray_eq (h : Ran cfg s frame s' frames) (hpop : frame ≠ .pop)
    (hpush : ∀ i, frame ≠ .release i .push) : s'.indexArray = s.indexArray := by
  cases h with
  | quiet frame s' frames hsame hfollows hrest hholds => exact hsame.indexArray
  | push i => exact absurd rfl (hpush i)
  | pop i rest hindex => exact absurd rfl hpop
  | _ => rfl

theorem Ran.issued_eq (h : Ran cfg s frame s' frames) (hframe : ∀ i, frame ≠ .accept i .onAccept) :
    s'.issued = s.issued := by
  cases h with
  | quiet frame s' frames hsame hfollows hrest hholds => exact hsame.issued
  | onAccept i => exact absurd rfl (hframe i)
  | _ => rfl

/-- The sessions whose indexes have been given back. -/
theorem Ran.pushed_iff (h : Ran cfg s frame s' frames) (hpush : ∀ i, frame ≠ .release i .push)
    (id : SessionID) : Event.push ∈ s'.history id ↔ Event.push ∈ s.history id := by
  have hrecord : ∀ (u : ContentsServer) (named : SessionID) (event : Event),
      event ≠ .push → u.history = s.history →
      (Event.push ∈ (u.record named event).history id ↔ Event.push ∈ s.history id) := by
    intro u named event hevent hhistory
    simp only [ContentsServer.record, hhistory]
    by_cases hid : id = named
    · subst hid
      simp [hevent.symm]
    · rw [Function.update_of_ne hid]
  cases h with
  | quiet frame s' frames hsame hfollows hrest hholds => rw [hsame.history]
  | push i => exact absurd rfl (hpush i)
  | cas i hzero => exact hrecord _ _ _ (by simp) rfl
  | onRelease i => exact hrecord _ _ _ (by simp) rfl
  | onAccept i => exact hrecord _ _ _ (by simp) rfl
  | _ => rfl

/-- While `AcceptThread` has a client, the frame it is at carries all that it weighs. -/
theorem Single.total_zero (h : Single s) {w : Frame → Nat}
    (hw : ∀ frame, w frame ≤ 1 * frame.accepting) {t : Nat} {rest : List Frame}
    (hstack : s.threads[t]? = some (frame :: rest)) (hframe : frame.accepting = 1)
    (hzero : w frame = 0) : total w s.threads = 0 := by
  refine total_eq_zero fun other hother => ?_
  by_contra hne
  have haccepting : other.accepting = 1 := by
    have hle := hw other
    have hone : other.accepting ≤ 1 := by cases other <;> simp [accepting]
    omega
  rw [h.only hstack hframe hother haccepting] at hne
  exact hne hzero

/-- While `AcceptThread` is at a frame that does not wait for an ID, no slot does. -/
theorem Single.tally_unidentified (h : Single s) {t : Nat} {rest : List Frame}
    (hstack : s.threads[t]? = some (frame :: rest)) (hframe : frame.accepting = 1)
    (hzero : frame.unidentified = 0) (i : Nat) : s.tally unidentified i = 0 := by
  refine h.total_zero (fun other => ?_) hstack hframe ?_
  · refine (weightAt_le_mul unidentified_le_accepting i other).trans ?_
    unfold weightAt
    split <;> omega
  · rw [weightAt, hzero, ite_self]

namespace ContentsServer

/-- The ID of the session of a slot that is taken, or the one it is about to get. -/
def idOf (s : ContentsServer) (i : Nat) : SessionID :=
  if s.tally unidentified i = 0 then (s.sessionArray i).sessionID else ⟨i, s.sessionKey⟩

/-- A steady step keeps the IDs. -/
theorem idOf_run (hpop : frame ≠ .pop) (hid : ∀ i, frame ≠ .accept i .sessionID)
    (hkey : ∀ i, frame ≠ .accept i .sessionKey) (now : UInt64) (outcome : Outcome) {t : Nat}
    {rest : List Frame} (hstack : s.threads[t]? = some (frame :: rest)) (i : Nat) :
    ((s.runFrame cfg now outcome frame).1.start t
      ((s.runFrame cfg now outcome frame).2 ++ rest)).idOf i = s.idOf i := by
  have hran : Ran cfg s frame _ _ := runFrame_ran now outcome frame
  have hsum : ((s.runFrame cfg now outcome frame).2.map unidentified).sum = frame.unidentified :=
    (runFrame_steady hpop hid hkey now outcome).1
  have htally : ((s.runFrame cfg now outcome frame).1.start t
      ((s.runFrame cfg now outcome frame).2 ++ rest)).tally unidentified i =
        s.tally unidentified i := by
    cases hslot : frame.slot with
    | some j =>
        have hslots : ∀ next ∈ (s.runFrame cfg now outcome frame).2, next.slot = some j :=
          runFrame_slot hslot
        have := tally_run_slot hstack hran.threads hslot hslots unidentified i
        rw [hsum] at this
        omega
    | none =>
        have hzero : frame.unidentified = 0 := by
          cases frame <;> first | rfl | simp [Frame.slot] at hslot
        rw [hzero] at hsum
        refine tally_run_zero hstack hran.threads hzero (fun next hnext => ?_) i
        exact List.sum_eq_zero_iff.mp hsum _ (List.mem_map_of_mem hnext)
  have hsessionKey : (s.runFrame cfg now outcome frame).1.sessionKey = s.sessionKey := by
    rcases hran.sessionKey_eq with hsame | ⟨j, hframe, _⟩
    · exact hsame
    · exact absurd hframe (hkey j)
  have hsessionID : ((s.runFrame cfg now outcome frame).1.sessionArray i).sessionID =
      (s.sessionArray i).sessionID := by
    rcases hran.sessionID i with hsame | ⟨hframe, _⟩
    · exact hsame
    · exact absurd hframe (hid i)
  unfold idOf
  rw [htally]
  show (if _ then ((s.runFrame cfg now outcome frame).1.sessionArray i).sessionID
    else ⟨i, (s.runFrame cfg now outcome frame).1.sessionKey⟩) = _
  rw [hsessionID, hsessionKey]

/-- `AcceptThread` stores the ID its slot was to get. -/
theorem idOf_identify (hsound : Sound cfg s) {t j : Nat} {rest : List Frame}
    (hstack : s.threads[t]? = some (.accept j .sessionID :: rest)) (i : Nat) :
    ((s.modify j fun x => { x with sessionID := ⟨j, s.sessionKey⟩ }).start t
      ([.accept j .time] ++ rest)).idOf i = s.idOf i := by
  obtain ⟨_, howner, _⟩ := hsound.owner (present_of_getElem? hstack List.mem_cons_self) rfl rfl
  have hone : s.tally unidentified j = 1 :=
    tally_of_owner unidentified_le_owns hstack rfl howner
  have htally : ((s.modify j fun x => { x with sessionID := ⟨j, s.sessionKey⟩ }).start t
      ([.accept j .time] ++ rest)).tally unidentified i + (if j = i then 1 else 0) =
        s.tally unidentified i + if j = i then 0 else 0 :=
    tally_run_slot hstack rfl rfl (by simp [Frame.slot]) unidentified i
  unfold idOf
  by_cases hij : j = i
  · subst hij
    rw [if_pos rfl, if_pos rfl, hone] at htally
    rw [if_pos (by omega), if_neg (by omega), start_sessionArray, modify_self]
  · rw [if_neg hij, if_neg hij] at htally
    rw [Nat.add_zero, Nat.add_zero] at htally
    rw [htally, start_sessionArray, s.modify_of_ne (Ne.symm hij)]
    rfl

/-- Where `AcceptThread` increments the key, no slot is about to get it. -/
theorem idOf_nextKey (hsingle : Single s) {t j : Nat} {rest : List Frame}
    (hstack : s.threads[t]? = some (.accept j .sessionKey :: rest)) (i : Nat) :
    (({ s with sessionKey := s.sessionKey + 1 } : ContentsServer).start t
      ([.accept j .onAccept] ++ rest)).idOf i = s.idOf i := by
  have hzero := hsingle.tally_unidentified hstack rfl rfl i
  have htally : (({ s with sessionKey := s.sessionKey + 1 } : ContentsServer).start t
      ([.accept j .onAccept] ++ rest)).tally unidentified i = s.tally unidentified i :=
    tally_run_zero hstack rfl rfl (by simp [unidentified]) i
  unfold idOf
  rw [htally, if_pos hzero, if_pos hzero]
  rfl

/-- A step that takes no slot keeps the key that is next. -/
theorem nextKey_run (hpop : frame ≠ .pop) (now : UInt64) (outcome : Outcome) {t : Nat}
    {rest : List Frame} (hstack : s.threads[t]? = some (frame :: rest)) :
    (s.runFrame cfg now outcome frame).1.sessionKey +
        total promised (s.threads.set t ((s.runFrame cfg now outcome frame).2 ++ rest)) =
      s.sessionKey + total promised s.threads := by
  have hran : Ran cfg s frame _ _ := runFrame_ran now outcome frame
  have htotal := total_set_cons (w := promised) (s.runFrame cfg now outcome frame).2 hstack
  by_cases hkey : ∃ i, frame = .accept i .sessionKey
  · obtain ⟨i, rfl⟩ := hkey
    simp only [runFrame, acceptStep, List.map_cons, List.map_nil, List.sum_cons, List.sum_nil,
      promised] at htotal ⊢
    omega
  · have hsum : ((s.runFrame cfg now outcome frame).2.map promised).sum = frame.promised := by
      by_cases hid : ∃ i, frame = .accept i .sessionID
      · obtain ⟨i, rfl⟩ := hid
        rfl
      · exact (runFrame_steady hpop (fun i hi => hid ⟨i, hi⟩) (fun i hi => hkey ⟨i, hi⟩) now
          outcome).2
    rcases hran.sessionKey_eq with hsame | ⟨i, hframe, _⟩
    · omega
    · exact absurd ⟨i, hframe⟩ hkey

/-- A step that takes no slot keeps the IDs. -/
theorem idOf_eq (hsound : Sound cfg s) (hsingle : Single s) (hpop : frame ≠ .pop) (now : UInt64)
    (outcome : Outcome) {t : Nat} {rest : List Frame}
    (hstack : s.threads[t]? = some (frame :: rest)) (i : Nat) :
    ((s.runFrame cfg now outcome frame).1.start t
      ((s.runFrame cfg now outcome frame).2 ++ rest)).idOf i = s.idOf i := by
  by_cases hid : ∃ j, frame = .accept j .sessionID
  · obtain ⟨j, rfl⟩ := hid
    exact idOf_identify hsound hstack i
  · by_cases hkey : ∃ j, frame = .accept j .sessionKey
    · obtain ⟨j, rfl⟩ := hkey
      exact idOf_nextKey hsingle hstack i
    · exact idOf_run hpop (fun j hj => hid ⟨j, hj⟩) (fun j hj => hkey ⟨j, hj⟩) now outcome hstack i

end ContentsServer

end SessionServer.ContentLib

namespace SessionServer.Battle

open SessionServer.ContentLib SessionServer.Foundation ContentLib.Frame

/-! ## The server with its clients -/

/-- The slots, the clients they were taken for, what is received on them, and the bans. -/
structure Host where
  server : ContentsServer
  clientAddr : Nat → SockAddrIn
  connection : Nat → ContentLib.Connection
  banSet : List SockAddrIn

/-- What happens next: a step of the slots, with the client in case it is the one that takes an
index; bytes that come to worker `t` in `RecvCompletion`, or a round of its loop. -/
inductive HostLabel where
  | server (step : ContentLib.Step) (clientAddr : SockAddrIn) (memory : Int → UInt8)
      (stream : List UInt8)
  | complete (t cbTransferred : Nat)
  | round (t : Nat) (msgbuf : PooledBuffer)

namespace Host

/-- The slot whose `RecvCompletion` worker `t` is in. -/
def receives (s : Host) (t : Nat) : Option Nat :=
  match s.server.threads[t]? with
  | some (.recv i .user :: _) => some i
  | _ => none

/-- The worker would leave `RecvCompletion` within its loop. -/
def leavesLoop (s : Host) (step : ContentLib.Step) : Bool :=
  match s.server.top step with
  | some (.recv i .user) => (s.connection i).running.isSome
  | _ => false

/-- `AcceptThread` empties the ring of its slot and stores the address there. -/
def taken (s : Host) (clientAddr : SockAddrIn) (connection : ContentLib.Connection) : Host :=
  match s.server.indexArray with
  | [] => s
  | i :: _ =>
      { s with
          clientAddr := Function.update s.clientAddr i clientAddr
          connection := Function.update s.connection i connection }

/-- A step of the slots with a client. -/
def advanced (s : Host) (step : ContentLib.Step) (clientAddr : SockAddrIn)
    (connection : ContentLib.Connection) (server : ContentsServer) : Host :=
  if s.server.top step = some .pop then { s.taken clientAddr connection with server := server }
  else { s with server := server }

def recv (cfg : GateConfig) (s : Host) (i : Nat) (label : RecvLabel) : Option Host :=
  ((s.connection i).step cfg.recv label).map fun connection =>
    { s with
        connection := Function.update s.connection i connection
        banSet :=
          match label with
          | .complete _ _ => s.banSet
          | .round msgbuf =>
              if (s.connection i).unusual cfg.recv msgbuf then s.banSet.insert (s.clientAddr i)
              else s.banSet }

def step (slots : Config) (cfg : GateConfig) (s : Host) : HostLabel → Option Host
  | .server step clientAddr memory stream =>
      if s.leavesLoop step then none
      else
        (serverStep slots s.server step).map
          (s.advanced step clientAddr (.accepted memory stream))
  | .complete t cbTransferred =>
      (s.receives t).bind fun i =>
        s.recv cfg i (.complete cbTransferred (s.server.sessionArray i).contentsNum)
  | .round t msgbuf => (s.receives t).bind fun i => s.recv cfg i (.round msgbuf)

/-- A session of the gate. -/
def session (s : Host) (i : Nat) : AcceptedSession :=
  ⟨s.server.idOf i, s.clientAddr i, s.connection i⟩

/-- What a step is to the gate. -/
def gateLabels (s : Host) : HostLabel → List GateLabel
  | .server step clientAddr memory stream =>
      match s.server.top step with
      | some .pop => [.accept clientAddr memory stream]
      | some (.release i .push) => [.release i]
      | _ => []
  | .complete t cbTransferred =>
      (s.receives t).toList.map fun i =>
        .recv i (.complete cbTransferred (s.server.sessionArray i).contentsNum)
  | .round t msgbuf => (s.receives t).toList.map fun i => .recv i (.round msgbuf)

end Host

/-- The server after `Setting`, with any number of threads. -/
def startedHost (slots : Config) (others : Nat) : Host where
  server := startedServer slots others
  clientAddr _ := ⟨0, 0⟩
  connection _ := .accepted (fun _ => 0) []
  banSet := []

/-- A sweep disconnects accepted slots only. -/
def Host.SweepsAccepted (slots : Config) (s : Host) : HostLabel → Prop
  | .server step _ _ _ => ContentLib.SweepsAccepted slots s.server step
  | _ => True

instance (slots : Config) (s : Host) :
    (label : HostLabel) → Decidable (s.SweepsAccepted slots label)
  | .server _ _ _ _ => inferInstanceAs (Decidable (ContentLib.SweepsAccepted _ _ _))
  | .complete _ _ => inferInstanceAs (Decidable True)
  | .round _ _ => inferInstanceAs (Decidable True)

/-! ## The gate of a server -/

/-- **The gate of a server**: its indexes, its key, the sessions of the slots that are taken and
its bans; of what it has called, `OnAccept` is at most ahead of the server. -/
structure Shadows (slots : Config) (t : Host) (g : Gate) : Prop where
  indexArray : g.indexArray = t.server.indexArray
  sessionKey : g.sessionKey = t.server.sessionKey + total promised t.server.threads
  sessions : ∀ i < slots.maxUser, i ∉ t.server.indexArray →
    g.sessionArray i = some (t.session i) ∧
      .onAccept (t.clientAddr i) (t.server.idOf i) ∈ g.events
  banSet : g.banSet = t.banSet
  accepted : ∀ id ∈ t.server.issued, ∃ clientAddr, .onAccept clientAddr id ∈ g.events
  released : ∀ id, .onRelease id ∈ g.events ↔ ContentLib.Event.push ∈ t.server.history id

/-- A loop of `RecvCompletion` runs in a worker. -/
def Host.Attended (t : Host) : Prop :=
  ∀ i, (t.connection i).running ≠ none → Present t.server.threads (.recv i .user)

variable {slots : Config} {cfg : GateConfig} {t : Host} {g : Gate}

theorem shadows_started (others : Nat) :
    Shadows slots (startedHost slots others) (Gate.start slots.maxUser) where
  indexArray := rfl
  sessionKey := by
    show 1 = 1 + total promised (List.replicate (2 + others) [])
    rw [total_replicate_nil]
  sessions i hi hfree := absurd (List.mem_range.mpr hi) hfree
  banSet := rfl
  accepted id hid := absurd hid List.not_mem_nil
  released id := by simp [startedHost, startedServer, Gate.start]

/-- A slot with a session that is in use is taken. -/
theorem taken_of_live {s : ContentsServer} (hsound : Sound slots s) {i : Nat}
    (hlive : (s.sessionArray i).live = 1) : i < slots.maxUser ∧ i ∉ s.indexArray := by
  have htoken := hsound.token i
  rw [← List.count_eq_zero]
  split at htoken <;> omega

/-! ## One step -/

/-- A step of the slots that neither takes an index nor gives one back. -/
theorem Shadows.run (hshadows : Shadows slots t g) (hsound : Sound slots t.server)
    (hsingle : Single t.server) {k : Nat} {frame : Frame} {rest : List Frame}
    (hstack : t.server.threads[k]? = some (frame :: rest)) (hpop : frame ≠ .pop)
    (hpush : ∀ i, frame ≠ .release i .push) (now : UInt64) (outcome : Outcome) :
    Shadows slots
      { t with
          server := (t.server.runFrame slots now outcome frame).1.start k
            ((t.server.runFrame slots now outcome frame).2 ++ rest) } g := by
  have hran : Ran slots t.server frame _ _ := runFrame_ran now outcome frame
  have hindex := hran.indexArray_eq hpop hpush
  have hid := ContentsServer.idOf_eq hsound hsingle hpop now outcome hstack
  refine ⟨hshadows.indexArray.trans hindex.symm, ?_, fun i hi hfree => ?_, hshadows.banSet,
    ?_, fun id => ?_⟩
  · have hkey : (t.server.runFrame slots now outcome frame).1.sessionKey + _ = _ :=
      ContentsServer.nextKey_run hpop now outcome hstack
    rw [hshadows.sessionKey, ← hkey, ← hran.threads]
    rfl
  · have hsession := hshadows.sessions i hi (hindex ▸ hfree)
    rw [Host.session, hid]
    exact hsession
  · by_cases haccept : ∃ i, frame = .accept i .onAccept
    · obtain ⟨i, rfl⟩ := haccept
      have hpresent : Present t.server.threads (.accept i .onAccept) :=
        present_of_getElem? hstack List.mem_cons_self
      obtain ⟨hi, hfree⟩ := taken_of_live hsound (hsound.live_of_confirmed hpresent rfl rfl)
      have hnamed : t.server.idOf i = (t.server.sessionArray i).sessionID :=
        if_pos (hsingle.tally_unidentified hstack rfl rfl i)
      intro id hmem
      rcases List.mem_cons.mp hmem with rfl | hold
      · exact ⟨_, hnamed ▸ (hshadows.sessions i hi hfree).2⟩
      · exact hshadows.accepted id hold
    · intro id hmem
      refine hshadows.accepted id ?_
      rw [← hran.issued_eq fun i hi => haccept ⟨i, hi⟩]
      exact hmem
  · rw [hshadows.released, ← hran.pushed_iff hpush]
    rfl

/-- `AcceptThread` takes an index, or finds none. -/
theorem Shadows.pop (hshadows : Shadows slots t g) (hsingle : Single t.server) {k : Nat}
    {rest : List Frame} (hstack : t.server.threads[k]? = some (.pop :: rest)) (now : UInt64)
    (outcome : Outcome) (clientAddr : SockAddrIn) (connection : ContentLib.Connection) :
    Shadows slots
      { t.taken clientAddr connection with
          server := (t.server.runFrame slots now outcome .pop).1.start k
            ((t.server.runFrame slots now outcome .pop).2 ++ rest) }
      (g.acceptThread clientAddr connection) := by
  have hnone : total promised t.server.threads = 0 :=
    hsingle.total_zero promised_le_accepting hstack rfl rfl
  -- The frame is at no slot before the step.
  have htally : ∀ (server : ContentsServer) (frames : List Frame) (j : Nat),
      server.threads = t.server.threads →
      (server.start k (frames ++ rest)).tally unidentified j =
        t.server.tally unidentified j + (frames.map (weightAt unidentified j)).sum :=
    fun server frames j hthreads => tally_run frames hstack hthreads unidentified j
  have htotal : ∀ frames : List Frame,
      total promised (t.server.threads.set k (frames ++ rest)) = (frames.map promised).sum := by
    intro frames
    have := total_set_cons (w := promised) frames hstack
    simp only [hnone, promised] at this
    omega
  cases hindex : t.server.indexArray with
  | nil =>
      have hkept : g.acceptThread clientAddr connection = g := by
        rw [Gate.acceptThread, hshadows.indexArray, hindex]
      have hid : ∀ j, (t.server.start k ([] ++ rest)).idOf j = t.server.idOf j := by
        intro j
        unfold ContentsServer.idOf
        rw [htally t.server [] j rfl]
        rfl
      rw [hkept]
      simp only [Host.taken, hindex, ContentsServer.runFrame, ContentsServer.popStep]
      refine ⟨hshadows.indexArray, ?_, fun j hj hfree => ?_, hshadows.banSet, hshadows.accepted,
        hshadows.released⟩
      · show g.sessionKey =
          t.server.sessionKey + total promised (t.server.threads.set k ([] ++ rest))
        rw [hshadows.sessionKey, htotal, hnone]
        rfl
      · rw [Host.session, hid]
        exact hshadows.sessions j hj hfree
  | cons i indices =>
      have htaken : g.indexArray = i :: indices := hshadows.indexArray.trans hindex
      have hkey : g.sessionKey = t.server.sessionKey := by
        rw [hshadows.sessionKey, hnone, Nat.add_zero]
      simp only [Gate.acceptThread, Host.taken, htaken, hindex, ContentsServer.runFrame,
        ContentsServer.popStep]
      have hid : ∀ j, (({ t.server with indexArray := indices } : ContentsServer).start k
          ([.accept i .sessionCount] ++ rest)).idOf j =
            if i = j then ⟨i, t.server.sessionKey⟩ else t.server.idOf j := by
        intro j
        unfold ContentsServer.idOf
        rw [htally { t.server with indexArray := indices } _ j rfl]
        by_cases hij : i = j
        · subst hij
          simp [weightAt, Frame.slot, unidentified, ContentsServer.start]
        · simp [weightAt, Frame.slot, hij, ContentsServer.start]
      refine ⟨rfl, ?_, fun j hj hfree => ?_, hshadows.banSet, fun id hmem => ?_, fun id => ?_⟩
      · show g.sessionKey + 1 = t.server.sessionKey +
          total promised (t.server.threads.set k ([.accept i .sessionCount] ++ rest))
        rw [htotal, hkey]
        rfl
      · dsimp only [Host.session]
        rw [hid, hkey]
        by_cases hij : i = j
        · subst hij
          simp
        · have hsession := hshadows.sessions j hj (by
            rw [hindex, List.mem_cons]
            exact not_or.mpr ⟨fun heq => hij heq.symm, hfree⟩)
          rw [if_neg hij, Function.update_of_ne (Ne.symm hij), Function.update_of_ne (Ne.symm hij),
            Function.update_of_ne (Ne.symm hij)]
          exact ⟨hsession.1, List.mem_append_left _ hsession.2⟩
      · obtain ⟨addr, haddr⟩ := hshadows.accepted id hmem
        exact ⟨addr, List.mem_append_left _ haddr⟩
      · rw [List.mem_append, hshadows.released]
        simp [ContentsServer.start]

/-- `Release` gives an index back. -/
theorem Shadows.push (hshadows : Shadows slots t g) (hsound : Sound slots t.server)
    (hattended : t.Attended) {k i : Nat} {rest : List Frame}
    (hstack : t.server.threads[k]? = some (.release i .push :: rest)) (now : UInt64)
    (outcome : Outcome) :
    ∃ g', g.step cfg (.release i) = some g' ∧
      Shadows slots
        { t with
            server := (t.server.runFrame slots now outcome (.release i .push)).1.start k
              ((t.server.runFrame slots now outcome (.release i .push)).2 ++ rest) } g' := by
  have hpresent : Present t.server.threads (.release i .push) :=
    present_of_getElem? hstack List.mem_cons_self
  obtain ⟨hcount, howner, hlive, hi⟩ := hsound.owner hpresent rfl rfl
  have harmed := (hsound.placed _ hpresent).armed rfl i rfl
  have hname := hsound.named i harmed
  have hzero : t.server.tally unidentified i = 0 :=
    tally_of_owner unidentified_le_owns hstack rfl howner
  have hid : t.server.idOf i = (t.server.sessionArray i).sessionID := if_pos hzero
  obtain ⟨hsession, _⟩ := hshadows.sessions i hi (List.count_eq_zero.mp hcount)
  -- Nothing is received on a slot that `Release` has.
  have hidle : (t.connection i).running = none := by
    by_contra hruns
    have := hsound.live_of_confirmed (hattended i hruns) rfl rfl
    omega
  refine ⟨g.release i (t.session i), ?_, ?_⟩
  · simp only [Gate.step, hsession, Option.bind_some, Host.session, hidle, if_true]
  · have hsteady : ∀ j, ((t.server.runFrame slots now outcome (.release i .push)).1.start k
        ((t.server.runFrame slots now outcome (.release i .push)).2 ++ rest)).idOf j =
          t.server.idOf j :=
      ContentsServer.idOf_run (by simp) (by simp) (by simp) now outcome hstack
    have hkey : (t.server.runFrame slots now outcome (.release i .push)).1.sessionKey + _ = _ :=
      ContentsServer.nextKey_run (by simp) now outcome hstack
    refine ⟨?_, ?_, fun j hj hfree => ?_, hshadows.banSet, fun id hmem => ?_, fun id => ?_⟩
    · show i :: g.indexArray = findSession _ :: t.server.indexArray
      rw [findSession, hname, hshadows.indexArray]
    · show g.sessionKey = _
      rw [hshadows.sessionKey, ← hkey]
      rfl
    · simp only [Host.session, hsteady]
      have hother : j ∉ findSession (t.server.sessionArray i).sessionID :: t.server.indexArray :=
        hfree
      rw [findSession, hname, List.mem_cons, not_or] at hother
      obtain ⟨hself, hevent⟩ := hshadows.sessions j hj hother.2
      refine ⟨?_, List.mem_append_left _ hevent⟩
      exact (Function.update_of_ne hother.1 _ _).trans hself
    · obtain ⟨addr, haddr⟩ := hshadows.accepted id hmem
      exact ⟨addr, List.mem_append_left _ haddr⟩
    · show .onRelease id ∈ g.events ++ [.onRelease (t.server.idOf i)] ↔
        ContentLib.Event.push ∈ Function.update t.server.history (t.server.sessionArray i).sessionID
          (t.server.history (t.server.sessionArray i).sessionID ++ [.push]) id
      rw [hid, List.mem_append, hshadows.released]
      by_cases hsame : id = (t.server.sessionArray i).sessionID
      · subst hsame
        simp
      · rw [Function.update_of_ne hsame]
        simp [hsame]

/-- A function starts on a stack. -/
theorem Shadows.start (hshadows : Shadows slots t g) {k : Nat} {stack : List Frame}
    {first : Frame} {u : ContentsServer} (hstack : t.server.threads[k]? = some stack)
    (hbegan : Began t.server u first) (hkey : u.sessionKey = t.server.sessionKey) :
    Shadows slots { t with server := u.start k (first :: stack) } g := by
  have hzero : first.unidentified = 0 ∧ first.promised = 0 := by
    have hbegins := hbegan.begins
    cases first <;> first | exact ⟨rfl, rfl⟩ | simp [Frame.begins] at hbegins
  have htotal := total_set_append (w := promised) [first] hstack
  have hid : ∀ i, (u.start k (first :: stack)).idOf i = t.server.idOf i := by
    intro i
    obtain ⟨io, _, hsession⟩ := hbegan.session i
    unfold ContentsServer.idOf
    rw [tally_start_zero hstack hbegan.threads hzero.1]
    show (if _ then (u.sessionArray i).sessionID else ⟨i, u.sessionKey⟩) = _
    rw [hsession, hkey]
  refine ⟨hshadows.indexArray.trans hbegan.indexArray.symm, ?_, fun i hi hfree => ?_,
    hshadows.banSet, fun id hmem => ?_, fun id => ?_⟩
  · show g.sessionKey = u.sessionKey + total promised (u.threads.set k ([first] ++ stack))
    rw [hshadows.sessionKey, hkey, hbegan.threads, htotal]
    simp [hzero.2]
  · rw [Host.session, hid]
    refine hshadows.sessions i hi ?_
    rw [← hbegan.indexArray]
    exact hfree
  · refine hshadows.accepted id ?_
    rw [← hbegan.issued]
    exact hmem
  · rw [hshadows.released, ← hbegan.history]
    rfl

theorem present_of_receives {k i : Nat} (h : t.receives k = some i) :
    Present t.server.threads (.recv i .user) := by
  unfold Host.receives at h
  split at h
  · rename_i hstack
    rw [Option.some.injEq] at h
    subst h
    exact present_of_getElem? hstack List.mem_cons_self
  · cases h

/-- `RecvCompletion` goes on. -/
theorem Shadows.recv (hshadows : Shadows slots t g) (hsound : Sound slots t.server) {k i : Nat}
    (hreceives : t.receives k = some i) {label : RecvLabel} {u : Host}
    (hrecv : t.recv cfg i label = some u) :
    ∃ g', g.step cfg (.recv i label) = some g' ∧ Shadows slots u g' := by
  obtain ⟨hi, hfree⟩ :=
    taken_of_live hsound (hsound.live_of_confirmed (present_of_receives hreceives) rfl rfl)
  obtain ⟨hsession, hevent⟩ := hshadows.sessions i hi hfree
  obtain ⟨connection, hconnection, rfl⟩ := Option.map_eq_some_iff.mp hrecv
  have hupdated : ∀ (v : Gate), v.sessionArray = Function.update g.sessionArray i
      (some { t.session i with connection := connection }) → g.events ⊆ v.events →
      ∀ j < slots.maxUser, j ∉ t.server.indexArray →
        v.sessionArray j =
            some ⟨t.server.idOf j, t.clientAddr j, Function.update t.connection i connection j⟩ ∧
          .onAccept (t.clientAddr j) (t.server.idOf j) ∈ v.events := by
    intro v hv hevents j hj hother
    obtain ⟨hself, haccepted⟩ := hshadows.sessions j hj hother
    refine ⟨?_, hevents haccepted⟩
    rw [hv]
    by_cases hij : j = i
    · subst hij
      rw [Function.update_self, Function.update_self]
      rfl
    · rw [Function.update_of_ne hij, Function.update_of_ne hij]
      exact hself
  have hquiet : Shadows slots { t with connection := Function.update t.connection i connection }
      (g.received i (t.session i) connection) :=
    ⟨hshadows.indexArray, hshadows.sessionKey, hupdated _ rfl (List.Subset.refl _),
      hshadows.banSet, hshadows.accepted, hshadows.released⟩
  have hstep : g.step cfg (.recv i label) = g.recvCompletion cfg i (t.session i) label := by
    rw [Gate.step, hsession, Option.bind_some]
  have hsame : (t.session i).connection = t.connection i := rfl
  rw [hstep, Gate.recvCompletion, hsame, hconnection, Option.map_some]
  refine ⟨_, rfl, ?_⟩
  cases label with
  | complete cbTransferred contentsNum => exact hquiet
  | round msgbuf =>
      dsimp only
      split
      · have hevents : g.events ⊆
            g.events ++ [.onUnusual (t.session i).sessionID (t.clientAddr i)] :=
          List.subset_append_left _ _
        refine ⟨hshadows.indexArray, hshadows.sessionKey, hupdated _ rfl hevents, ?_,
          fun id hmem => ?_, fun id => ?_⟩
        · show g.banSet.insert (t.clientAddr i) = t.banSet.insert (t.clientAddr i)
          rw [hshadows.banSet]
        · obtain ⟨addr, haddr⟩ := hshadows.accepted id hmem
          exact ⟨addr, hevents haddr⟩
        · rw [← hshadows.released]
          show _ ∈ g.events ++ _ ↔ _
          simp
      · exact hquiet

theorem Host.Attended.recv (hattended : t.Attended) {k i : Nat} (hreceives : t.receives k = some i)
    {label : RecvLabel} {u : Host} (hrecv : t.recv cfg i label = some u) : u.Attended := by
  obtain ⟨connection, _, rfl⟩ := Option.map_eq_some_iff.mp hrecv
  intro j hruns
  by_cases hij : j = i
  · subst hij
    exact present_of_receives hreceives
  · refine hattended j ?_
    rwa [← Function.update_of_ne hij connection t.connection]

/-- What is received on a slot is received at the gate. -/
theorem Shadows.received (hshadows : Shadows slots t g) (hsound : Sound slots t.server)
    (hattended : t.Attended) {k : Nat} {label : Nat → RecvLabel} {u : Host}
    (hstep : ((t.receives k).bind fun i => t.recv cfg i (label i)) = some u) :
    (∃ g', exec (Gate.step cfg) g
        ((t.receives k).toList.map fun i => .recv i (label i)) = some g' ∧
      Shadows slots u g') ∧
      u.Attended := by
  obtain ⟨i, hreceives, hrecv⟩ := Option.bind_eq_some_iff.mp hstep
  obtain ⟨g', hg, hnext⟩ := hshadows.recv hsound hreceives hrecv
  refine ⟨⟨g', ?_, hnext⟩, hattended.recv hreceives hrecv⟩
  rw [hreceives, Option.toList_some, List.map_cons, List.map_nil, exec_cons, hg,
    Option.bind_some, exec_nil]

/-- A worker stays in `RecvCompletion` while its loop runs. -/
theorem Host.Attended.run (hattended : t.Attended) {k : Nat} {frame : Frame} {rest : List Frame}
    (hstack : t.server.threads[k]? = some (frame :: rest)) (frames : List Frame)
    (hleaves : ∀ i, frame = .recv i .user → (t.connection i).running = none) (i : Nat)
    (hruns : (t.connection i).running ≠ none) :
    Present (t.server.threads.set k (frames ++ rest)) (.recv i .user) := by
  rcases (hattended i hruns).kept frames hstack with hframe | hkept
  · exact absurd (hleaves i hframe.symm) hruns
  · exact hkept

theorem Host.taken_running {clientAddr : SockAddrIn} {memory : Int → UInt8} {stream : List UInt8}
    {i : Nat} (h : ((t.taken clientAddr (.accepted memory stream)).connection i).running ≠ none) :
    (t.connection i).running ≠ none := by
  unfold Host.taken at h
  split at h
  · exact h
  · rename_i j _ _
    by_cases hij : i = j
    · subst hij
      simp [Connection.accepted] at h
    · simpa [hij] using h

/-- **A step of the server is at most one of its gate.** -/
theorem Shadows.step (hshadows : Shadows slots t g) (hsound : Sound slots t.server)
    (hsingle : Single t.server) (hattended : t.Attended) {label : HostLabel} {u : Host}
    (hstep : t.step slots cfg label = some u) :
    (∃ g', exec (Gate.step cfg) g (t.gateLabels label) = some g' ∧ Shadows slots u g') ∧
      u.Attended := by
  cases label with
  | server step clientAddr memory stream =>
      simp only [Host.step, Option.ite_none_left_eq_some, Option.map_eq_some_iff] at hstep
      obtain ⟨hleaves, server, hserver, rfl⟩ := hstep
      have hserved := serverStep_served hserver
      have hkey := hserved.sessionKey
      revert hkey
      refine hserved.cases_run (P := fun server => ((∀ t now outcome, step ≠ .run t now outcome) →
        server.sessionKey = t.server.sessionKey) →
          (∃ g', exec (Gate.step cfg) g (t.gateLabels (.server step clientAddr memory stream)) =
              some g' ∧
            Shadows slots (t.advanced step clientAddr (.accepted memory stream) server) g') ∧
          (t.advanced step clientAddr (.accepted memory stream) server).Attended) ?_ ?_
      · rintro k now outcome frame rest rfl hstack -
        have htop : t.server.top (.run k now outcome) = some frame := by
          simp [ContentsServer.top, hstack]
        have hran : Ran slots t.server frame _ _ := runFrame_ran now outcome frame
        have hkept : ∀ i, (t.connection i).running ≠ none →
            Present ((t.server.runFrame slots now outcome frame).1.start k
              ((t.server.runFrame slots now outcome frame).2 ++ rest)).threads (.recv i .user) := by
          intro i hruns
          simp only [ContentsServer.start, hran.threads]
          refine hattended.run hstack _ (fun j hframe => ?_) i hruns
          simpa [Host.leavesLoop, htop, hframe] using hleaves
        simp only [Host.gateLabels, Host.advanced, htop]
        by_cases hpop : frame = .pop
        · subst hpop
          rw [if_pos rfl]
          refine ⟨⟨_, rfl, hshadows.pop hsingle hstack now outcome clientAddr _⟩, fun i hruns => ?_⟩
          exact hkept i (Host.taken_running hruns)
        · rw [if_neg (by simpa using hpop)]
          refine ⟨?_, hkept⟩
          by_cases hpush : ∃ i, frame = .release i .push
          · obtain ⟨i, rfl⟩ := hpush
            obtain ⟨g', hg, hnext⟩ : ∃ g', g.step cfg (.release i) = some g' ∧ Shadows slots _ g' :=
              hshadows.push hsound hattended hstack now outcome
            exact ⟨g', by rw [exec_cons, hg]; rfl, hnext⟩
          · refine ⟨g, ?_, hshadows.run hsound hsingle hstack hpop
              (fun i hi => hpush ⟨i, hi⟩) now outcome⟩
            -- The gate does nothing.
            split
            · rename_i heq
              exact absurd (Option.some.inj heq) hpop
            · rename_i i heq
              exact absurd ⟨i, Option.some.inj heq⟩ hpush
            · rfl
      · intro k stack first v hnot hstack _ hbegan hkey
        have htop : t.server.top step = none := by
          cases step with
          | run k now outcome => exact absurd rfl (hnot k now outcome)
          | _ => rfl
        simp only [Host.gateLabels, Host.advanced, htop]
        rw [if_neg (by simp)]
        refine ⟨⟨g, rfl, hshadows.start hstack hbegan (hkey hnot)⟩, fun i hruns => ?_⟩
        simp only [ContentsServer.start, hbegan.threads]
        exact (hattended i hruns).under [first] hstack
  | complete k cbTransferred => exact hshadows.received hsound hattended hstep
  | round k msgbuf => exact hshadows.received hsound hattended hstep

/-- A step on what is received leaves the slots alone. -/
theorem Host.receiving_server {k : Nat} {label : Nat → RecvLabel} {u : Host}
    (h : ((t.receives k).bind fun i => t.recv cfg i (label i)) = some u) : u.server = t.server := by
  obtain ⟨i, _, h⟩ := Option.bind_eq_some_iff.mp h
  obtain ⟨connection, _, rfl⟩ := Option.map_eq_some_iff.mp h
  rfl

theorem Host.sound_step (hsound : Sound slots t.server) (hsingle : Single t.server)
    {label : HostLabel} (hok : t.SweepsAccepted slots label) {u : Host}
    (hstep : t.step slots cfg label = some u) : Sound slots u.server ∧ Single u.server := by
  cases label with
  | server step clientAddr memory stream =>
      simp only [Host.step, Option.ite_none_left_eq_some, Option.map_eq_some_iff] at hstep
      obtain ⟨_, server, hserver, rfl⟩ := hstep
      have hsame :
          (t.advanced step clientAddr (.accepted memory stream) server).server = server := by
        unfold Host.advanced
        split <;> rfl
      rw [hsame]
      exact ⟨hsound.step hok (serverStep_served hserver), hsingle.step (serverStep_served hserver)⟩
  | complete k cbTransferred =>
      rw [Host.receiving_server hstep]
      exact ⟨hsound, hsingle⟩
  | round k msgbuf =>
      rw [Host.receiving_server hstep]
      exact ⟨hsound, hsingle⟩

/-! ## Whole runs -/

/-- What a run of the server keeps: the labels of its gate are a run. -/
structure Gated (slots : Config) (cfg : GateConfig) (t : Host) (labels : List GateLabel) :
    Prop where
  sound : Sound slots t.server
  single : Single t.server
  attended : t.Attended
  gate : ∃ g, exec (Gate.step cfg) (Gate.start slots.maxUser) labels = some g ∧ Shadows slots t g

theorem gated_started (others : Nat) : Gated slots cfg (startedHost slots others) [] where
  sound := sound_started slots others
  single := single_started slots others
  attended _ hruns := absurd rfl hruns
  gate := ⟨_, rfl, shadows_started others⟩

theorem Gated.step {labels : List GateLabel} (h : Gated slots cfg t labels) {label : HostLabel}
    (hok : t.SweepsAccepted slots label) {u : Host} (hstep : t.step slots cfg label = some u) :
    Gated slots cfg u (labels ++ t.gateLabels label) := by
  obtain ⟨g, hg, hshadows⟩ := h.gate
  obtain ⟨⟨g', hg', hnext⟩, hattended⟩ := hshadows.step h.sound h.single h.attended hstep
  obtain ⟨hsound, hsingle⟩ := Host.sound_step h.sound h.single hok hstep
  refine ⟨hsound, hsingle, hattended, g', ?_, hnext⟩
  rw [exec_append, hg]
  exact hg'

/-- The labels of a run, for its gate. -/
def gateRun (slots : Config) (cfg : GateConfig) (others : Nat) (labels : List HostLabel) :
    List GateLabel :=
  callsAlong (Host.step slots cfg) Host.gateLabels (startedHost slots others) labels

theorem gated_run {others : Nat} {labels : List HostLabel}
    (hok : Along (Host.step slots cfg) (Host.SweepsAccepted slots) (startedHost slots others)
      labels)
    (hrun : exec (Host.step slots cfg) (startedHost slots others) labels = some t) :
    Gated slots cfg t (gateRun slots cfg others labels) :=
  calls_history_along (fun _ _ _ _ h hok hstep => h.step hok hstep) (gated_started others) hok hrun

/-- **The server behind the gate.**  In every run of the slots with their clients, however
`AcceptThread`, `Release` and the workers interleave, the gate has gone through a run of its own:
it has the same free indexes in their order, the same sessions and the same bans. -/
theorem host_refines_gate {others : Nat} {labels : List HostLabel}
    (hok : Along (Host.step slots cfg) (Host.SweepsAccepted slots) (startedHost slots others)
      labels)
    (hrun : exec (Host.step slots cfg) (startedHost slots others) labels = some t) :
    ∃ g, exec (Gate.step cfg) (Gate.start slots.maxUser) (gateRun slots cfg others labels) =
        some g ∧
      Shadows slots t g :=
  (gated_run hok hrun).gate

/-- The steps of the slots while a client of the address connects. -/
def connecting (port : UInt16) (stream : List UInt8) (steps : List ContentLib.Step) :
    List HostLabel :=
  steps.map fun step => .server step ⟨0x0100007f, port⟩ (fun _ => 0) stream

/-- Five zero bytes come from a client; it is banned, disconnected and released, and connects
again from another port. -/
def bannedLife : List HostLabel :=
  connecting 1000 (List.replicate 5 0) (ContentLib.accepts ++ .complete 2 0 0 true :: runs 2 2) ++
    [.complete 2 5, .round 2 zeroBuffer] ++
    connecting 2000 [] (.kick 2 :: runs 2 10 ++ .take 2 0 :: runs 2 9 ++ ContentLib.accepts)

theorem bannedLife_refined :
    ∃ t g, exec (Host.step oneSlot ⟨.netServer, fun _ => true, 0x77, 0x32⟩) (startedHost oneSlot 1)
        bannedLife = some t ∧
      exec (Gate.step ⟨.netServer, fun _ => true, 0x77, 0x32⟩) (Gate.start oneSlot.maxUser)
        (gateRun oneSlot ⟨.netServer, fun _ => true, 0x77, 0x32⟩ 1 bannedLife) = some g ∧
      Shadows oneSlot t g ∧ g.banSet = [⟨0x0100007f, 1000⟩] ∧
      ∃ clientAddr, .onAccept clientAddr ⟨0, 2⟩ ∈ g.events := by
  have hrun : Along (Host.step oneSlot ⟨.netServer, fun _ => true, 0x77, 0x32⟩)
        (Host.SweepsAccepted oneSlot) (startedHost oneSlot 1) bannedLife ∧
      (exec (Host.step oneSlot ⟨.netServer, fun _ => true, 0x77, 0x32⟩) (startedHost oneSlot 1)
        bannedLife).map (fun t => (t.banSet, t.server.issued)) =
          some ([⟨0x0100007f, 1000⟩], [⟨0, 2⟩, ⟨0, 1⟩]) := by decide +kernel
  obtain ⟨t, ht, heq⟩ := Option.map_eq_some_iff.mp hrun.2
  rw [Prod.mk.injEq] at heq
  obtain ⟨g, hg, hshadows⟩ := host_refines_gate hrun.1 ht
  refine ⟨t, g, ht, hg, hshadows, hshadows.banSet.trans heq.1, hshadows.accepted _ ?_⟩
  rw [heq.2]
  exact List.mem_cons_self

/-- A LANSERVER bans nobody. -/
theorem host_lanServer {others : Nat} {labels : List HostLabel} (htype : cfg.type = .lanServer)
    (hok : Along (Host.step slots cfg) (Host.SweepsAccepted slots) (startedHost slots others)
      labels)
    (hrun : exec (Host.step slots cfg) (startedHost slots others) labels = some t) :
    t.banSet = [] := by
  obtain ⟨g, hg, hshadows⟩ := (gated_run hok hrun).gate
  exact hshadows.banSet.symm.trans (lanServer_bans_nobody htype hg)

end SessionServer.Battle
