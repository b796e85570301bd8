/-
  Battle/Bans.lean --- banned addresses and the connections that are accepted.

  `OnUnusual` enters the address of a client into `_banSet` when a packet has the wrong code
  or `Decode` fails; `OnConnectionRequest` looks it up there.  `AcceptThread` does not call
  it: every socket for which an index is free becomes a session.  Of a session the address,
  the ID and the receiving side are kept, the last as the `Connection` of
  `ContentLib/RecvBounds.lean`; a round of `AcceptThread` and a call of `Release` are one step.
  `Battle/BansRun.lean` takes them apart again.
-/
import SessionServer.ContentLib.RecvBounds
import SessionServer.ContentLib.ContentsServer
import SessionServer.Foundation.Run

set_option autoImplicit false

namespace SessionServer.ContentLib

open SessionServer.Common SessionServer.Foundation

/-! ## Unusual packets -/

namespace Connection

/-- A round calls `OnUnusual`: the code of the packet is wrong, or `Decode` returns false. -/
def unusual (cfg : RecvConfig) (s : Connection) (msgbuf : PooledBuffer) : Bool :=
  match s.running with
  | none => false
  | some loop =>
      match loop.text.round cfg.code s.recvQ with
      | .wait => false
      -- The length is compared before the code, and costs the session its connection only.
      | .disconnect =>
          !(loop.text.bounded &&
            loop.text.frameSize (s.recvQ.peek loop.text.headerSize) ≥ BUFFER_DEFAULT)
      | .frame size =>
          loop.text.takes &&
            !loop.text.decode cfg.fixedKey
              (SBuffer.ofPacket (loop.text.copied msgbuf (s.recvQ.dequeue size).2))

variable {cfg : RecvConfig} {s t : Connection} {msgbuf : PooledBuffer}

/-- With every call of `OnUnusual` goes one of `Disconnect`, and the loop ends. -/
theorem unusual_disconnects (h : s.unusual cfg msgbuf = true)
    (hround : s.step cfg (.round msgbuf) = some t) : t.connected = false ∧ t.running = none := by
  unfold unusual at h
  cases hrunning : s.running with
  | none => simp [hrunning] at h
  | some loop =>
      simp only [hrunning] at h
      simp only [Connection.step, hrunning, Option.map_some, Option.some.injEq] at hround
      subst hround
      unfold Connection.round
      cases hloop : loop.text.round cfg.code s.recvQ with
      | wait => simp [hloop] at h
      | disconnect => exact ⟨rfl, rfl⟩
      | frame size =>
          simp only [hloop, Bool.and_eq_true, Bool.not_eq_eq_eq_not, Bool.not_true] at h
          simp [h.1, h.2]

/-- The loops of a LANSERVER check nothing. -/
theorem unusual_lan {branch : RecvBranch} (h : s.running = some (.lan branch)) :
    s.unusual cfg msgbuf = false := by
  unfold unusual
  rw [h]
  dsimp only
  have hcoded : (RecvLoop.lan branch).text.coded = false := by cases branch <;> rfl
  have hbounded : (RecvLoop.lan branch).text.bounded = false := by cases branch <;> rfl
  have hdecode : ∀ key msg, (RecvLoop.lan branch).text.decode key msg = true := by
    cases branch <;> exact fun _ _ => rfl
  cases hround : (RecvLoop.lan branch).text.round cfg.code s.recvQ with
  | wait => rfl
  | disconnect =>
      unfold FrameLoop.round at hround
      simp only [hcoded, hbounded, Bool.false_eq_true, false_and, if_false] at hround
      split_ifs at hround
  | frame size => simp [hdecode]

/-- A loop that runs ran before or has been started by a completion. -/
theorem running_of_step {label : RecvLabel} (h : s.step cfg label = some t) {loop : RecvLoop}
    (hloop : loop ∈ t.running) : loop ∈ s.running ∨ ∃ n, loop ∈ cfg.party.loop n := by
  cases label with
  | complete cbTransferred contentsNum =>
      simp only [Connection.step, Option.ite_none_right_eq_some, Option.some.injEq] at h
      obtain ⟨_, rfl⟩ := h
      exact Or.inr ⟨contentsNum, hloop⟩
  | round msgbuf =>
      simp only [Connection.step, Option.map_eq_some_iff] at h
      obtain ⟨runs, hruns, rfl⟩ := h
      refine Or.inl ?_
      unfold Connection.round at hloop
      split at hloop
      · cases hloop
      · cases hloop
      · dsimp only at hloop
        split_ifs at hloop
        · exact hloop
        · cases hloop
        · exact hloop

end Connection

end SessionServer.ContentLib

namespace SessionServer.Battle

open SessionServer.ContentLib SessionServer.Foundation

/-! ## Addresses and calls -/

/-- `SOCKADDR_IN`, compared as `SockAddrInEqual` does. -/
structure SockAddrIn where
  sinAddr : UInt32
  sinPort : UInt16
  deriving DecidableEq

/-- A session in its slot. -/
structure AcceptedSession where
  sessionID : ContentLib.SessionID
  clientAddr : SockAddrIn
  connection : ContentLib.Connection

/-- The calls of the events of `ContentsServer`, in their order. -/
inductive ServerEvent where
  | onConnectionRequest (clientAddr : SockAddrIn)
  | onAccept (clientAddr : SockAddrIn) (sessionID : ContentLib.SessionID)
  | onUnusual (sessionID : ContentLib.SessionID) (clientAddr : SockAddrIn)
  | onRelease (sessionID : ContentLib.SessionID)
  deriving DecidableEq

/-- The `_type` of a server, the numbers of its contents, its `_code` and its `_fixedKey`. -/
structure GateConfig where
  type : ServerType
  registered : Int → Bool
  code : UInt8
  fixedKey : UInt8

def GateConfig.recv (cfg : GateConfig) : RecvConfig :=
  ⟨.contentsServer cfg.type cfg.registered, cfg.code, cfg.fixedKey⟩

structure Gate where
  indexArray : List Nat
  sessionKey : Nat
  sessionArray : Nat → Option AcceptedSession
  banSet : List SockAddrIn
  events : List ServerEvent

namespace Gate

/-- `FighterServer::OnConnectionRequest`. -/
def onConnectionRequest (s : Gate) (clientAddr : SockAddrIn) : Bool :=
  !(s.banSet.contains clientAddr)

/-- `FighterServer::OnUnusual`. -/
def onUnusual (s : Gate) (sessionID : ContentLib.SessionID) (clientAddr : SockAddrIn) : Gate :=
  { s with
      banSet := s.banSet.insert clientAddr
      events := s.events ++ [.onUnusual sessionID clientAddr] }

/-- A round of `AcceptThread` with the socket of a client. -/
def acceptThread (s : Gate) (clientAddr : SockAddrIn) (connection : ContentLib.Connection) :
    Gate :=
  match s.indexArray with
  | [] => s
  | index :: indexArray =>
      let sessionID : ContentLib.SessionID := ⟨index, s.sessionKey⟩
      { s with
          indexArray := indexArray
          sessionKey := s.sessionKey + 1
          sessionArray := Function.update s.sessionArray index
            (some { sessionID := sessionID, clientAddr := clientAddr, connection := connection })
          events := s.events ++ [.onAccept clientAddr sessionID] }

/-- The connection of a session after a completion or a round of `RecvCompletion`. -/
def received (s : Gate) (index : Nat) (session : AcceptedSession)
    (connection : ContentLib.Connection) : Gate :=
  { s with
      sessionArray := Function.update s.sessionArray index
        (some { session with connection := connection }) }

/-- `RecvCompletion` of a session: the bytes that have come, or a round of its loop. -/
def recvCompletion (cfg : GateConfig) (s : Gate) (index : Nat) (session : AcceptedSession)
    (label : RecvLabel) : Option Gate :=
  (session.connection.step cfg.recv label).map fun connection =>
    match label with
    | .complete _ _ => s.received index session connection
    | .round msgbuf =>
        if session.connection.unusual cfg.recv msgbuf then
          (s.received index session connection).onUnusual session.sessionID session.clientAddr
        else s.received index session connection

/-- `Release`. -/
def release (s : Gate) (index : Nat) (session : AcceptedSession) : Gate :=
  { s with
      indexArray := index :: s.indexArray
      sessionArray := Function.update s.sessionArray index none
      events := s.events ++ [.onRelease session.sessionID] }

end Gate

/-- What happens next: a client connects, with the bytes it is going to send; a completion or a
round for a session; the release of a session for which no `RecvCompletion` runs. -/
inductive GateLabel where
  | accept (clientAddr : SockAddrIn) (memory : Int → UInt8) (stream : List UInt8)
  | recv (index : Nat) (label : RecvLabel)
  | release (index : Nat)

def Gate.step (cfg : GateConfig) (s : Gate) : GateLabel → Option Gate
  | .accept clientAddr memory stream =>
      some (s.acceptThread clientAddr (.accepted memory stream))
  | .recv index label =>
      (s.sessionArray index).bind fun session => s.recvCompletion cfg index session label
  | .release index =>
      (s.sessionArray index).bind fun session =>
        if session.connection.running = none then some (s.release index session) else none

/-- A server that has just been started, with `sessionMax` free slots. -/
def Gate.start (sessionMax : Nat) : Gate where
  indexArray := List.range sessionMax
  sessionKey := 1
  sessionArray _ := none
  banSet := []
  events := []

/-! ## Bans -/

/-- `y` is a call of `OnAccept` for an address `x` has banned. -/
def ServerEvent.Defies : ServerEvent → ServerEvent → Prop
  | .onUnusual _ banned, .onAccept clientAddr _ => banned.sinAddr = clientAddr.sinAddr
  | _, _ => False

/-- No connection from an address reaches `OnAccept` after `OnUnusual` has been called for
the address. -/
def BansEnforced (events : List ServerEvent) : Prop :=
  events.Pairwise fun x y => ¬ x.Defies y

/-- `OnAccept` is called for an address `OnConnectionRequest` has been called for. -/
def Consulted (events : List ServerEvent) : Prop :=
  ∀ before clientAddr sessionID later, events = before ++ .onAccept clientAddr sessionID :: later →
    .onConnectionRequest clientAddr ∈ before

/-- A connection that would become a session does not come from a banned address. -/
def GateLabel.Unbanned (s : Gate) : GateLabel → Prop
  | .accept clientAddr _ _ =>
      s.indexArray = [] ∨ ∀ banned ∈ s.banSet, banned.sinAddr ≠ clientAddr.sinAddr
  | _ => True

instance (s : Gate) : (label : GateLabel) → Decidable (label.Unbanned s)
  | .accept _ _ _ => inferInstanceAs (Decidable (_ ∨ ∀ _ ∈ _, _))
  | .recv _ _ => inferInstanceAs (Decidable True)
  | .release _ => inferInstanceAs (Decidable True)

/-- No connection becomes a session. -/
def GateLabel.Full (s : Gate) : GateLabel → Prop
  | .accept _ _ _ => s.indexArray = []
  | _ => True

/-! ## One step -/

variable {cfg : GateConfig} {s t : Gate} {label : GateLabel}

/-- A ban is one of an address and a port: other ports of the address are let in as before. -/
theorem onConnectionRequest_onUnusual (s : Gate) (sessionID : ContentLib.SessionID)
    {banned clientAddr : SockAddrIn} (h : clientAddr ≠ banned) :
    (s.onUnusual sessionID banned).onConnectionRequest clientAddr =
      s.onConnectionRequest clientAddr := by
  simp [Gate.onConnectionRequest, Gate.onUnusual, List.mem_insert_iff, h]

/-- **What a step does** to the bans and the calls. -/
inductive Gate.Stepped (s t : Gate) : GateLabel → Prop where
  | quiet (label : GateLabel) (hevents : t.events = s.events) (hbans : t.banSet = s.banSet)
      (hfull : label.Full s) : Stepped s t label
  | accepted (clientAddr : SockAddrIn) (memory : Int → UInt8) (stream : List UInt8)
      (sessionID : ContentLib.SessionID) (hfree : s.indexArray ≠ [])
      (hevents : t.events = s.events ++ [.onAccept clientAddr sessionID])
      (hbans : t.banSet = s.banSet) : Stepped s t (.accept clientAddr memory stream)
  | banned (index : Nat) (msgbuf : PooledBuffer) (sessionID : ContentLib.SessionID)
      (clientAddr : SockAddrIn)
      (hevents : t.events = s.events ++ [.onUnusual sessionID clientAddr])
      (hbans : t.banSet = s.banSet.insert clientAddr) : Stepped s t (.recv index (.round msgbuf))
  | released (index : Nat) (sessionID : ContentLib.SessionID)
      (hevents : t.events = s.events ++ [.onRelease sessionID])
      (hbans : t.banSet = s.banSet) : Stepped s t (.release index)

theorem Gate.stepped (h : s.step cfg label = some t) : s.Stepped t label := by
  cases label with
  | accept clientAddr memory stream =>
      simp only [Gate.step, Option.some.injEq, acceptThread] at h
      split at h
      · rename_i hfull
        exact h ▸ .quiet _ rfl rfl hfull
      · rename_i index indexArray hfree
        exact h ▸ .accepted clientAddr memory stream ⟨index, s.sessionKey⟩
          (by rw [hfree]; simp) rfl rfl
  | recv index label =>
      simp only [Gate.step, Option.bind_eq_some_iff, recvCompletion, Option.map_eq_some_iff] at h
      obtain ⟨session, _, connection, _, rfl⟩ := h
      cases label with
      | complete cbTransferred contentsNum => exact .quiet _ rfl rfl trivial
      | round msgbuf =>
          dsimp only
          split_ifs
          · exact .banned index msgbuf session.sessionID session.clientAddr rfl rfl
          · exact .quiet _ rfl rfl trivial
  | release index =>
      simp only [Gate.step, Option.bind_eq_some_iff, Option.ite_none_right_eq_some,
        Option.some.injEq] at h
      obtain ⟨session, _, _, rfl⟩ := h
      exact .released index session.sessionID rfl rfl

/-- The bans are the addresses `OnUnusual` has been called for, and `OnConnectionRequest` has
not been called. -/
structure Recorded (s : Gate) : Prop where
  bans : ∀ addr, addr ∈ s.banSet ↔ ∃ sessionID, ServerEvent.onUnusual sessionID addr ∈ s.events
  unasked : ∀ addr, ServerEvent.onConnectionRequest addr ∉ s.events

theorem Recorded.step (h : Recorded s) (hstep : s.Stepped t label) : Recorded t := by
  have hbans := h.bans
  have hunasked := h.unasked
  cases hstep with
  | quiet _ hevents hsame _ => exact ⟨by rw [hevents, hsame]; exact hbans, by rwa [hevents]⟩
  | accepted _ _ _ _ _ hevents hsame =>
      exact ⟨by simpa [hevents, hsame] using hbans, by simpa [hevents] using hunasked⟩
  | banned _ _ sessionID clientAddr hevents hinsert =>
      refine ⟨fun addr => ?_, by simpa [hevents] using hunasked⟩
      rw [hinsert, List.mem_insert_iff, hbans, hevents]
      simp only [List.mem_append, List.mem_singleton, ServerEvent.onUnusual.injEq]
      constructor
      · rintro (rfl | ⟨id, hid⟩)
        · exact ⟨sessionID, Or.inr ⟨rfl, rfl⟩⟩
        · exact ⟨id, Or.inl hid⟩
      · rintro ⟨id, hid | ⟨_, rfl⟩⟩
        · exact Or.inr ⟨id, hid⟩
        · exact Or.inl rfl
  | released _ _ hevents hsame =>
      exact ⟨by simpa [hevents, hsame] using hbans, by simpa [hevents] using hunasked⟩

theorem bansEnforced_concat {events : List ServerEvent} {event : ServerEvent} :
    BansEnforced (events ++ [event]) ↔
      BansEnforced events ∧ ∀ earlier ∈ events, ¬ earlier.Defies event := by
  rw [BansEnforced, List.pairwise_append]
  simp [BansEnforced]

/-- A step keeps the bans enforced exactly where it does not accept a banned address. -/
theorem bansEnforced_step (h : Recorded s) (hstep : s.Stepped t label) :
    BansEnforced t.events ↔ BansEnforced s.events ∧ label.Unbanned s := by
  cases hstep with
  | quiet label hevents _ hfull =>
      rw [hevents]
      refine (and_iff_left ?_).symm
      cases label with
      | accept clientAddr memory stream => exact Or.inl hfull
      | recv index label => trivial
      | release index => trivial
  | accepted clientAddr memory stream sessionID hfree hevents _ =>
      rw [hevents, bansEnforced_concat]
      refine and_congr_right fun _ => ?_
      rw [GateLabel.Unbanned, or_iff_right hfree]
      constructor
      · intro hnone banned hbanned
        obtain ⟨id, hid⟩ := (h.bans banned).mp hbanned
        exact hnone _ hid
      · intro hnone earlier hearlier
        cases earlier with
        | onUnusual id banned => exact hnone banned ((h.bans banned).mpr ⟨id, hearlier⟩)
        | onConnectionRequest addr => exact id
        | onAccept addr id => exact fun hdefies => hdefies
        | onRelease id => exact fun hdefies => hdefies
  | banned index msgbuf sessionID clientAddr hevents _ =>
      rw [hevents, bansEnforced_concat]
      refine and_congr_right fun _ => iff_of_true (fun earlier _ => ?_) trivial
      cases earlier <;> exact id
  | released index sessionID hevents _ =>
      rw [hevents, bansEnforced_concat]
      refine and_congr_right fun _ => iff_of_true (fun earlier _ => ?_) trivial
      cases earlier <;> exact id

/-- No connection has become a session. -/
def NoneAccepted (events : List ServerEvent) : Prop :=
  ∀ clientAddr sessionID, ServerEvent.onAccept clientAddr sessionID ∉ events

theorem noneAccepted_step (hstep : s.Stepped t label) :
    NoneAccepted t.events ↔ NoneAccepted s.events ∧ label.Full s := by
  cases hstep with
  | quiet label hevents _ hfull =>
      rw [hevents]
      exact (and_iff_left hfull).symm
  | accepted clientAddr memory stream sessionID hfree hevents _ =>
      refine iff_of_false (fun h => h clientAddr sessionID (by simp [hevents])) ?_
      exact fun h => hfree h.2
  | banned index msgbuf sessionID clientAddr hevents _ =>
      simp [NoneAccepted, hevents, GateLabel.Full]
  | released index sessionID hevents _ => simp [NoneAccepted, hevents, GateLabel.Full]

/-- As long as `OnConnectionRequest` is not called, only a server without sessions has
consulted it. -/
theorem consulted_iff {events : List ServerEvent}
    (hunasked : ∀ addr, ServerEvent.onConnectionRequest addr ∉ events) :
    Consulted events ↔ NoneAccepted events := by
  constructor
  · intro h clientAddr sessionID hmem
    obtain ⟨before, later, rfl⟩ := List.append_of_mem hmem
    exact hunasked clientAddr (List.mem_append_left _ (h before clientAddr sessionID later rfl))
  · rintro h before clientAddr sessionID later rfl
    exact absurd (List.mem_append_right _ List.mem_cons_self) (h clientAddr sessionID)

/-! ## Whole runs -/

theorem gate_run {sessionMax : Nat} {labels : List GateLabel}
    (hrun : exec (Gate.step cfg) (Gate.start sessionMax) labels = some t) :
    Recorded t ∧
      (BansEnforced t.events ↔
        Along (Gate.step cfg) (fun s label => label.Unbanned s) (Gate.start sessionMax) labels) ∧
      (NoneAccepted t.events ↔
        Along (Gate.step cfg) (fun s label => label.Full s) (Gate.start sessionMax) labels) := by
  induction labels using List.reverseRecOn generalizing t with
  | nil =>
      rw [exec_nil, Option.some.injEq] at hrun
      subst hrun
      refine ⟨⟨by simp [Gate.start], by simp [Gate.start]⟩, ?_, ?_⟩
      · exact iff_of_true List.Pairwise.nil trivial
      · exact iff_of_true (fun _ _ => List.not_mem_nil) trivial
  | append_singleton labels label ih =>
      obtain ⟨s, hs, hu⟩ := exec_concat_eq_some.mp hrun
      obtain ⟨hrecorded, hbans, hnone⟩ := ih hs
      have hstepped := Gate.stepped hu
      refine ⟨hrecorded.step hstepped, ?_, ?_⟩
      · rw [bansEnforced_step hrecorded hstepped, hbans, along_concat hs]
      · rw [noneAccepted_step hstepped, hnone, along_concat hs]

/-- **Bans**: all is as it should be exactly in the runs in which no connection becomes a
session; the bans as such hold as long as no banned client happens to come back. -/
theorem bans_enforced_iff {sessionMax : Nat} {labels : List GateLabel}
    (hrun : exec (Gate.step cfg) (Gate.start sessionMax) labels = some t) :
    (BansEnforced t.events ∧ Consulted t.events ↔
        Along (Gate.step cfg) (fun s label => label.Full s) (Gate.start sessionMax) labels) ∧
      (BansEnforced t.events ↔
        Along (Gate.step cfg) (fun s label => label.Unbanned s) (Gate.start sessionMax)
          labels) := by
  obtain ⟨hrecorded, hbans, hnone⟩ := gate_run hrun
  refine ⟨?_, hbans⟩
  rw [consulted_iff hrecorded.unasked, ← hnone]
  refine and_iff_right_of_imp fun h => ?_
  -- Without a call of `OnAccept` nothing defies a ban.
  refine List.pairwise_of_forall_mem_list fun x _ y hy hdefies => ?_
  cases x <;> cases y <;> first | cases hdefies | skip
  exact h _ _ hy

/-! ## A LANSERVER -/

/-- The loops of the sessions check nothing, and nobody is banned. -/
structure Unchecked (s : Gate) : Prop where
  loops : ∀ index session, s.sessionArray index = some session →
    ∀ loop ∈ session.connection.running, ∃ branch, loop = .lan branch
  bans : s.banSet = []

theorem Unchecked.step (htype : cfg.type = .lanServer) (h : Unchecked s)
    (hstep : s.step cfg label = some t) : Unchecked t := by
  have hupdate : ∀ {index : Nat} {value : Option AcceptedSession},
      (∀ session, value = some session →
        ∀ loop ∈ session.connection.running, ∃ branch, loop = .lan branch) →
      ∀ other session, Function.update s.sessionArray index value other = some session →
        ∀ loop ∈ session.connection.running, ∃ branch, loop = .lan branch := by
    intro index value hvalue other session hsession
    by_cases hindex : other = index
    · rw [hindex, Function.update_self] at hsession
      exact hvalue session hsession
    · rw [Function.update_of_ne hindex] at hsession
      exact h.loops other session hsession
  cases label with
  | accept clientAddr memory stream =>
      simp only [Gate.step, Option.some.injEq, Gate.acceptThread] at hstep
      split at hstep
      · exact hstep ▸ h
      · subst hstep
        refine ⟨hupdate fun session hsession loop hloop => ?_, h.bans⟩
        simp only [Option.some.injEq] at hsession
        subst hsession
        cases hloop
  | recv index label =>
      simp only [Gate.step, Option.bind_eq_some_iff, Gate.recvCompletion,
        Option.map_eq_some_iff] at hstep
      obtain ⟨session, hsession, connection, hconnection, rfl⟩ := hstep
      have hreceived : Unchecked (s.received index session connection) := by
        refine ⟨hupdate fun session' hsame loop hloop => ?_, h.bans⟩
        rw [Option.some.injEq] at hsame
        subst hsame
        rcases Connection.running_of_step hconnection hloop with hbefore | ⟨n, hstarted⟩
        · exact h.loops _ session hsession loop hbefore
        · simp only [GateConfig.recv, RecvParty.loop, htype] at hstarted
          split_ifs at hstarted <;> cases hstarted <;> exact ⟨_, rfl⟩
      cases label with
      | complete cbTransferred contentsNum => exact hreceived
      | round msgbuf =>
          have husual : session.connection.unusual cfg.recv msgbuf = false := by
            cases hrunning : session.connection.running with
            | none => simp [Connection.unusual, hrunning]
            | some loop =>
                obtain ⟨branch, rfl⟩ := h.loops _ session hsession loop hrunning
                exact Connection.unusual_lan hrunning
          dsimp only
          rw [husual]
          exact hreceived
  | release index =>
      simp only [Gate.step, Option.bind_eq_some_iff, Option.ite_none_right_eq_some,
        Option.some.injEq] at hstep
      obtain ⟨session, _, _, rfl⟩ := hstep
      exact ⟨hupdate fun _ hnone => (nomatch hnone), h.bans⟩

/-- A LANSERVER never bans anybody. -/
theorem lanServer_bans_nobody {sessionMax : Nat} {labels : List GateLabel}
    (htype : cfg.type = .lanServer)
    (hrun : exec (Gate.step cfg) (Gate.start sessionMax) labels = some t) : t.banSet = [] := by
  have hstart : Unchecked (Gate.start sessionMax) := ⟨fun _ _ hnone => (nomatch hnone), rfl⟩
  exact (exec_invariant (I := Unchecked) (fun _ _ _ hs => hs.step htype) hstart hrun).bans

/-! ## A client that comes back -/

/-- Five zero bytes from the client of slot 0 of a NETSERVER: the code is wrong. -/
def fiveZeros (clientAddr : SockAddrIn) : List GateLabel :=
  [.accept clientAddr (fun _ => 0) (List.replicate 5 0), .recv 0 (.complete 5 0),
    .recv 0 (.round zeroBuffer)]

/-- A client that is banned while all slots are in use does not come back. -/
def bannedWhileFull : List GateLabel :=
  fiveZeros ⟨0x0100007f, 1000⟩ ++ [.accept ⟨0x0100007f, 2000⟩ (fun _ => 0) []]

theorem bannedWhileFull_enforced :
    ∃ t, exec (Gate.step ⟨.netServer, fun _ => false, 0x77, 0x32⟩) (Gate.start 1)
        bannedWhileFull = some t ∧
      t.banSet = [⟨0x0100007f, 1000⟩] ∧ BansEnforced t.events := by
  have hrun : (exec (Gate.step ⟨.netServer, fun _ => false, 0x77, 0x32⟩) (Gate.start 1)
        bannedWhileFull).map Gate.banSet = some [⟨0x0100007f, 1000⟩] ∧
      Along (Gate.step ⟨.netServer, fun _ => false, 0x77, 0x32⟩)
        (fun s label => label.Unbanned s) (Gate.start 1) bannedWhileFull := by decide +kernel
  obtain ⟨t, ht, hbanned⟩ := Option.map_eq_some_iff.mp hrun.1
  exact ⟨t, ht, hbanned, (bans_enforced_iff ht).2.mpr hrun.2⟩

/-- A client sends a packet with a wrong code, is released and connects again. -/
def bannedComesBack : List GateLabel :=
  fiveZeros ⟨0x0100007f, 1000⟩ ++
    [.release 0, .accept ⟨0x0100007f, 2000⟩ (fun _ => 0) []]

theorem bannedComesBack_accepted :
    ¬ ∀ (cfg : GateConfig) (sessionMax : Nat) (labels : List GateLabel) (t : Gate),
      exec (Gate.step cfg) (Gate.start sessionMax) labels = some t →
        BansEnforced t.events ∧ Consulted t.events := by
  intro h
  have hevents : (exec (Gate.step ⟨.netServer, fun _ => false, 0x77, 0x32⟩) (Gate.start 1)
      bannedComesBack).map Gate.events = some
        [.onAccept ⟨0x0100007f, 1000⟩ ⟨0, 1⟩, .onUnusual ⟨0, 1⟩ ⟨0x0100007f, 1000⟩,
          .onRelease ⟨0, 1⟩, .onAccept ⟨0x0100007f, 2000⟩ ⟨0, 2⟩] := by decide +kernel
  obtain ⟨t, ht, hlog⟩ := Option.map_eq_some_iff.mp hevents
  have hbans := (h _ 1 bannedComesBack t ht).1
  rw [hlog, BansEnforced] at hbans
  simp [ServerEvent.Defies] at hbans

end SessionServer.Battle
