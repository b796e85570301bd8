/-
  ContentLib/Delivery.lean --- what a session is sent of what is enqueued for it.

  A `WSASend` that fails leaves `_sendFlag` set with nobody to clear it, and the
  `ClearSendQ` of `Release` runs when nobody works on the sends of the session any more.
  So nothing is posted to a session behind a packet it has lost.  `AcceptThread` clears the
  flag for the next session of the slot, which has a name of its own by then.
-/
import SessionServer.ContentLib.SendOrder
import SessionServer.ContentLib.WakeRun

set_option autoImplicit false

namespace SessionServer.ContentLib

open SessionServer.Foundation ContentLib.Frame

/-! ## Events -/

/-- The packets `WSASend` was given, in order. -/
def postedIn (events : List SendEvent) : List Packet :=
  events.filterMap fun
    | .posted packet => some packet
    | _ => none

/-- The packets lost, in order. -/
def lostIn (events : List SendEvent) : List Packet :=
  events.filterMap fun
    | .lost packet => some packet
    | _ => none

/-- The packets of a session. -/
def packetsTo (id : SessionID) (packets : List Packet) : List Packet :=
  packets.filter fun packet => packet.session = id

section

variable {id : SessionID} {events more : List SendEvent} {packets others : List Packet}
  {packet : Packet}

theorem postedIn_append : postedIn (events ++ more) = postedIn events ++ postedIn more :=
  List.filterMap_append

theorem lostIn_append : lostIn (events ++ more) = lostIn events ++ lostIn more :=
  List.filterMap_append

@[simp] theorem postedIn_posted : postedIn (packets.map .posted) = packets := by
  simp [postedIn, List.filterMap_map]

@[simp] theorem postedIn_lost : postedIn (packets.map .lost) = [] := by
  simp [postedIn]

@[simp] theorem enqueuedIn_posted : enqueuedIn (packets.map .posted) = [] := by
  simp [enqueuedIn]

@[simp] theorem enqueuedIn_lost : enqueuedIn (packets.map .lost) = [] := by
  simp [enqueuedIn]

@[simp] theorem lostIn_posted : lostIn (packets.map .posted) = [] := by
  simp [lostIn]

@[simp] theorem lostIn_lost : lostIn (packets.map .lost) = packets := by
  simp [lostIn, List.filterMap_map]

theorem packetsTo_append :
    packetsTo id (packets ++ others) = packetsTo id packets ++ packetsTo id others :=
  List.filter_append ..

theorem packetsTo_of_ne {other : SessionID} (h : ∀ packet ∈ packets, packet.session = other)
    (hne : id ≠ other) : packetsTo id packets = [] := by
  rw [packetsTo, List.filter_eq_nil_iff]
  intro packet hpacket hid
  exact hne ((of_decide_eq_true hid).symm.trans (h packet hpacket))

theorem departed_of_lost (h : packet ∈ lostIn events) : packet ∈ departedIn events := by
  obtain ⟨event, hevent, hlost⟩ := List.mem_filterMap.mp h
  refine List.mem_filterMap.mpr ⟨event, hevent, ?_⟩
  cases event with
  | lost other => exact hlost
  | _ => simp at hlost

/-- A session that has lost nothing was posted everything that has left for it. -/
theorem departed_eq_posted (h : packetsTo id (lostIn events) = []) :
    packetsTo id (departedIn events) = packetsTo id (postedIn events) := by
  induction events with
  | nil => rfl
  | cons event events ih =>
      cases event with
      | enqueued other => exact ih h
      | posted other =>
          have hrest := ih h
          by_cases hother : other.session = id
          · simpa [packetsTo, departedIn, postedIn, hother] using hrest
          · simpa [packetsTo, departedIn, postedIn, hother] using hrest
      | lost other =>
          have hother : ¬ other.session = id := by
            intro heq
            simp [packetsTo, lostIn, heq] at h
          have hrest : packetsTo id (lostIn events) = [] := by
            simpa [packetsTo, lostIn, hother] using h
          simpa [packetsTo, departedIn, postedIn, hother] using ih hrest

end

/-! ## Steps that emit them -/

/-- The packets with these buffers, to the session that has the slot. -/
def ContentsServer.addressed (s : ContentsServer) (i : Nat) (tags : List Tag) : List Packet :=
  tags.map (Packet.mk (s.sessionArray i).sessionID)

theorem addressed_session {s : ContentsServer} {i : Nat} {tags : List Tag} {packet : Packet}
    (h : packet ∈ s.addressed i tags) : packet.session = (s.sessionArray i).sessionID := by
  obtain ⟨tag, _, rfl⟩ := List.mem_map.mp h
  rfl

/-- **What happens to the packets of a slot in a step**, by the frame that runs. -/
inductive Emits (s : ContentsServer) (i : Nat) : Step → List SendEvent → Prop where
  | nothing (step : Step) : Emits s i step []
  | enqueue (t : Nat) (now : UInt64) (outcome : Outcome) (rest : List Frame) (packet : Packet)
      (hstack : s.threads[t]? = some (.sendPacket packet.session .enqueue :: rest)) :
      Emits s i (.run t now outcome) [.enqueued packet]
  | post (t : Nat) (now : UInt64) (outcome : Outcome) (k : Nat) (rest : List Frame)
      (tags : List Tag) (hstack : s.threads[t]? = some (.sendPost i (.wsaSend k) :: rest)) :
      Emits s i (.run t now outcome) ((s.addressed i tags).map .posted)
  | fail (t : Nat) (now : UInt64) (k : Nat) (rest : List Frame) (tags : List Tag)
      (hstack : s.threads[t]? = some (.sendPost i (.wsaSend k) :: rest)) :
      Emits s i (.run t now .failed) ((s.addressed i tags).map .lost)
  | clear (t : Nat) (now : UInt64) (outcome : Outcome) (rest : List Frame) (tags : List Tag)
      (hstack : s.threads[t]? = some (.release i .clearTake :: rest)) :
      Emits s i (.run t now outcome) ((s.addressed i tags).map .lost)

theorem sendEvents_emits (s : ContentsServer) (i : Nat) (step : Step) :
    Emits s i step (sendEvents i s step) := by
  have hmap : ∀ (event : Packet → SendEvent) (tags : List Tag),
      tags.map (fun tag => event ⟨(s.sessionArray i).sessionID, tag⟩) =
        (s.addressed i tags).map event :=
    fun event tags => List.map_map.symm
  unfold sendEvents
  split
  · rename_i t now outcome
    split
    · rename_i frame rest hstack
      unfold Frame.sendEvents
      split
      · split
        · exact .enqueue t now outcome rest _ hstack
        · exact .nothing _
      · rename_i j k
        split
        · rename_i hj
          subst hj
          by_cases hfailed : outcome = .failed
          · simp only [hfailed, if_true]
            rw [hmap SendEvent.lost]
            exact .fail t now k rest _ hstack
          · simp only [hfailed, if_false]
            rw [hmap SendEvent.posted]
            exact .post t now outcome k rest _ hstack
        · exact .nothing _
      · rename_i j
        split
        · rename_i hj
          subst hj
          rw [hmap SendEvent.lost]
          exact .clear t now outcome rest _ hstack
        · exact .nothing _
      · exact .nothing _
    · exact .nothing _
  · exact .nothing _

/-- A packet is enqueued by a `SendPacket` for its session. -/
theorem enqueued_present {s : ContentsServer} {i : Nat} {step : Step} {packet : Packet}
    (h : packet ∈ enqueuedIn (sendEvents i s step)) :
    Present s.threads (.sendPacket packet.session .enqueue) := by
  have hemits := sendEvents_emits s i step
  generalize sendEvents i s step = events at hemits h
  cases hemits with
  | nothing => simp [enqueuedIn] at h
  | enqueue t now outcome rest other hstack =>
      obtain rfl : packet = other := by simpa [enqueuedIn] using h
      exact present_of_getElem? hstack (by simp)
  | post | fail | clear => simp at h

/-! ## A session that has lost a packet -/

/-- `AcceptThread` between the name it gives a slot and the flag it opens it with. -/
def Frame.renamed : Frame → Nat
  | accept _ .time => 1
  | accept _ .firstRecv => 1
  | accept _ .sendFlag => 1
  | accept _ .inc => 1
  | accept _ .and => 1
  | _ => 0

/-- `_sendFlag` is set and nobody is left to clear it. -/
structure Stuck (s : ContentsServer) (i : Nat) : Prop where
  sendFlag : (s.sessionArray i).sendFlag = true
  sending : s.tally sending i = 0
  sends : (s.sessionArray i).sends = 0

/-- Nothing is posted any more to the session that has the slot. -/
structure Over (s : ContentsServer) (i : Nat) : Prop where
  named : s.tally renamed i = 0
  closed : (s.sessionArray i).live = 0 ∨ Stuck s i

variable {cfg : Config} {s s' : ContentsServer} {frame : Frame} {frames : List Frame}
  {i t : Nat} {rest : List Frame}

theorem renamed_le_owns (frame : Frame) : frame.renamed ≤ 1 * frame.owns := by
  cases frame with
  | accept j pc => cases pc <;> simp [renamed, owns]
  | _ => simp [renamed]

/-- Nobody is inside `WSASend`. -/
theorem Over.not_sending {k : Nat} (h : Over s i) (hsound : Sound cfg s)
    (hstack : s.threads[t]? = some (.sendPost i (.wsaSend k) :: rest)) : False := by
  have hpresent : Present s.threads (.sendPost i (.wsaSend k)) :=
    present_of_getElem? hstack (by simp)
  rcases h.closed with hlive | hstuck
  · have hopen := hsound.live_of_confirmed hpresent rfl rfl
    omega
  · have hsending := le_tally hpresent rfl sending
    rw [hstuck.sending] at hsending
    simp [Frame.sending] at hsending

/-! ### What a step keeps -/

theorem Next.named {next : Frame} (h : Next s frame next) (hslot : frame.slot = some i)
    (hframe : frame.renamed = 0) (hname : frame ≠ .accept i .sessionID) : next.renamed = 0 := by
  cases h with
  | acceptTime j =>
      obtain rfl : j = i := Option.some.inj hslot
      exact absurd rfl hname
  | _ => first | rfl | contradiction

theorem Next.stuck {next : Frame} (h : Next s frame next) (hslot : frame.slot = some i)
    (hflag : (s.sessionArray i).sendFlag = true) (hframe : frame.sending = 0) :
    next.sending = 0 := by
  cases h with
  | sendPostInc j hclear =>
      obtain rfl := Option.some.inj hslot
      rw [hflag] at hclear
      contradiction
  | _ => first | rfl | contradiction

theorem Wrote.closed {write : Session → Session} (h : Wrote frame write)
    (hframe : frame.renamed = 0) {x : Session} (hlive : x.live = 0) : (write x).live = 0 := by
  cases h with
  | and => contradiction
  | cas => simp [Session.live]
  | _ => exact hlive

theorem Wrote.stuck {write : Session → Session} (h : Wrote frame write)
    (hsending : frame.sending = 0) (hrenamed : frame.renamed = 0) {x : Session}
    (hflag : x.sendFlag = true) : (write x).sendFlag = true ∧ (write x).sends = x.sends := by
  cases h with
  | cancel => exact ⟨hflag, sends_cancelled x⟩
  | wsaRecv | acceptWsaRecv => exact ⟨hflag, by simp [Session.sends]⟩
  | exchange => exact ⟨rfl, rfl⟩
  | _ => first | contradiction | exact ⟨hflag, rfl⟩

theorem Wrote.keeps_name {write : Session → Session} (h : Wrote frame write)
    (hslot : frame.slot = some i) (hname : frame ≠ .accept i .sessionID) (x : Session) :
    (write x).sessionID = x.sessionID := by
  cases h with
  | sessionID j key =>
      obtain rfl : j = i := Option.some.inj hslot
      exact absurd rfl hname
  | _ => rfl

/-- A step of a frame at another slot. -/
theorem Over.elsewhere (h : Over s i) (hstack : s.threads[t]? = some (frame :: rest))
    (hslot : frame.slot ≠ some i) (now : UInt64) (outcome : Outcome) :
    Over ((s.runFrame cfg now outcome frame).1.start t
      ((s.runFrame cfg now outcome frame).2 ++ rest)) i := by
  obtain ⟨write, hupdated⟩ := runFrame_updated cfg s now outcome frame
  have hself := hupdated.there i hslot
  -- `pop` and the sweeps begin what weighs nothing.
  have hbegins : frame.slot = none → ∀ next, Next s frame next →
      next.renamed = 0 ∧ next.sending = 0 := by
    intro hnone next hnext
    cases hnext <;> first | exact ⟨rfl, rfl⟩ | simp_all [slot]
  have hnamed : ((s.runFrame cfg now outcome frame).1.start t
      ((s.runFrame cfg now outcome frame).2 ++ rest)).tally renamed i = s.tally renamed i :=
    tally_elsewhere hstack hslot (fun hnone next hnext => (hbegins hnone next hnext).1) now outcome
  have hsending : ((s.runFrame cfg now outcome frame).1.start t
      ((s.runFrame cfg now outcome frame).2 ++ rest)).tally sending i = s.tally sending i :=
    tally_elsewhere hstack hslot (fun hnone next hnext => (hbegins hnone next hnext).2) now outcome
  refine ⟨hnamed.trans h.named, h.closed.imp ?_ ?_⟩
  · intro hlive
    rwa [ContentsServer.start_sessionArray, hself]
  · rintro ⟨hflag, hzero, hsends⟩
    refine ⟨?_, hsending.trans hzero, ?_⟩
    · rwa [ContentsServer.start_sessionArray, hself]
    · rwa [ContentsServer.start_sessionArray, hself]

/-- A step of a frame at the slot. -/
theorem Over.run (h : Over s i) (hstack : s.threads[t]? = some (frame :: rest))
    (hslot : frame.slot = some i) (hname : frame ≠ .accept i .sessionID) (now : UInt64)
    (outcome : Outcome) :
    Over ((s.runFrame cfg now outcome frame).1.start t
      ((s.runFrame cfg now outcome frame).2 ++ rest)) i := by
  have hpresent : Present s.threads frame := present_of_getElem? hstack (by simp)
  have hrenamed : frame.renamed = 0 :=
    Nat.le_zero.mp (h.named ▸ le_tally hpresent hslot renamed)
  obtain ⟨write, hupdated⟩ := runFrame_updated cfg s now outcome frame
  have hran : Ran cfg s frame _ _ := runFrame_ran now outcome frame
  have hself := hupdated.here i hslot
  have htally : ∀ w : Frame → Nat, w frame = 0 → s.tally w i = 0 →
      (∀ next, Next s frame next → w next = 0) →
      ((s.runFrame cfg now outcome frame).1.start t
        ((s.runFrame cfg now outcome frame).2 ++ rest)).tally w i = 0 := by
    intro w hframe hzero hnext
    have hframes : ∀ next ∈ (s.runFrame cfg now outcome frame).2, w next = 0 :=
      fun next hn => hnext next (runFrame_next hn)
    exact (tally_run_zero hstack hran.threads hframe hframes i).trans hzero
  refine ⟨htally renamed hrenamed h.named fun next hnext => hnext.named hslot hrenamed hname,
    h.closed.imp ?_ ?_⟩
  · intro hlive
    rw [ContentsServer.start_sessionArray, hself]
    exact hupdated.wrote.closed hrenamed hlive
  · rintro ⟨hflag, hzero, hsends⟩
    have hsending : frame.sending = 0 := Nat.le_zero.mp (hzero ▸ le_tally hpresent hslot sending)
    obtain ⟨hflag', hsends'⟩ := hupdated.wrote.stuck hsending hrenamed hflag
    refine ⟨?_, ?_, ?_⟩
    · rwa [ContentsServer.start_sessionArray, hself]
    · exact htally sending hsending hzero fun next hnext => hnext.stuck hslot hflag hsending
    · rw [ContentsServer.start_sessionArray, hself, hsends', hsends]

/-- A function starts that has not won the flag. -/
theorem Over.start (h : Over s i) {first : Frame} {stack : List Frame}
    (hstack : s.threads[t]? = some stack) (hthreads : s'.threads = s.threads)
    (hnamed : first.renamed = 0) (hsending : weightAt sending i first = 0)
    (hself : ∃ io, io.Sublist (s.sessionArray i).io ∧
      s'.sessionArray i = { s.sessionArray i with io := io }) :
    Over (s'.start t (first :: stack)) i := by
  obtain ⟨io, hsublist, heq⟩ := hself
  refine ⟨(tally_start_zero hstack hthreads hnamed i).trans h.named, h.closed.imp ?_ ?_⟩
  · intro hlive
    rwa [ContentsServer.start_sessionArray, heq]
  · rintro ⟨hflag, hzero, hsends⟩
    refine ⟨?_, ?_, ?_⟩
    · rwa [ContentsServer.start_sessionArray, heq]
    · have htally := tally_start s' [first] hstack hthreads sending i
      simpa [hsending, hzero] using htally
    · rw [ContentsServer.start_sessionArray, heq]
      have hle : io.countP Io.send ≤ (s.sessionArray i).sends := hsublist.countP_le
      exact Nat.le_zero.mp (hsends ▸ hle)

/-- No send is outstanding. -/
theorem Over.no_send (h : Over s i) (hsound : Sound cfg s) {io : Io}
    (hio : io ∈ (s.sessionArray i).io) : io.send = false := by
  rcases h.closed with hlive | hstuck
  · have hopen := hsound.posted i (List.ne_nil_of_mem hio)
    omega
  · have hnone := List.countP_eq_zero.mp hstuck.sends io hio
    simpa using hnone

/-- **Only the next session of the slot is posted to again.** -/
theorem Over.step {step : Step} (h : Over s i) (hsound : Sound cfg s)
    (hserved : Served cfg s step s') (hname : s.top step ≠ some (.accept i .sessionID)) : Over s' i := by
  have hsame : ∃ io, io.Sublist (s.sessionArray i).io ∧
      s.sessionArray i = { s.sessionArray i with io := io } := ⟨_, List.Sublist.refl _, rfl⟩
  have hlight : ∀ first : Frame, first.sending = 0 → weightAt sending i first = 0 := by
    intro first hzero
    rw [weightAt, hzero, ite_self]
  cases hserved with
  | run t now outcome frame rest hstack =>
      have htop : s.top (.run t now outcome) = some frame := by
        simp [ContentsServer.top, hstack]
      by_cases hslot : frame.slot = some i
      · exact h.run hstack hslot (fun heq => hname (htop.trans (congrArg some heq))) now outcome
      · exact h.elsewhere hstack hslot now outcome
  | accept hstack => exact h.start hstack rfl rfl (hlight _ rfl) hsame
  | take t n message hstack hmessage =>
      cases message <;> exact h.start hstack rfl rfl (hlight _ rfl) hsame
  | complete t j n io success hstack hio =>
      have hnamed : (completionFrame j io success).renamed = 0 :=
        completionFrame_cases j io success rfl rfl rfl
      refine h.start hstack rfl hnamed ?_ (eraseIo_session s i j n)
      -- The completion of a send would be one of this slot.
      unfold weightAt
      split
      · rename_i hslot
        have hat := completionFrame_slot j io success
        obtain rfl : j = i := Option.some.inj (hat.symm.trans hslot)
        have hsend := h.no_send hsound (List.mem_of_getElem? hio)
        unfold completionFrame
        rw [hsend]
        split <;> rfl
      · rfl
  | call t call stack hissued hstack htop =>
      cases call <;> exact h.start hstack rfl rfl (hlight _ rfl) hsame
  | kick t j rest hstack => exact h.start hstack rfl rfl (hlight _ rfl) hsame
  | sweep regular now hstack => exact h.start hstack rfl rfl (hlight _ rfl) hsame

/-! ### What loses a packet -/

/-- Behind a `WSASend` that fails. -/
theorem over_failed {k : Nat} (hboxed : Boxed s i) (hsound : Sound cfg s)
    (hstack : s.threads[t]? = some (.sendPost i (.wsaSend k) :: rest)) :
    Over (s.start t ([.drop i true] ++ rest)) i := by
  have hpresent : Present s.threads (.sendPost i (.wsaSend k)) :=
    present_of_getElem? hstack (by simp)
  have hlive := hsound.live_of_confirmed hpresent rfl rfl
  obtain ⟨hone, hnone, hflag⟩ := hboxed.won hpresent rfl rfl
  have htally : ∀ w : Frame → Nat, w (.drop i true) = 0 →
      (s.start t ([.drop i true] ++ rest)).tally w i + w (.sendPost i (.wsaSend k)) =
        s.tally w i := by
    intro w hdrop
    have hthreads : s.threads = s.threads := rfl
    have hrun := tally_run_slot hstack hthreads rfl
      (List.forall_mem_singleton.mpr (rfl : (Frame.drop i true).slot = some i)) w i
    simpa [hdrop] using hrun
  have hnamed : s.tally renamed i = 0 := by
    have hle := tally_le_mul (s := s) renamed_le_owns i
    have hzero := hsound.owns_zero hlive
    omega
  refine ⟨?_, Or.inr ⟨hflag, ?_, hnone⟩⟩
  · exact (htally renamed rfl).trans hnamed
  · have hsending := htally sending rfl
    rw [hone] at hsending
    exact Nat.succ.inj hsending

/-- At the `ClearSendQ` of `Release`. -/
theorem over_clearing (hsound : Sound cfg s)
    (hstack : s.threads[t]? = some (.release i .clearTake :: rest)) : Over s i := by
  have hpresent : Present s.threads (.release i .clearTake) :=
    present_of_getElem? hstack (by simp)
  obtain ⟨_, hone, hlive, _⟩ := hsound.owner hpresent rfl rfl
  exact ⟨tally_of_owner renamed_le_owns hstack rfl hone, Or.inl hlive⟩

/-- **What loses a packet of a session ends it.** -/
theorem over_of_lost {step : Step} (hboxed : Boxed s i) (hsound : Sound cfg s)
    (hserved : Served cfg s step s') (hlost : lostIn (sendEvents i s step) ≠ []) : Over s' i := by
  have hemits := sendEvents_emits s i step
  generalize sendEvents i s step = events at hemits hlost
  cases hemits with
  | nothing | enqueue => exact absurd rfl hlost
  | post => exact absurd lostIn_posted hlost
  | fail t now k rest tags hstack =>
      cases hserved with
      | run _ _ _ frame rest' hstack' =>
          rw [hstack] at hstack'
          obtain ⟨rfl, rfl⟩ := List.cons.inj (Option.some.inj hstack')
          exact over_failed hboxed hsound hstack
  | clear t now outcome rest tags hstack =>
      refine (over_clearing hsound hstack).step hsound hserved ?_
      simp [ContentsServer.top, hstack]

/-! ## Runs -/

/-- The name `AcceptThread` is about to give is new. -/
theorem Lives.fresh_id (h : Lives s) (i : Nat) : (⟨i, s.sessionKey⟩ : SessionID) ∉ s.issued := by
  have hnil : s.history ⟨i, s.sessionKey⟩ = [] := by
    by_contra hne
    exact Nat.lt_irrefl _ (h.fresh _ hne).2
  have hcount := h.issued ⟨i, s.sessionKey⟩
  rw [if_pos hnil] at hcount
  exact List.count_eq_zero.mp hcount

theorem Served.issued_mono {step : Step} (hserved : Served cfg s step s') {id : SessionID}
    (hid : id ∈ s.issued) : id ∈ s'.issued := by
  refine hserved.cases_run (P := fun u => id ∈ u.issued) ?_ ?_
  · intro t now outcome frame rest _ hstack
    have hran : Ran cfg s frame _ _ := runFrame_ran now outcome frame
    exact hran.issued_mono hid
  · intro t stack first u _ _ _ hbegan
    show id ∈ u.issued
    rwa [hbegan.issued]

/-- Only `AcceptThread` names a slot. -/
theorem Served.sessionID {step : Step} (hserved : Served cfg s step s')
    (hname : s.top step ≠ some (.accept i .sessionID)) :
    (s'.sessionArray i).sessionID = (s.sessionArray i).sessionID := by
  refine hserved.cases_run (P := fun u => (u.sessionArray i).sessionID =
    (s.sessionArray i).sessionID) ?_ ?_
  · rintro t now outcome frame rest rfl hstack
    obtain ⟨write, hupdated⟩ := runFrame_updated cfg s now outcome frame
    have htop : s.top (.run t now outcome) = some frame := by
      simp [ContentsServer.top, hstack]
    rw [ContentsServer.start_sessionArray]
    by_cases hslot : frame.slot = some i
    · rw [hupdated.here i hslot]
      exact hupdated.wrote.keeps_name hslot (fun heq => hname (htop.trans (congrArg some heq))) _
    · rw [hupdated.there i hslot]
  · intro t stack first u _ _ _ hbegan
    exact hbegan.sessionID i

/-- The name is new. -/
theorem Served.renamed {step : Step} (hserved : Served cfg s step s')
    (hname : s.top step = some (.accept i .sessionID)) :
    (s'.sessionArray i).sessionID = ⟨i, s.sessionKey⟩ := by
  cases hserved with
  | run t now outcome frame rest hstack =>
      have htop : s.top (.run t now outcome) = some frame := by
        simp [ContentsServer.top, hstack]
      obtain rfl := Option.some.inj (htop.symm.trans hname)
      rw [ContentsServer.start_sessionArray, ContentsServer.runFrame, ContentsServer.acceptStep,
        ContentsServer.modify_self]
  | _ => exact absurd hname (by simp [ContentsServer.top])

/-- What has happened at a slot: a session that has lost a packet is posted nothing more. -/
structure Gapless (s : ContentsServer) (i : Nat) (events : List SendEvent) : Prop where
  issued : ∀ packet ∈ enqueuedIn events, packet.session ∈ s.issued
  ended : packetsTo (s.sessionArray i).sessionID (lostIn events) ≠ [] → Over s i
  gapless : ∀ id, packetsTo id (postedIn events) <+: packetsTo id (departedIn events)

section

variable {events : List SendEvent}

theorem gapless_started (cfg : Config) (others i : Nat) :
    Gapless (startedServer cfg others) i [] where
  issued := fun _ hpacket => absurd hpacket List.not_mem_nil
  ended := fun hlost => absurd rfl hlost
  gapless := fun _ => List.prefix_rfl

/-- A new session has lost nothing. -/
theorem Gapless.fresh (h : Gapless s i events) (hline : InLine s i events) {id : SessionID}
    (hid : id ∉ s.issued) : packetsTo id (lostIn events) = [] := by
  rw [packetsTo, List.filter_eq_nil_iff]
  intro packet hlost hto
  have hin : packet ∈ enqueuedIn events := by
    rw [hline.line]
    exact List.mem_append_left _ (departed_of_lost hlost)
  have hissued := h.issued packet hin
  rw [of_decide_eq_true hto] at hissued
  exact hid hissued

/-- `WSASend` is given packets of a session that has lost none. -/
theorem posting {step : Step} (hsound : Sound cfg s)
    (hposted : postedIn (sendEvents i s step) ≠ []) :
    lostIn (sendEvents i s step) = [] ∧ ¬ Over s i ∧
      ∀ packet ∈ postedIn (sendEvents i s step),
        packet.session = (s.sessionArray i).sessionID := by
  have hemits := sendEvents_emits s i step
  generalize sendEvents i s step = events at hemits hposted ⊢
  cases hemits with
  | nothing | enqueue => exact absurd rfl hposted
  | fail | clear => exact absurd postedIn_lost hposted
  | post t now outcome k rest tags hstack =>
      rw [postedIn_posted]
      exact ⟨lostIn_posted, fun hover => hover.not_sending hsound hstack,
        fun _ => addressed_session⟩

theorem Gapless.step {step : Step} (h : Gapless s i events) (hline : InLine s i events)
    (hboxed : Boxed s i) (hsound : Sound cfg s) (hlives : Lives s) (hnamed : Named s)
    (hserved : Served cfg s step s') : Gapless s' i (events ++ sendEvents i s step) where
  issued := by
    intro packet hpacket
    rw [enqueuedIn_append] at hpacket
    refine hserved.issued_mono ?_
    rcases List.mem_append.mp hpacket with hold | hnew
    · exact h.issued packet hold
    · exact hnamed _ _ (enqueued_present hnew)
  ended := by
    intro hlost
    by_cases hmore : lostIn (sendEvents i s step) = []
    · rw [lostIn_append, hmore, List.append_nil] at hlost
      by_cases hname : s.top step = some (.accept i .sessionID)
      · rw [hserved.renamed hname] at hlost
        exact absurd (h.fresh hline (hlives.fresh_id i)) hlost
      · rw [hserved.sessionID hname] at hlost
        exact (h.ended hlost).step hsound hserved hname
    · exact over_of_lost hboxed hsound hserved hmore
  gapless := by
    intro id
    rw [postedIn_append, departedIn_append, packetsTo_append, packetsTo_append]
    by_cases hposted : postedIn (sendEvents i s step) = []
    · rw [hposted]
      show packetsTo id (postedIn events) ++ [] <+: _
      rw [List.append_nil]
      exact (h.gapless id).trans (List.prefix_append _ _)
    · obtain ⟨hnone, hnot, hto⟩ := posting hsound hposted
      have hmore : packetsTo id (departedIn (sendEvents i s step)) =
          packetsTo id (postedIn (sendEvents i s step)) := by
        apply departed_eq_posted
        rw [hnone]
        rfl
      rw [hmore]
      by_cases hid : id = (s.sessionArray i).sessionID
      · have hkept : packetsTo id (lostIn events) = [] := by
          by_contra hlost
          exact hnot (h.ended (hid ▸ hlost))
        rw [departed_eq_posted hkept]
      · rw [packetsTo_of_ne hto hid, List.append_nil, List.append_nil]
        exact h.gapless id

end

theorem gapless_run (cfg : Config) (others : Nat) (steps : List Step) (s : ContentsServer)
    (hsweeps : Along (serverStep cfg) (SweepsAccepted cfg) (startedServer cfg others) steps)
    (hkept : Along (serverStep cfg) FlagKept (startedServer cfg others) steps)
    (h : exec (serverStep cfg) (startedServer cfg others) steps = some s) (i : Nat) :
    InLine s i (eventsAt cfg others i steps) ∧ Gapless s i (eventsAt cfg others i steps) := by
  have hhistory : (Serving cfg s ∧ Named s) ∧ InLine s i ([] ++ eventsAt cfg others i steps) ∧
      Gapless s i ([] ++ eventsAt cfg others i steps) := by
    refine calls_history_along (H := fun s events => (Serving cfg s ∧ Named s) ∧
        InLine s i events ∧ Gapless s i events) ?_
      ⟨⟨serving_started cfg others, named_started cfg others⟩, inLine_started cfg others i,
        gapless_started cfg others i⟩ (hsweeps.and hkept) h
    rintro s step s' events ⟨⟨hserving, hnamed⟩, hline, hgapless⟩ ⟨hswept, hkept⟩ hstep
    have hserved := serverStep_served hstep
    have hboxed := hserving.boxed i
    exact ⟨⟨hserving.step hswept hkept hserved, hnamed.step hserved⟩,
      hline.step (moves_step hboxed hserving.sound hserving.checked hserved),
      hgapless.step hline hboxed hserving.sound hserving.lives hnamed hserved⟩
  exact hhistory.2

/-- **What is posted to a session has no gaps**: it is the first of what was enqueued for it. -/
theorem posted_prefix (cfg : Config) (others : Nat) (steps : List Step) (s : ContentsServer)
    (hsweeps : Along (serverStep cfg) (SweepsAccepted cfg) (startedServer cfg others) steps)
    (hkept : Along (serverStep cfg) FlagKept (startedServer cfg others) steps)
    (h : exec (serverStep cfg) (startedServer cfg others) steps = some s) (i : Nat)
    (id : SessionID) :
    packetsTo id (postedIn (eventsAt cfg others i steps)) <+:
      packetsTo id (enqueuedIn (eventsAt cfg others i steps)) := by
  obtain ⟨hline, hgapless⟩ := gapless_run cfg others steps s hsweeps hkept h i
  rw [hline.line, packetsTo_append]
  exact (hgapless.gapless id).trans (List.prefix_append _ _)

end SessionServer.ContentLib
