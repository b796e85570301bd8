/-
  ContentLib/SendOrder.lean --- in what order, and to whom, the packets of a slot leave.

  A buffer waits on `_sendQ`, then in the box of the worker inside `SendPost`, until it is
  handed to `WSASend` or lost: to a `WSASend` that fails, or to the `ClearSendQ` of
  `Release`.  At most one frame works on the box, so the buffers it has put there are the
  oldest that wait, and a slot changes its session only while none waits.
-/
import SessionServer.ContentLib.SendRun
import SessionServer.ContentLib.StaleRun
import SessionServer.Foundation.Expansion

set_option autoImplicit false

namespace SessionServer.ContentLib

open SessionServer.Foundation ContentLib.Frame

/-! ## Events -/

/-- A buffer and the session it is sent to. -/
structure Packet where
  session : SessionID
  tag : Tag
  deriving DecidableEq

/-- What happens to the packets of a slot. -/
inductive SendEvent where
  /-- `SendPacket` puts it on the queue -/
  | enqueued (packet : Packet)
  /-- `WSASend` is given it -/
  | posted (packet : Packet)
  | lost (packet : Packet)
  deriving DecidableEq

/-- The packets enqueued, in order. -/
def enqueuedIn (events : List SendEvent) : List Packet :=
  events.filterMap fun
    | .enqueued packet => some packet
    | _ => none

/-- The packets that have left the slot, in order. -/
def departedIn (events : List SendEvent) : List Packet :=
  events.filterMap fun
    | .enqueued _ => none
    | .posted packet => some packet
    | .lost packet => some packet

theorem enqueuedIn_append (events more : List SendEvent) :
    enqueuedIn (events ++ more) = enqueuedIn events ++ enqueuedIn more := List.filterMap_append

theorem departedIn_append (events more : List SendEvent) :
    departedIn (events ++ more) = departedIn events ++ departedIn more := List.filterMap_append

/-- The events of a frame at a slot.  A buffer is posted to the session that has the slot. -/
def Frame.sendEvents (i : Nat) (x : Session) (outcome : Outcome) : Frame → List SendEvent
  | sendPacket id .enqueue =>
      if findSession id = i ∧ outcome ≠ .failed then [.enqueued ⟨id, x.enqueued⟩] else []
  | sendPost j (.wsaSend k) =>
      if j = i then
        (x.boxed k).map fun tag =>
          if outcome = .failed then .lost ⟨x.sessionID, tag⟩ else .posted ⟨x.sessionID, tag⟩
      else []
  | release j .clearTake =>
      if j = i then (x.sendQ.take 1).map fun tag => .lost ⟨x.sessionID, tag⟩ else []
  | _ => []

/-- The events of a step at a slot. -/
def sendEvents (i : Nat) (s : ContentsServer) : Step → List SendEvent
  | .run t _ outcome =>
      match s.threads[t]? with
      | some (frame :: _) => frame.sendEvents i (s.sessionArray i) outcome
      | _ => []
  | _ => []

/-! ## What waits -/

/-- The number of buffers a frame has put in the box. -/
def Frame.filled : Frame → Nat
  | sendPost _ (.dequeue k) => k
  | sendPost _ (.take k) => k
  | sendPost _ (.restore k) => k
  | sendPost _ (.count k) => k
  | sendPost _ (.wsaSend k) => k
  | _ => 0

/-- The buffers that have been enqueued and have not left, oldest first. -/
def ContentsServer.waiting (s : ContentsServer) (i : Nat) : List Tag :=
  (s.sessionArray i).boxed (s.tally Frame.filled i) ++ (s.sessionArray i).sendQ

/-- They are for the session that has the slot. -/
def ContentsServer.waitingPackets (s : ContentsServer) (i : Nat) : List Packet :=
  (s.waiting i).map (Packet.mk (s.sessionArray i).sessionID)

theorem ContentsServer.waitingPackets_eq {s : ContentsServer} {i k : Nat}
    (h : s.tally Frame.filled i = k) : s.waitingPackets i =
      ((s.sessionArray i).boxed k ++ (s.sessionArray i).sendQ).map
        (Packet.mk (s.sessionArray i).sessionID) := by
  rw [waitingPackets, waiting, h]

theorem filled_eq_zero {frame : Frame} (h : frame.occupying = 0) : frame.filled = 0 := by
  cases frame with
  | sendPost i pc => cases pc <;> first | rfl | simp [occupying, working, sending] at h
  | _ => rfl

variable {cfg : Config} {s s' : ContentsServer} {frame : Frame} {frames : List Frame}
  {i t : Nat} {rest : List Frame}

/-- With the box to itself, a frame is the only one that has filled it. -/
theorem Boxed.filled_of_occupying (h : Boxed s i) (hsound : Sound cfg s)
    (hstack : s.threads[t]? = some (frame :: rest)) (hslot : frame.slot = some i)
    (hoccupying : frame.occupying = 1) : s.tally Frame.filled i = frame.filled := by
  have hweight : ∀ w : Frame → Nat, weightAt w i frame = w frame := fun w => by
    rw [weightAt, if_pos hslot]
  have hone := h.occupied hsound
  have hle := le_tally (present_of_getElem? hstack (by simp)) hslot occupying
  have hall : total (weightAt occupying i) s.threads = weightAt occupying i frame := by
    rw [hweight, hoccupying]
    exact Nat.le_antisymm hone (hoccupying ▸ hle)
  have honly := total_eq_of_only (w := weightAt Frame.filled i) ?_ hstack hall
  · rwa [hweight] at honly
  · intro other hother
    unfold weightAt at hother ⊢
    split
    · rename_i hat
      rw [if_pos hat] at hother
      exact filled_eq_zero hother
    · rfl

/-! ## One step -/

/-- What a step does to the packets of a slot. -/
structure Moves (s s' : ContentsServer) (i : Nat) (events : List SendEvent) : Prop where
  line : s.waitingPackets i ++ enqueuedIn events = departedIn events ++ s'.waitingPackets i
  numbered : List.range (s'.sessionArray i).enqueued =
    List.range (s.sessionArray i).enqueued ++ (enqueuedIn events).map Packet.tag

/-- The packets that wait are the same. -/
theorem Moves.still (hwaiting : s'.waitingPackets i = s.waitingPackets i)
    (henqueued : (s'.sessionArray i).enqueued = (s.sessionArray i).enqueued) :
    Moves s s' i [] where
  line := by
    rw [hwaiting]
    exact List.append_nil _
  numbered := by
    rw [henqueued]
    exact (List.append_nil _).symm

/-- The fields of a session the line of its packets is made of. -/
structure SameLine (x y : Session) : Prop where
  sessionID : y.sessionID = x.sessionID
  sendQ : y.sendQ = x.sendQ
  sBufferArray : y.sBufferArray = x.sBufferArray
  enqueued : y.enqueued = x.enqueued

theorem SameLine.moves (h : SameLine (s.sessionArray i) (s'.sessionArray i))
    (hfilled : s'.tally Frame.filled i = s.tally Frame.filled i) : Moves s s' i [] := by
  refine .still ?_ h.enqueued
  rw [ContentsServer.waitingPackets_eq hfilled, ContentsServer.waitingPackets_eq rfl,
    Session.boxed, Session.boxed, h.sessionID, h.sendQ, h.sBufferArray]

theorem Began.sameLine {first : Frame} (h : Began s s' first) (i : Nat) :
    SameLine (s.sessionArray i) (s'.sessionArray i) := by
  obtain ⟨io, _, heq⟩ := h.session i
  rw [heq]
  exact ⟨rfl, rfl, rfl, rfl⟩

/-- The frames whose step moves a buffer or renames the session. -/
def Frame.moving : Frame → Bool
  | sendPacket _ .enqueue => true
  | sendPost _ (.take _) => true
  | sendPost _ (.wsaSend _) => true
  | release _ .clearTake => true
  | accept _ .clearTake => true
  | accept _ .sessionID => true
  | _ => false

theorem Wrote.sameLine {write : Session → Session} (h : Wrote frame write)
    (hmoving : frame.moving = false) (x : Session) : SameLine x (write x) := by
  cases h <;> first | contradiction | exact ⟨rfl, rfl, rfl, rfl⟩

theorem sendEvents_eq_nil (h : frame.slot ≠ some i) (x : Session) (outcome : Outcome) :
    frame.sendEvents i x outcome = [] := by
  unfold Frame.sendEvents
  split
  · rw [if_neg fun hboth => h (congrArg some hboth.1)]
  · rw [if_neg fun heq => h (congrArg some heq)]
  · rw [if_neg fun heq => h (congrArg some heq)]
  · rfl

theorem sendEvents_of_still (h : frame.moving = false) (x : Session) (outcome : Outcome) :
    frame.sendEvents i x outcome = [] := by
  unfold Frame.sendEvents
  split <;> first | contradiction | rfl

/-- A frame that has filled nothing leaves frames that have not. -/
theorem Next.filled {next : Frame} (h : Next s frame next) (hzero : frame.filled = 0)
    (hmoving : frame.moving = false) : next.filled = 0 := by
  cases h <;> first | contradiction | exact hzero | rfl

/-- The buffers in the box are handed on. -/
theorem sum_filled (hmoving : frame.moving = false) (now : UInt64) (outcome : Outcome) :
    ((s.runFrame cfg now outcome frame).2.map Frame.filled).sum = frame.filled := by
  have hnone : frame.filled = 0 →
      ((s.runFrame cfg now outcome frame).2.map Frame.filled).sum = frame.filled := by
    intro hzero
    rw [hzero]
    exact sum_map_zero fun next hn => (runFrame_next hn).filled hzero hmoving
  cases frame with
  | sendPost j pc =>
      cases pc with
      | dequeue k =>
          simp only [ContentsServer.runFrame, ContentsServer.sendPostStep]
          split
          · dsimp only
            split <;> rfl
          · rfl
      | restore k => rfl
      | count k =>
          simp only [ContentsServer.runFrame, ContentsServer.sendPostStep]
          split
          · rename_i hk
            rw [hk]
            rfl
          · rfl
      | take k | wsaSend k => contradiction
      | _ => exact hnone rfl
  | _ => exact hnone rfl

/-- A step at another slot. -/
theorem moves_elsewhere (hstack : s.threads[t]? = some (frame :: rest))
    (hslot : frame.slot ≠ some i) (now : UInt64) (outcome : Outcome) :
    Moves s ((s.runFrame cfg now outcome frame).1.start t
      ((s.runFrame cfg now outcome frame).2 ++ rest)) i [] := by
  obtain ⟨write, hupdated⟩ := runFrame_updated cfg s now outcome frame
  have hsame : SameLine (s.sessionArray i)
      ((s.runFrame cfg now outcome frame).1.sessionArray i) := by
    rw [hupdated.there i hslot]
    exact ⟨rfl, rfl, rfl, rfl⟩
  apply SameLine.moves
  · exact hsame
  · refine tally_elsewhere hstack hslot (fun hnone next hnext => ?_) now outcome
    cases frame with
    | pop => exact hnext.filled rfl rfl
    | sweep => exact hnext.filled rfl rfl
    | _ => simp [slot] at hnone

/-- The tally after a step at the slot. -/
theorem filled_run (frames : List Frame) (hstack : s.threads[t]? = some (frame :: rest))
    (hslot : frame.slot = some i) (hthreads : s'.threads = s.threads)
    (hnext : ∀ next ∈ frames, next.slot = some i) :
    (s'.start t (frames ++ rest)).tally Frame.filled i + frame.filled =
      s.tally Frame.filled i + (frames.map Frame.filled).sum := by
  have htally := tally_run_slot hstack hthreads hslot hnext Frame.filled i
  simpa only [if_true] using htally

/-- The tally after a step of the frame that has the box. -/
theorem Boxed.filled_run (h : Boxed s i) (hsound : Sound cfg s) (frames : List Frame)
    (hstack : s.threads[t]? = some (frame :: rest)) (hslot : frame.slot = some i)
    (hoccupying : frame.occupying = 1) (hthreads : s'.threads = s.threads)
    (hnext : ∀ next ∈ frames, next.slot = some i) :
    (s'.start t (frames ++ rest)).tally Frame.filled i = (frames.map Frame.filled).sum := by
  have htally := ContentLib.filled_run frames hstack hslot hthreads hnext
  rw [h.filled_of_occupying hsound hstack hslot hoccupying, Nat.add_comm] at htally
  exact Nat.add_left_cancel htally

/-- A step that moves nothing. -/
theorem moves_still (hstack : s.threads[t]? = some (frame :: rest)) (hslot : frame.slot = some i)
    (hmoving : frame.moving = false) (now : UInt64) (outcome : Outcome) :
    Moves s ((s.runFrame cfg now outcome frame).1.start t
      ((s.runFrame cfg now outcome frame).2 ++ rest)) i [] := by
  obtain ⟨write, hupdated⟩ := runFrame_updated cfg s now outcome frame
  have hran : Ran cfg s frame _ _ := runFrame_ran now outcome frame
  have hsame : SameLine (s.sessionArray i)
      ((s.runFrame cfg now outcome frame).1.sessionArray i) := by
    rw [hupdated.here i hslot]
    exact hupdated.wrote.sameLine hmoving _
  have htally := filled_run (s.runFrame cfg now outcome frame).2 hstack hslot hran.threads
    (runFrame_slot hslot)
  rw [sum_filled hmoving] at htally
  exact SameLine.moves hsame (Nat.add_right_cancel htally)

/-- `SendPacket` puts a buffer on the queue of the session it names. -/
theorem moves_enqueue {id : SessionID} (hindex : findSession id = i)
    (hstack : s.threads[t]? = some (.sendPacket id .enqueue :: rest))
    (hid : (s.sessionArray i).sessionID = id) :
    Moves s ((s.modify i fun x =>
      { x with sendQ := x.sendQ ++ [x.enqueued], enqueued := x.enqueued + 1 }).start t
        ([Frame.sendPacket id .size] ++ rest)) i
      [.enqueued ⟨id, (s.sessionArray i).enqueued⟩] := by
  have hthreads : (s.modify i fun x =>
      { x with sendQ := x.sendQ ++ [x.enqueued], enqueued := x.enqueued + 1 }).threads =
      s.threads := rfl
  have htally := filled_run [Frame.sendPacket id .size] hstack (congrArg some hindex) hthreads
    (List.forall_mem_singleton.mpr (congrArg some hindex))
  have htally := Nat.add_right_cancel htally
  constructor
  · rw [ContentsServer.waitingPackets_eq htally, ContentsServer.waitingPackets_eq rfl,
      ContentsServer.start_sessionArray, ContentsServer.modify_self, hid]
    simp [enqueuedIn, departedIn, Session.boxed]
  · rw [ContentsServer.start_sessionArray, ContentsServer.modify_self]
    exact List.range_succ

/-- `Dequeue` puts the oldest buffer of the queue behind the ones in the box. -/
theorem moves_take (h : Boxed s i) (hsound : Sound cfg s) {k : Nat} {tag : Tag} {tags : List Tag}
    (hstack : s.threads[t]? = some (.sendPost i (.take k) :: rest))
    (hqueue : (s.sessionArray i).sendQ = tag :: tags) :
    Moves s (((s.dequeued i tag tags).modify i fun x =>
      { x with sBufferArray := Function.update x.sBufferArray k tag }).start t
        ([Frame.sendPost i (.dequeue (k + 1))] ++ rest)) i [] := by
  have hfilled : s.tally Frame.filled i = k := h.filled_of_occupying hsound hstack rfl rfl
  have hthreads : ((s.dequeued i tag tags).modify i fun x =>
      { x with sBufferArray := Function.update x.sBufferArray k tag }).threads = s.threads := rfl
  have htally := h.filled_run hsound [Frame.sendPost i (.dequeue (k + 1))] hstack rfl rfl hthreads
    (List.forall_mem_singleton.mpr rfl)
  refine .still ?_ (by simp [ContentsServer.dequeued])
  rw [ContentsServer.waitingPackets_eq hfilled, ContentsServer.waitingPackets_eq htally, hqueue,
    ContentsServer.start_sessionArray, ContentsServer.modify_self, ContentsServer.dequeued,
    ContentsServer.modify_self]
  -- The box now holds one more.
  show ((Session.boxed _ (k + 1)) ++ tags).map _ = _
  rw [Session.boxed_succ (s.sessionArray i) rfl, List.append_assoc]
  rfl

theorem sameLine_postIo (send : Bool) (buffers : List Tag) (pending : Bool) :
    SameLine (s.sessionArray i) ((s.postIo i send buffers pending).sessionArray i) := by
  rw [ContentsServer.postIo, ContentsServer.modify_self]
  exact ⟨rfl, rfl, rfl, rfl⟩

/-- `WSASend` is given the buffers in the box, or fails. -/
theorem moves_wsaSend (h : Boxed s i) (hsound : Sound cfg s) {k : Nat} (outcome : Outcome)
    (hstack : s.threads[t]? = some (.sendPost i (.wsaSend k) :: rest))
    (hthreads : s'.threads = s.threads)
    (hsame : SameLine (s.sessionArray i) (s'.sessionArray i))
    (hnext : ∀ next ∈ frames, next.slot = some i ∧ next.filled = 0) :
    Moves s (s'.start t (frames ++ rest)) i
      ((Frame.sendPost i (.wsaSend k)).sendEvents i (s.sessionArray i) outcome) := by
  have hfilled : s.tally Frame.filled i = k := h.filled_of_occupying hsound hstack rfl rfl
  have htally := h.filled_run hsound frames hstack rfl rfl hthreads fun next hn => (hnext next hn).1
  rw [sum_map_zero fun next hn => (hnext next hn).2] at htally
  have hevents : enqueuedIn ((Frame.sendPost i (.wsaSend k)).sendEvents i (s.sessionArray i)
        outcome) = [] ∧
      departedIn ((Frame.sendPost i (.wsaSend k)).sendEvents i (s.sessionArray i) outcome) =
        ((s.sessionArray i).boxed k).map (Packet.mk (s.sessionArray i).sessionID) := by
    simp only [Frame.sendEvents, if_true, enqueuedIn, departedIn, List.filterMap_map]
    split
    · exact ⟨List.filterMap_eq_nil_iff.mpr fun _ _ => rfl, congrFun List.filterMap_eq_map _⟩
    · exact ⟨List.filterMap_eq_nil_iff.mpr fun _ _ => rfl, congrFun List.filterMap_eq_map _⟩
  constructor
  · rw [hevents.1, hevents.2, ContentsServer.waitingPackets_eq hfilled,
      ContentsServer.waitingPackets_eq htally, ContentsServer.start_sessionArray,
      hsame.sessionID, hsame.sendQ]
    simp
  · rw [hevents.1, ContentsServer.start_sessionArray, hsame.enqueued]
    simp

/-- `ClearSendQ` takes the oldest buffer, and no worker has the box. -/
theorem moves_clear (h : Boxed s i) (hsound : Sound cfg s) {tag : Tag} {tags : List Tag}
    (hstack : s.threads[t]? = some (.release i .clearTake :: rest))
    (hqueue : (s.sessionArray i).sendQ = tag :: tags) :
    Moves s ((s.dequeued i tag tags).start t ([Frame.release i (.clearDrop tag)] ++ rest)) i
      [.lost ⟨(s.sessionArray i).sessionID, tag⟩] := by
  have hfilled : s.tally Frame.filled i = 0 := h.filled_of_occupying hsound hstack rfl rfl
  have hthreads : (s.dequeued i tag tags).threads = s.threads := rfl
  have htally := h.filled_run hsound [Frame.release i (.clearDrop tag)] hstack rfl rfl hthreads
    (List.forall_mem_singleton.mpr rfl)
  constructor
  · rw [ContentsServer.waitingPackets_eq hfilled, ContentsServer.waitingPackets_eq htally, hqueue,
      ContentsServer.start_sessionArray, ContentsServer.dequeued, ContentsServer.modify_self]
    simp [enqueuedIn, departedIn, Frame.filled]
  · rw [ContentsServer.start_sessionArray, ContentsServer.dequeued, ContentsServer.modify_self]
    exact (List.append_nil _).symm

/-- The slot changes its session while nothing waits. -/
theorem moves_sessionID (h : Boxed s i) (hsound : Sound cfg s)
    (hstack : s.threads[t]? = some (.accept i .sessionID :: rest)) (key : Nat) :
    Moves s ((s.modify i fun x => { x with sessionID := ⟨i, key⟩ }).start t
      ([Frame.accept i .time] ++ rest)) i [] := by
  obtain ⟨_, _, hqueue⟩ := h.empty_of_accept hsound hstack rfl
  have hfilled : s.tally Frame.filled i = 0 := h.filled_of_occupying hsound hstack rfl rfl
  have hthreads : (s.modify i fun x => { x with sessionID := ⟨i, key⟩ }).threads = s.threads := rfl
  have htally := h.filled_run hsound [Frame.accept i .time] hstack rfl rfl hthreads
    (List.forall_mem_singleton.mpr rfl)
  refine .still ?_ (by simp)
  rw [ContentsServer.waitingPackets_eq hfilled, ContentsServer.waitingPackets_eq htally,
    ContentsServer.start_sessionArray, ContentsServer.modify_self, hqueue]
  simp [Frame.filled]

/-- A frame that stands still. -/
theorem moves_stay (hstack : s.threads[t]? = some (frame :: rest)) :
    Moves s (s.start t ([frame] ++ rest)) i [] := by
  apply SameLine.moves
  · exact ⟨rfl, rfl, rfl, rfl⟩
  · have hthreads : s.threads = s.threads := rfl
    have htally := tally_run [frame] hstack hthreads Frame.filled i
    simpa using htally

/-- A step that moves a buffer or renames the session. -/
theorem moves_moving (h : Boxed s i) (hsound : Sound cfg s) (hchecked : Checked s)
    (hstack : s.threads[t]? = some (frame :: rest)) (hslot : frame.slot = some i)
    (hmoving : frame.moving = true) (now : UInt64) (outcome : Outcome) :
    Moves s ((s.runFrame cfg now outcome frame).1.start t
      ((s.runFrame cfg now outcome frame).2 ++ rest)) i
      (frame.sendEvents i (s.sessionArray i) outcome) := by
  have hpresent : Present s.threads frame := present_of_getElem? hstack (by simp)
  cases frame with
  | sendPacket id pc =>
      cases pc with
      | enqueue =>
          have hindex : findSession id = i := Option.some.inj hslot
          have hid := hchecked _ id hpresent rfl
          subst hindex
          simp only [ContentsServer.runFrame, ContentsServer.sendPacketStep, Frame.sendEvents]
          split
          · rename_i hfailed
            rw [if_neg fun hboth => hboth.2 hfailed]
            apply SameLine.moves
            · exact ⟨rfl, rfl, rfl, rfl⟩
            · refine tally_run_zero hstack rfl rfl ?_ _
              simp [Frame.filled]
          · rename_i hroom
            rw [if_pos ⟨trivial, hroom⟩]
            exact moves_enqueue rfl hstack hid
      | _ => contradiction
  | sendPost j pc =>
      obtain rfl : j = i := Option.some.inj hslot
      cases pc with
      | take k =>
          simp only [ContentsServer.runFrame, ContentsServer.sendPostStep, Frame.sendEvents]
          split
          · exact moves_stay hstack
          · exact moves_take h hsound hstack ‹_›
      | wsaSend k =>
          cases outcome with
          | done =>
              exact moves_wsaSend h hsound .done hstack rfl (sameLine_postIo true _ false)
                fun _ hn => absurd hn List.not_mem_nil
          | pending =>
              exact moves_wsaSend h hsound .pending hstack rfl (sameLine_postIo true _ true)
                (List.forall_mem_singleton.mpr ⟨rfl, rfl⟩)
          | failed =>
              exact moves_wsaSend h hsound .failed hstack rfl ⟨rfl, rfl, rfl, rfl⟩
                (List.forall_mem_singleton.mpr ⟨rfl, rfl⟩)
      | _ => contradiction
  | release j pc =>
      obtain rfl : j = i := Option.some.inj hslot
      cases pc with
      | clearTake =>
          simp only [ContentsServer.runFrame, ContentsServer.releaseStep, Frame.sendEvents,
            if_true]
          split
          · rename_i hqueue
            rw [hqueue]
            exact moves_stay hstack
          · rename_i tag tags hqueue
            rw [hqueue]
            exact moves_clear h hsound hstack hqueue
      | _ => contradiction
  | accept j pc =>
      obtain rfl : j = i := Option.some.inj hslot
      cases pc with
      -- A slot that is accepted has an empty queue.
      | clearTake => exact (h.shaped _ hpresent rfl).elim
      | sessionID => exact moves_sessionID h hsound hstack _
      | _ => contradiction
  | _ => contradiction

/-- **What a step does to the packets of a slot.** -/
theorem moves_step {step : Step} (h : Boxed s i) (hsound : Sound cfg s) (hchecked : Checked s)
    (hstep : Served cfg s step s') : Moves s s' i (sendEvents i s step) := by
  refine hstep.cases_run (P := fun u => Moves s u i (sendEvents i s step)) ?_ ?_
  · rintro t now outcome frame rest rfl hstack
    have hevents : sendEvents i s (.run t now outcome) =
        frame.sendEvents i (s.sessionArray i) outcome := by simp only [sendEvents, hstack]
    rw [hevents]
    by_cases hslot : frame.slot = some i
    · cases hmoving : frame.moving with
      | false =>
          rw [sendEvents_of_still hmoving]
          exact moves_still hstack hslot hmoving now outcome
      | true => exact moves_moving h hsound hchecked hstack hslot hmoving now outcome
    · rw [sendEvents_eq_nil hslot]
      exact moves_elsewhere hstack hslot now outcome
  · intro t stack first u hnot hstack _ hbegan
    have hevents : sendEvents i s step = [] := by
      cases step with
      | run t now outcome => exact absurd rfl (hnot t now outcome)
      | _ => rfl
    rw [hevents]
    apply SameLine.moves
    · exact hbegan.sameLine i
    · refine tally_start_zero hstack hbegan.threads ?_ i
      have hfirst := hbegan.begins
      cases first with
      | sendPost j pc => cases pc <;> first | rfl | simp [Frame.begins] at hfirst
      | _ => rfl

/-! ## Runs -/

/-- What holds of a server in which no flag is cleared under a worker that has won it. -/
structure Serving (cfg : Config) (s : ContentsServer) : Prop where
  sound : Sound cfg s
  lives : Lives s
  checked : Checked s
  sized : ∀ i, Sized s i
  boxed : ∀ i, Boxed s i

theorem serving_started (cfg : Config) (others : Nat) : Serving cfg (startedServer cfg others) where
  sound := sound_started cfg others
  lives := lives_started cfg others
  checked := checked_started cfg others
  sized := sized_started cfg others
  boxed := boxed_started cfg others

theorem Serving.step {step : Step} (h : Serving cfg s) (hswept : SweepsAccepted cfg s step)
    (hkept : FlagKept s step) (hserved : Served cfg s step s') : Serving cfg s' where
  sound := h.sound.step hswept hserved
  lives := h.lives.step h.sound hserved
  checked := h.checked.step h.sound hserved
  sized := fun i => (h.sized i).step hserved
  boxed := boxed_step h.boxed h.sized h.sound h.lives hkept hserved

/-- The packets of a slot, in line. -/
structure InLine (s : ContentsServer) (i : Nat) (events : List SendEvent) : Prop where
  line : enqueuedIn events = departedIn events ++ s.waitingPackets i
  numbered : (enqueuedIn events).map Packet.tag = List.range (s.sessionArray i).enqueued

theorem InLine.step {events more : List SendEvent} (h : InLine s i events)
    (hmoves : Moves s s' i more) : InLine s' i (events ++ more) where
  line := by
    rw [enqueuedIn_append, departedIn_append, h.line, List.append_assoc, hmoves.line,
      List.append_assoc]
  numbered := by
    rw [enqueuedIn_append, List.map_append, h.numbered, hmoves.numbered]

theorem inLine_started (cfg : Config) (others i : Nat) :
    InLine (startedServer cfg others) i [] where
  line := by
    have htally : (startedServer cfg others).tally Frame.filled i = 0 := total_replicate_nil _
    rw [ContentsServer.waitingPackets_eq htally]
    rfl
  numbered := rfl

/-- The events at a slot in a run of the server. -/
def eventsAt (cfg : Config) (others i : Nat) (steps : List Step) : List SendEvent :=
  callsAlong (serverStep cfg) (sendEvents i) (startedServer cfg others) steps

/-- **Packets leave in the order they were enqueued, to the session they were enqueued for.**
In every run in which the flag of a slot is never cleared under a worker that has won it, what
has been enqueued at a slot is what has left it, followed by what the worker inside `SendPost`
has put in the box, followed by the queue; and a slot that is free has nothing left. -/
theorem packets_in_order (cfg : Config) (others : Nat) (steps : List Step) (s : ContentsServer)
    (hsweeps : Along (serverStep cfg) (SweepsAccepted cfg) (startedServer cfg others) steps)
    (hkept : Along (serverStep cfg) FlagKept (startedServer cfg others) steps)
    (h : exec (serverStep cfg) (startedServer cfg others) steps = some s) (i : Nat) :
    enqueuedIn (eventsAt cfg others i steps) =
        departedIn (eventsAt cfg others i steps) ++ s.waitingPackets i ∧
      (enqueuedIn (eventsAt cfg others i steps)).map Packet.tag =
        List.range (s.sessionArray i).enqueued ∧
      (i ∈ s.indexArray → s.waitingPackets i = []) := by
  have hhistory : Serving cfg s ∧ InLine s i ([] ++ eventsAt cfg others i steps) := by
    refine calls_history_along (H := fun s events => Serving cfg s ∧ InLine s i events) ?_
      ⟨serving_started cfg others, inLine_started cfg others i⟩ (hsweeps.and hkept) h
    rintro s step s' events ⟨hserving, hline⟩ ⟨hswept, hkept⟩ hstep
    have hserved := serverStep_served hstep
    exact ⟨hserving.step hswept hkept hserved,
      hline.step (moves_step (hserving.boxed i) hserving.sound hserving.checked hserved)⟩
  obtain ⟨⟨hsound, _, _, _, hboxed⟩, hline⟩ := hhistory
  rw [List.nil_append] at hline
  refine ⟨hline.line, hline.numbered, fun hfree => ?_⟩
  have htoken := hsound.token i
  have hcount := List.count_pos_iff.mpr hfree
  have hlive : (s.sessionArray i).live = 0 := by split at htoken <;> omega
  have howns : s.tally owns i = 0 := by split at htoken <;> omega
  have hdirty : s.tally dirty i = 0 := by
    have := tally_le_mul (s := s) dirty_le_owns i
    omega
  have hoccupying : s.tally occupying i = 0 := by
    rw [tally_occupying, hsound.working_zero hlive, howns]
  have hfilled : s.tally Frame.filled i = 0 := by
    refine total_eq_zero fun other hother => ?_
    unfold weightAt
    split
    · rename_i hslot
      have := le_tally hother hslot occupying
      exact filled_eq_zero (by omega)
    · rfl
  rw [ContentsServer.waitingPackets_eq hfilled, ((hboxed i).clean hlive hdirty).2]
  rfl

/-- One packet is sent to a client that leaves, and another waits for the next client of the
slot. -/
def twoClients : List Step := onePacket ++ accepts ++ sends ⟨0, 2⟩

theorem twoClients_in_order :
    ∃ s, exec (serverStep oneSlot) (startedServer oneSlot 1) twoClients = some s ∧
      eventsAt oneSlot 1 0 twoClients =
        [.enqueued ⟨⟨0, 1⟩, 0⟩, .posted ⟨⟨0, 1⟩, 0⟩, .enqueued ⟨⟨0, 2⟩, 1⟩] ∧
      s.waitingPackets 0 = [⟨⟨0, 2⟩, 1⟩] := by
  have hrun : Along (serverStep oneSlot) (SweepsAccepted oneSlot) (startedServer oneSlot 1)
        twoClients ∧
      Along (serverStep oneSlot) FlagKept (startedServer oneSlot 1) twoClients ∧
      eventsAt oneSlot 1 0 twoClients =
        [.enqueued ⟨⟨0, 1⟩, 0⟩, .posted ⟨⟨0, 1⟩, 0⟩, .enqueued ⟨⟨0, 2⟩, 1⟩] ∧
      (exec (serverStep oneSlot) (startedServer oneSlot 1) twoClients).isSome = true := by
    decide +kernel
  obtain ⟨s, hs⟩ := Option.isSome_iff_exists.mp hrun.2.2.2
  have hline := (packets_in_order oneSlot 1 twoClients s hrun.1 hrun.2.1 hs 0).1
  rw [hrun.2.2.1] at hline
  exact ⟨s, hs, hrun.2.2.1, (List.cons.inj hline).2.symm⟩

end SessionServer.ContentLib
