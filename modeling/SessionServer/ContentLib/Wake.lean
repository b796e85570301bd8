/-
  ContentLib/Wake.lean --- who will look at a send queue again.

  A packet waits on `_sendQ` while somebody is still to look at the queue: the caller of
  `SendPacket` who has not posted its message, the message, a worker inside `SendPost`, a
  send, or the worker that takes its completion.  `_sendFlag` is set while one of the last
  three is still to clear it.  `Awake` states both for one slot, and that the slot is
  handed to a new session with nothing to send.
-/
import SessionServer.ContentLib.SendBox

set_option autoImplicit false

namespace SessionServer.ContentLib

open SessionServer.Foundation

/-! ## Frames -/

namespace Frame

/-- The frame looks at the queue again, or leaves a message or a send that does. -/
def waking : Frame → Nat
  | sendPacket _ .size => 1
  | sendPacket _ .post => 1
  | sendPost _ .recheck => 0
  | sendPost _ .cancel => 0
  | sendPost _ _ => 1
  | sent _ _ => 1
  | _ => 0

/-- `AcceptThread` between its stores to `_sendFlag` and to `_dFlag`. -/
def settling : Frame → Nat
  | accept _ .inc => 1
  | accept _ .and => 1
  | accept _ .contentsNum => 1
  | accept _ .dFlag => 1
  | _ => 0

/-- `AcceptThread` between its `ClearSendQ` and `OnAccept`: nobody knows the session. -/
def blank : Frame → Nat
  | accept _ .clearRestore => 1
  | accept _ .sessionID => 1
  | accept _ .time => 1
  | accept _ .firstRecv => 1
  | accept _ .sendFlag => 1
  | accept _ .inc => 1
  | accept _ .and => 1
  | accept _ .contentsNum => 1
  | accept _ .dFlag => 1
  | accept _ .sessionKey => 1
  | accept _ .onAccept => 1
  | _ => 0

/-- `SendPost` with a buffer it has taken off the queue. -/
def carrying : Frame → Nat
  | sendPost _ (.dequeue (_ + 1)) => 1
  | sendPost _ (.take (_ + 1)) => 1
  | sendPost _ (.restore (_ + 1)) => 1
  | sendPost _ (.count (_ + 1)) => 1
  | sendPost _ (.wsaSend _) => 1
  | _ => 0

/-- The step of the frame has nothing to do with the sends of a slot. -/
def apart : Frame → Bool
  | sendPacket _ .enqueue => false
  | sendPacket _ .size => false
  | sendPacket _ .post => false
  | sendPost _ .recheck => true
  | sendPost _ .cancel => true
  | sendPost _ _ => false
  | sent _ _ => false
  | release _ .clearTake => false
  | accept _ .clear => false
  | accept _ .clearTake => false
  | accept _ .clearRestore => false
  | accept _ .sessionID => false
  | accept _ .time => false
  | accept _ .firstRecv => false
  | accept _ .sendFlag => false
  | accept _ .inc => false
  | accept _ .and => false
  | accept _ .contentsNum => false
  | accept _ .dFlag => false
  | accept _ .sessionKey => false
  | accept _ .onAccept => false
  | _ => true

/-- The step of the frame writes nothing the sends of a slot depend on. -/
def still : Frame → Bool
  | sendPacket _ .enqueue => false
  | sendPacket _ .post => false
  | sent _ .sendFlag => false
  | sendPost _ .exchange => false
  | sendPost _ (.take _) => false
  | sendPost _ .reset => false
  | sendPost _ (.wsaSend _) => false
  | release _ .clearTake => false
  | accept _ .clearTake => false
  | accept _ .sendFlag => false
  | accept _ .and => false
  | accept _ .dFlag => false
  | _ => true

/-- The frame counts for nothing. -/
structure Weightless (frame : Frame) : Prop where
  sending : frame.sending = 0
  waking : frame.waking = 0
  settling : frame.settling = 0
  blank : frame.blank = 0
  carrying : frame.carrying = 0

theorem apart_weightless {frame : Frame} (h : frame.apart = true) : frame.Weightless := by
  cases frame with
  | sendPacket id pc => cases pc <;> first | exact ⟨rfl, rfl, rfl, rfl, rfl⟩ | contradiction
  | sendPost i pc => cases pc <;> first | exact ⟨rfl, rfl, rfl, rfl, rfl⟩ | contradiction
  | sent i pc => contradiction
  | accept i pc => cases pc <;> first | exact ⟨rfl, rfl, rfl, rfl, rfl⟩ | contradiction
  | _ => exact ⟨rfl, rfl, rfl, rfl, rfl⟩

theorem apart_still {frame : Frame} (h : frame.apart = true) : frame.still = true := by
  cases frame with
  | sendPacket id pc => cases pc <;> first | rfl | contradiction
  | sendPost i pc => cases pc <;> first | rfl | contradiction
  | sent i pc => contradiction
  | release i pc => cases pc <;> first | rfl | contradiction
  | accept i pc => cases pc <;> first | rfl | contradiction
  | _ => rfl

/-- The frames that take the place of a frame count for what it did. -/
structure Covers (frame : Frame) (frames : List Frame) : Prop where
  sending : frame.sending ≤ (frames.map Frame.sending).sum
  waking : frame.waking ≤ (frames.map Frame.waking).sum
  settling : (frames.map Frame.settling).sum ≤ frame.settling
  blank : (frames.map Frame.blank).sum ≤ frame.blank
  carrying : (frames.map Frame.carrying).sum ≤ frame.carrying

/-- One frame that takes the place of another. -/
theorem Covers.goto {frame next : Frame} (hsending : next.sending = frame.sending)
    (hwaking : next.waking = frame.waking) (hsettling : next.settling = frame.settling)
    (hblank : next.blank = frame.blank) (hcarrying : next.carrying = frame.carrying) :
    Covers frame [next] := by
  constructor <;> simp [hsending, hwaking, hsettling, hblank, hcarrying]

theorem sending_le_waking (frame : Frame) : frame.sending ≤ 1 * frame.waking := by
  cases frame with
  | sendPost i pc => cases pc <;> simp [sending, waking]
  | _ => simp [sending, waking]

theorem carrying_confirmed {frame : Frame} (h : frame.carrying ≠ 0) : frame.confirmed = true := by
  unfold carrying at h
  split at h <;> first | rfl | exact absurd rfl h

/-- Between a node and its count, a frame that does not own the slot looks again. -/
theorem counting_waking {frame : Frame} (h : frame.counting ≠ 0) (howns : frame.owns ≠ 1) :
    frame.waking = 1 := by
  unfold counting at h
  split at h <;> first | rfl | exact absurd rfl howns | exact absurd rfl h

end Frame

open ContentLib.Frame

/-! ## The sends of a slot -/

/-- The sends outstanding. -/
def Session.sends (x : Session) : Nat := x.io.countP Io.send

/-- **Somebody will look at the queue of the slot again.** -/
structure Awake (s : ContentsServer) (i : Nat) : Prop where
  /-- `_sendFlag` is set for somebody who clears it. -/
  flag : s.tally settling i ≠ 0 ∨
      ((s.sessionArray i).live = 1 ∧ (s.sessionArray i).dFlag = false) →
    (s.sessionArray i).sendFlag = true → 0 < s.tally sending i + (s.sessionArray i).sends
  /-- Packets wait for somebody who looks. -/
  wake : (s.sessionArray i).live = 1 → (s.sessionArray i).dFlag = false →
    (s.sessionArray i).sendQ ≠ [] →
      0 < s.tally waking i + (s.sessionArray i).sends + s.queue.count (.sendPost i)
  /-- A session nobody knows has nothing to send. -/
  blank : s.tally blank i ≠ 0 →
    (s.sessionArray i).sendQ = [] ∧ (s.sessionArray i).sends = 0 ∧ s.tally carrying i = 0

theorem awake_started (cfg : Config) (others i : Nat) : Awake (startedServer cfg others) i where
  flag := by simp [startedServer, emptySession]
  wake := by simp [startedServer, emptySession]
  blank := by
    intro h
    exact absurd (by simp [ContentsServer.tally, startedServer, total]) h

/-- What the sends of a slot depend on is the same, or the session is closing. -/
structure SameWake (x y : Session) : Prop where
  sendFlag : y.sendFlag = x.sendFlag
  sendQ : y.sendQ = x.sendQ
  sends : y.sends = x.sends
  live : y.live = 1 → x.live = 1
  dFlag : y.dFlag = false → x.dFlag = false

theorem SameWake.refl (x : Session) : SameWake x x := ⟨rfl, rfl, rfl, id, id⟩

variable {cfg : Config} {s s' : ContentsServer} {frame : Frame} {frames : List Frame}
  {i t : Nat} {rest : List Frame}

theorem sends_cancelled (x : Session) :
    ({ x with io := x.io.map fun io => { io with cancelled := true } } : Session).sends =
      x.sends := by
  simp only [Session.sends, List.countP_map]
  rfl

theorem Wrote.sameWake {write : Session → Session} (h : Wrote frame write)
    (hstill : frame.still = true) (x : Session) : SameWake x (write x) := by
  cases h with
  | cancel => exact ⟨rfl, rfl, sends_cancelled x, id, id⟩
  | mark | dead => exact ⟨rfl, rfl, rfl, id, by simp⟩
  | wsaRecv | acceptWsaRecv => exact ⟨rfl, rfl, by simp [Session.sends], id, id⟩
  | cas => exact ⟨rfl, rfl, rfl, by simp [Session.live], id⟩
  | _ =>
      first
        | contradiction
        | exact ⟨rfl, rfl, rfl, id, id⟩

/-- A step apart from the sends leads to frames that count for nothing. -/
theorem Next.weightless {next : Frame} (h : Next s frame next) (hapart : frame.apart = true) :
    next.Weightless := by
  cases h <;> first | contradiction | exact ⟨rfl, rfl, rfl, rfl, rfl⟩

/-- The same sends and the same weights. -/
theorem Awake.same (h : Awake s i) (hsame : SameWake (s.sessionArray i) (s'.sessionArray i))
    (hqueue : s'.queue.count (.sendPost i) = s.queue.count (.sendPost i))
    (hsending : s'.tally sending i = s.tally sending i)
    (hwaking : s'.tally waking i = s.tally waking i)
    (hsettling : s'.tally settling i = s.tally settling i)
    (hblank : s'.tally Frame.blank i = s.tally Frame.blank i)
    (hcarrying : s'.tally carrying i = s.tally carrying i) : Awake s' i where
  flag := by
    intro hgate hflag
    rw [hsending, hsame.sends]
    refine h.flag ?_ (hsame.sendFlag ▸ hflag)
    rw [hsettling] at hgate
    exact hgate.imp id fun hopen => ⟨hsame.live hopen.1, hsame.dFlag hopen.2⟩
  wake := by
    intro hlive hdFlag hsendQ
    rw [hwaking, hsame.sends, hqueue]
    exact h.wake (hsame.live hlive) (hsame.dFlag hdFlag) (hsame.sendQ ▸ hsendQ)
  blank := by
    intro hnot
    rw [hblank] at hnot
    rw [hsame.sendQ, hsame.sends, hcarrying]
    exact h.blank hnot

/-- The messages for a slot after a step. -/
theorem runFrame_sendPosts (cfg : Config) (now : UInt64) (outcome : Outcome) (i : Nat)
    (hpost : ∀ id, frame = .sendPacket id .post → findSession id ≠ i) :
    (s.runFrame cfg now outcome frame).1.queue.count (.sendPost i) =
      s.queue.count (.sendPost i) := by
  rcases runFrame_queue cfg s now outcome frame with hsame | ⟨j, _, hqueue⟩ | ⟨id, hframe, hqueue⟩
  · rw [hsame]
  · rw [hqueue, List.count_append, List.count_singleton]
    simp
  · rw [hqueue, List.count_append, List.count_singleton]
    simp [hpost id hframe]

theorem Awake.apart (h : Awake s i) (hstack : s.threads[t]? = some (frame :: rest))
    (hapart : frame.apart = true) (now : UInt64) (outcome : Outcome) :
    Awake ((s.runFrame cfg now outcome frame).1.start t
      ((s.runFrame cfg now outcome frame).2 ++ rest)) i := by
  have hran : Ran cfg s frame _ _ := runFrame_ran now outcome frame
  have hthreads := hran.threads
  have hnext := fun next (hn : next ∈ (s.runFrame cfg now outcome frame).2) =>
    (runFrame_next hn).weightless hapart
  have hframe := apart_weightless hapart
  obtain ⟨write, hupdated⟩ := runFrame_updated cfg s now outcome frame
  have htally : ∀ w : Frame → Nat, w frame = 0 →
      (∀ next ∈ (s.runFrame cfg now outcome frame).2, w next = 0) →
      ((s.runFrame cfg now outcome frame).1.start t
        ((s.runFrame cfg now outcome frame).2 ++ rest)).tally w i = s.tally w i :=
    fun _ hw hzero => tally_run_zero hstack hthreads hw hzero i
  refine h.same (hupdated.rel SameWake .refl (hupdated.wrote.sameWake (apart_still hapart)) i) ?_
    (htally _ hframe.sending fun next hn => (hnext next hn).sending)
    (htally _ hframe.waking fun next hn => (hnext next hn).waking)
    (htally _ hframe.settling fun next hn => (hnext next hn).settling)
    (htally _ hframe.blank fun next hn => (hnext next hn).blank)
    (htally _ hframe.carrying fun next hn => (hnext next hn).carrying)
  refine runFrame_sendPosts cfg now outcome i ?_
  rintro id rfl
  contradiction

/-- A step of a frame at another slot. -/
theorem Awake.elsewhere {j : Nat} (h : Awake s i) (hstack : s.threads[t]? = some (frame :: rest))
    (hslot : frame.slot = some j) (hne : i ≠ j) (now : UInt64) (outcome : Outcome) :
    Awake ((s.runFrame cfg now outcome frame).1.start t
      ((s.runFrame cfg now outcome frame).2 ++ rest)) i := by
  have hran : Ran cfg s frame _ _ := runFrame_ran now outcome frame
  have hthreads := hran.threads
  have hnext : ∀ next ∈ (s.runFrame cfg now outcome frame).2, next.slot = some j :=
    runFrame_slot hslot
  obtain ⟨write, hupdated⟩ := runFrame_updated cfg s now outcome frame
  have htally : ∀ w : Frame → Nat, ((s.runFrame cfg now outcome frame).1.start t
      ((s.runFrame cfg now outcome frame).2 ++ rest)).tally w i = s.tally w i := by
    intro w
    have := tally_run_slot hstack hthreads hslot hnext w i
    simpa [hne.symm] using this
  refine h.same ?_ ?_ (htally _) (htally _) (htally _) (htally _) (htally _)
  · show SameWake _ ((s.runFrame cfg now outcome frame).1.sessionArray i)
    rw [hupdated.there i (by rw [hslot]; simpa using hne.symm)]
    exact .refl _
  · refine runFrame_sendPosts cfg now outcome i ?_
    rintro id rfl
    obtain rfl := Option.some.inj hslot
    exact hne.symm

end SessionServer.ContentLib
