/-
  MonitorClient/SendStream.lean --- the stream of a monitor client.

  One thread at a time has `sendflag`, so that at most one send is outstanding.  Its buffer
  is the oldest part of the ring and stays as it is until the completion has moved the
  front: what the socket has taken and what is left in the ring are the frames enqueued so
  far.
-/
import SessionServer.Foundation.Run
import SessionServer.MonitorClient.CoreClient

set_option autoImplicit false

namespace SessionServer.Common.RingBuffer.Valid

variable {rb : RingBuffer}

/-- Bytes behind the front that lie in one piece. -/
theorem readBytes_front (h : rb.Valid) {k n : Nat} (hused : (k + n : Int) ≤ rb.getUsedSize)
    (hpiece : rb.front + (k + n) ≤ rb.size) :
    readBytes rb.buffer (rb.front + k) n = (rb.content.drop k).take n := by
  have hlen := h.content_length
  refine List.ext_getElem ?_ fun i h₁ h₂ => ?_
  · rw [readBytes_length, List.length_take, List.length_drop]
    omega
  · rw [readBytes_length] at h₁
    simp only [readBytes, content, List.getElem_map, List.getElem_range, List.getElem_take,
      List.getElem_drop]
    have hlt := h.used_lt
    rw [h.byteAt_eq (by omega), if_pos (by omega)]
    congr 1
    omega

/-- The piece a send is posted for is in the ring. -/
theorem directDequeueSize_spec (h : rb.Valid) (hused : rb.getUsedSize ≠ 0) :
    0 ≤ rb.directDequeueSize ∧ rb.directDequeueSize ≤ rb.getUsedSize ∧
      rb.front + rb.directDequeueSize ≤ rb.size := by
  have := h.front_lt
  have := h.rear_nonneg
  have := h.rear_lt
  unfold directDequeueSize
  unfold getUsedSize at hused ⊢
  split_ifs at * <;> omega

end SessionServer.Common.RingBuffer.Valid

namespace SessionServer.MonitorClient

open SessionServer.Common SessionServer.ContentLib SessionServer.Foundation

/-! ## The invariant -/

namespace Client

/-- The bytes the socket has taken out of what is in the ring. -/
def taken (c : Client) : Nat := (c.posts.map Post.taken).sum

/-- A post is for bytes at the front of the ring. -/
structure Posted (c : Client) (post : Post) : Prop where
  start : post.start = c.sendQ.front
  taken_le : post.taken ≤ post.len
  used : post.len ≤ c.sendQ.getUsedSize
  piece : post.start + post.len ≤ c.sendQ.size

/-- What holds between two steps. -/
structure Streams (c : Client) : Prop where
  valid : c.sendQ.Valid
  one : c.holding + c.posts.length + c.completing ≤ c.sendflag.toNat
  posted : ∀ post ∈ c.posts, c.Posted post
  stream : c.wire ++ c.sendQ.content.drop c.taken = c.enqueued.flatten

theorem start_streams (memory : Int → UInt8) : (start memory).Streams where
  valid := RingBuffer.new_valid memory
  one := Nat.le_refl 0
  posted := by simp [start]
  stream := rfl

namespace Streams

variable {c : Client}

/-- A post is the only one, and nobody else has the flag. -/
theorem only (h : c.Streams) {i : Nat} {post : Post} (hpost : c.posts[i]? = some post) :
    i = 0 ∧ c.posts = [post] ∧ c.holding = 0 ∧ c.completing = 0 ∧ c.sendflag = true := by
  have hone := h.one
  have hflag := c.sendflag.toNat_le
  obtain ⟨hi, hget⟩ := List.getElem?_eq_some_iff.mp hpost
  have hlength : c.posts.length = 1 := by omega
  obtain ⟨first, hfirst⟩ := List.length_eq_one_iff.mp hlength
  obtain rfl : i = 0 := by omega
  refine ⟨rfl, ?_, by omega, by omega, ?_⟩
  · simp only [hfirst, List.getElem_cons_zero] at hget
    rw [hfirst, hget]
  · rw [← Bool.toNat_eq_one]
    omega

theorem taken_of_none (hnone : c.posts = []) : c.taken = 0 := by
  rw [taken, hnone]
  rfl

/-- The socket takes bytes that are in the ring. -/
theorem taken_le (h : c.Streams) : c.taken ≤ c.sendQ.content.length := by
  cases hposts : c.posts with
  | nil => rw [taken_of_none hposts]; exact Nat.zero_le _
  | cons post rest =>
      have hfirst : c.posts[0]? = some post := by
        rw [hposts]
        rfl
      obtain ⟨_, honly, _⟩ := h.only hfirst
      have hposted := h.posted post (by rw [honly]; exact List.mem_cons_self)
      have hlen := h.valid.content_length
      have htaken := hposted.taken_le
      have hused := hposted.used
      have hsum : c.taken = post.taken := by simp [taken, honly]
      omega

/-! ## The steps -/

/-- A frame that does not fit changes nothing. -/
theorem sendPacket_full (h : c.Streams) {cfg : Config} {rand : Nat} {packet : Common.SBuffer}
    (hfull : c.sendQ.getFreeSize < (frame cfg rand packet).length) :
    c.sendPacket cfg rand packet = c := by
  have hfree : 0 ≤ c.sendQ.getFreeSize := by
    have hused := h.valid.used_lt
    unfold RingBuffer.getFreeSize
    omega
  have hout : c.sendQ.enqueue (frame cfg rand packet) = (c.sendQ, 0) := by
    rw [RingBuffer.enqueue, if_neg (by omega)]
  simp only [sendPacket, hout]
  rw [if_neg (by omega)]

theorem sendPacket_fits {cfg : Config} {rand : Nat} {packet : Common.SBuffer}
    (hfit : ((frame cfg rand packet).length : Int) ≤ c.sendQ.getFreeSize) :
    c.sendPacket cfg rand packet =
      { c with
          sendQ := (c.sendQ.enqueue (frame cfg rand packet)).1
          enqueued := c.enqueued ++ [frame cfg rand packet] } := by
  have hout : (c.sendQ.enqueue (frame cfg rand packet)).2 = (frame cfg rand packet).length := by
    rw [RingBuffer.enqueue, if_pos hfit]
  simp only [sendPacket, hout, if_true]

/-- A frame that fits goes behind everything in the ring, and leaves a post alone. -/
theorem sendPacket (h : c.Streams) (cfg : Config) (rand : Nat) (packet : Common.SBuffer) :
    (c.sendPacket cfg rand packet).Streams := by
  by_cases hfit : ((frame cfg rand packet).length : Int) ≤ c.sendQ.getFreeSize
  · rw [sendPacket_fits hfit]
    generalize frame cfg rand packet = bytes at hfit
    obtain ⟨hvalid, hcontent⟩ := h.valid.enqueue_fits hfit
    have hfront : (c.sendQ.enqueue bytes).1.front = c.sendQ.front := by
      rw [RingBuffer.enqueue, if_pos hfit]
    have hsize : (c.sendQ.enqueue bytes).1.size = c.sendQ.size := by
      rw [RingBuffer.enqueue, if_pos hfit]
    have hused : c.sendQ.getUsedSize ≤ (c.sendQ.enqueue bytes).1.getUsedSize := by
      rw [← hvalid.content_length, ← h.valid.content_length, hcontent, List.length_append]
      omega
    refine ⟨hvalid, h.one, fun post hmem => ?_, ?_⟩
    · obtain ⟨hstart, htaken, hlen, hpiece⟩ := h.posted post hmem
      exact ⟨hstart.trans hfront.symm, htaken, hlen.trans hused, hpiece.trans_eq hsize.symm⟩
    · show c.wire ++ (c.sendQ.enqueue bytes).1.content.drop c.taken =
        (c.enqueued ++ [bytes]).flatten
      rw [hcontent, List.drop_append_of_le_length h.taken_le, ← List.append_assoc, h.stream]
      simp
  · rwa [h.sendPacket_full (by omega)]

/-- Threads before the exchange do not matter. -/
theorem withStarting (h : c.Streams) (starting : Nat) :
    Streams { c with starting := starting } where
  valid := h.valid
  one := h.one
  posted post hmem := by
    obtain ⟨hstart, htaken, hused, hpiece⟩ := h.posted post hmem
    exact ⟨hstart, htaken, hused, hpiece⟩
  stream := h.stream

/-- The flag is taken by one thread. -/
theorem exchange (h : c.Streams) (hflag : c.sendflag = false) (starting : Nat) :
    Streams { c with starting := starting, sendflag := true, holding := c.holding + 1 } := by
  have hone := h.one
  rw [hflag, Bool.toNat_false] at hone
  have hposts : c.posts = [] := List.eq_nil_of_length_eq_zero (by omega)
  refine ⟨h.valid, ?_, by simp [hposts], h.stream⟩
  show c.holding + 1 + c.posts.length + c.completing ≤ 1
  omega

/-- The thread that holds the flag posts the oldest bytes, or gives the flag back. -/
theorem postSend (h : c.Streams) (hholding : c.holding ≠ 0) (ok : Bool) :
    (c.postSend ok).Streams := by
  have hone := h.one
  have hflag := c.sendflag.toNat_le
  have hposts : c.posts = [] := List.eq_nil_of_length_eq_zero (by omega)
  have hstream := h.stream
  rw [taken_of_none hposts] at hstream
  simp only [Client.postSend, hposts, List.nil_append]
  split
  · refine ⟨h.valid, ?_, by simp, hstream⟩
    show c.holding - 1 + 0 + c.completing ≤ 0
    omega
  · rename_i hused
    split
    · obtain ⟨hnonneg, hle, hpiece⟩ := h.valid.directDequeueSize_spec hused
      refine ⟨h.valid, ?_, fun post hmem => ?_, hstream⟩
      · show c.holding - 1 + 1 + c.completing ≤ c.sendflag.toNat
        rw [hposts, List.length_nil] at hone
        omega
      · rw [List.mem_singleton.mp hmem]
        exact ⟨rfl, hnonneg, hle, hpiece⟩
    · refine ⟨h.valid, ?_, by simp, hstream⟩
      show c.holding - 1 + 0 + c.completing ≤ c.sendflag.toNat
      omega

/-- What the socket takes are the next bytes of the ring. -/
theorem transfer (h : c.Streams) {i n : Nat} {post : Post} (hpost : c.posts[i]? = some post)
    (hroom : post.taken + n ≤ post.len) : (c.transfer i n post).Streams := by
  obtain ⟨rfl, honly, -, -, -⟩ := h.only hpost
  obtain ⟨hstart, htaken, hused, hpiece⟩ := h.posted post (by rw [honly]; exact List.mem_cons_self)
  have hbefore : c.taken = post.taken := by simp [taken, honly]
  have hread := h.valid.readBytes_front (k := post.taken) (n := n) (by omega) (by omega)
  simp only [Client.transfer, honly, List.set_cons_zero, hstart, hread]
  have hone := h.one
  refine ⟨h.valid, ?_, fun other hmem => ?_, ?_⟩
  · rw [honly] at hone
    exact hone
  · rw [List.mem_singleton.mp hmem]
    refine ⟨rfl, ?_, hused, hstart ▸ hpiece⟩
    show ((post.taken + n : Nat) : Int) ≤ post.len
    omega
  · rw [← h.stream, hbefore, List.append_assoc]
    refine congrArg (c.wire ++ ·) ?_
    show (c.sendQ.content.drop post.taken).take n ++ c.sendQ.content.drop (post.taken + n) = _
    rw [← List.drop_drop, List.take_append_drop]

/-- The completion moves the front over the bytes the socket has taken. -/
theorem sendCompletion (h : c.Streams) {i : Nat} {post : Post} (hpost : c.posts[i]? = some post) :
    (c.sendCompletion i post.taken).Streams := by
  obtain ⟨rfl, honly, hholding, hcompleting, hflag⟩ := h.only hpost
  obtain ⟨hstart, htaken, hused, hpiece⟩ := h.posted post (by rw [honly]; exact List.mem_cons_self)
  obtain ⟨hvalid, hcontent⟩ := h.valid.moveFront_spec (n := post.taken) (by omega)
  have hbefore : c.taken = post.taken := by simp [taken, honly]
  simp only [Client.sendCompletion, honly, List.eraseIdx_zero, List.tail_cons]
  refine ⟨hvalid, ?_, by simp, ?_⟩
  · show c.holding + 0 + (c.completing + 1) ≤ c.sendflag.toNat
    rw [hflag, hholding, hcompleting]
    exact Nat.le_refl 1
  · show c.wire ++ (c.sendQ.moveFront post.taken).content.drop 0 = c.enqueued.flatten
    rw [hcontent, List.drop_zero, ← hbefore, h.stream]

/-- The worker gives the flag back. -/
theorem clear (h : c.Streams) (hcompleting : c.completing ≠ 0) :
    Streams { c with sendflag := false, completing := c.completing - 1 } := by
  have hone := h.one
  have hflag := c.sendflag.toNat_le
  have hposts : c.posts = [] := List.eq_nil_of_length_eq_zero (by omega)
  refine ⟨h.valid, ?_, by simp [hposts], h.stream⟩
  show c.holding + c.posts.length + (c.completing - 1) ≤ 0
  omega

end Streams

end Client

/-! ## One step -/

/-- The frame of a call of `SendPacket`. -/
def SendStep.sent (cfg : Config) : SendStep → Option (List UInt8)
  | .sendPacket rand packet => some (frame cfg rand packet)
  | _ => none

/-- **Everything a step can do.** -/
inductive Moved (cfg : Config) (c : Client) : SendStep → Client → Prop where
  | sent (rand : Nat) (packet : Common.SBuffer) :
      Moved cfg c (.sendPacket rand packet) (c.sendPacket cfg rand packet)
  /-- a look at the ring, or at the flag of another thread -/
  | looked (step : SendStep) (hsent : step.sent cfg = none) (starting : Nat) :
      Moved cfg c step { c with starting := starting }
  | took (starting : Nat) (hflag : c.sendflag = false) :
      Moved cfg c .exchange
        { c with starting := starting, sendflag := true, holding := c.holding + 1 }
  | posted (ok : Bool) (hholding : c.holding ≠ 0) : Moved cfg c (.post ok) (c.postSend ok)
  | transferred (i n : Nat) (post : Post) (hpost : c.posts[i]? = some post)
      (hroom : post.taken + n ≤ post.len) : Moved cfg c (.transfer i n) (c.transfer i n post)
  | completed (i : Nat) (post : Post) (hpost : c.posts[i]? = some post) (hsome : post.taken ≠ 0) :
      Moved cfg c (.sendCompletion i) (c.sendCompletion i post.taken)
  | cleared (hcompleting : c.completing ≠ 0) :
      Moved cfg c .clear { c with sendflag := false, completing := c.completing - 1 }

theorem clientStep_moved {cfg : Config} {c next : Client} {step : SendStep}
    (h : clientStep cfg c step = some next) : Moved cfg c step next := by
  cases step with
  | sendPacket rand packet =>
      rw [clientStep, Option.some.injEq] at h
      exact h ▸ .sent rand packet
  | doSend =>
      simp only [clientStep, Option.some.injEq] at h
      split at h
      · exact h ▸ .looked _ rfl _
      · exact h ▸ .looked _ rfl c.starting
  | exchange =>
      simp only [clientStep] at h
      split at h
      · contradiction
      · split at h <;> rw [Option.some.injEq] at h
        · exact h ▸ .looked _ rfl _
        · rename_i hflag
          exact h ▸ .took _ (by simpa using hflag)
  | post ok =>
      simp only [clientStep, Option.ite_none_left_eq_some, Option.some.injEq] at h
      exact h.2 ▸ .posted ok h.1
  | transfer i n =>
      simp only [clientStep] at h
      split at h
      · contradiction
      · rename_i post hpost
        simp only [Option.ite_none_right_eq_some, Option.some.injEq] at h
        exact h.2 ▸ .transferred i n post hpost h.1
  | sendCompletion i =>
      simp only [clientStep] at h
      split at h
      · contradiction
      · rename_i post hpost
        simp only [Option.ite_none_left_eq_some, Option.some.injEq] at h
        exact h.2 ▸ .completed i post hpost h.1
  | clear =>
      simp only [clientStep, Option.ite_none_left_eq_some, Option.some.injEq] at h
      exact h.2 ▸ .cleared h.1

/-- **One step** keeps the stream. -/
theorem Moved.streams {cfg : Config} {c next : Client} {step : SendStep}
    (hmoved : Moved cfg c step next) (h : c.Streams) : next.Streams := by
  cases hmoved with
  | sent rand packet => exact h.sendPacket cfg rand packet
  | looked _ _ starting => exact h.withStarting starting
  | took starting hflag => exact h.exchange hflag starting
  | posted ok hholding => exact h.postSend hholding ok
  | transferred i n post hpost hroom => exact h.transfer hpost hroom
  | completed i post hpost _ => exact h.sendCompletion hpost
  | cleared hcompleting => exact h.clear hcompleting

/-- What a step adds to the frames enqueued: the frame of its `SendPacket`, or nothing. -/
theorem Moved.enqueued {cfg : Config} {c next : Client} {step : SendStep}
    (hmoved : Moved cfg c step next) :
    ∃ added, next.enqueued = c.enqueued ++ added ∧ added.Sublist (step.sent cfg).toList := by
  have hnone : ∃ added, c.enqueued = c.enqueued ++ added ∧
      added.Sublist (step.sent cfg).toList := ⟨[], by simp⟩
  cases hmoved with
  | sent rand packet =>
      simp only [Client.sendPacket]
      split
      · exact ⟨_, rfl, List.Sublist.refl _⟩
      · exact hnone
  | posted ok hholding =>
      simp only [Client.postSend]
      split
      · exact hnone
      · split <;> exact hnone
  | _ => exact hnone

/-! ## Every run -/

/-- What holds after every run: at most one send is outstanding, and what has been enqueued
are frames of the calls, in their order. -/
structure Served (cfg : Config) (steps : List SendStep) (c : Client) : Prop where
  streams : c.Streams
  enqueued : c.enqueued.Sublist (steps.filterMap (SendStep.sent cfg))

theorem served_run {cfg : Config} {memory : Int → UInt8} {steps : List SendStep} {c : Client}
    (hrun : exec (clientStep cfg) (Client.start memory) steps = some c) : Served cfg steps c := by
  refine exec_history (I := Served cfg) ⟨Client.start_streams memory, List.Sublist.refl []⟩ ?_
    along_true hrun
  intro before c step next _ _ h _ hstep
  have hmoved := clientStep_moved hstep
  obtain ⟨added, hadded, hsub⟩ := hmoved.enqueued
  have hlast : [step].filterMap (SendStep.sent cfg) = (step.sent cfg).toList := by
    cases hsent : step.sent cfg <;> simp [hsent]
  refine ⟨hmoved.streams h.streams, ?_⟩
  rw [hadded, List.filterMap_append, hlast]
  exact h.enqueued.append hsub

/-- **The monitor stream is whole frames in order.**  What the socket has taken is a prefix
of the frames that have been enqueued, in the order of their calls; at most one send is
outstanding; and the next frame is enqueued as a whole, or the call changes nothing. -/
theorem monitor_stream (cfg : Config) (memory : Int → UInt8) (steps : List SendStep) (c : Client)
    (hrun : exec (clientStep cfg) (Client.start memory) steps = some c) :
    c.wire <+: c.enqueued.flatten ∧ c.enqueued.Sublist (steps.filterMap (SendStep.sent cfg)) ∧
      c.posts.length ≤ 1 ∧
      ∀ rand packet,
        if (frame cfg rand packet).length ≤ c.sendQ.getFreeSize then
          (c.sendPacket cfg rand packet).enqueued = c.enqueued ++ [frame cfg rand packet]
        else c.sendPacket cfg rand packet = c := by
  obtain ⟨hstreams, hsublist⟩ := served_run hrun
  have hone := hstreams.one
  have hflag := c.sendflag.toNat_le
  refine ⟨⟨_, hstreams.stream⟩, hsublist, by omega, fun rand packet => ?_⟩
  split
  · rename_i hfit
    rw [Client.Streams.sendPacket_fits hfit]
  · rename_i hfull
    exact hstreams.sendPacket_full (by omega)

/-- A client of a monitoring server on the LAN. -/
def lanConfig : Config := ⟨LANCLIENT, 0, 0⟩

/-- A packet with four bytes of payload. -/
def fourBytePacket : Common.SBuffer :=
  ((Common.SBuffer.new fun _ => 7).clear.putData [1, 2, 3, 4]).1

/-- A frame is sent in two parts, and a second one is enqueued in between. -/
def sentInParts : List SendStep :=
  [.sendPacket 0 fourBytePacket, .doSend, .exchange, .post true, .transfer 0 2,
    .sendPacket 0 fourBytePacket, .doSend, .exchange, .transfer 0 1, .sendCompletion 0, .clear,
    .doSend, .exchange, .post true, .transfer 0 9]

theorem sentInParts_stream :
    ∃ c ∈ exec (clientStep lanConfig) (Client.start fun _ => 0) sentInParts,
      c.wire <+: c.enqueued.flatten ∧
        c.enqueued.Sublist (sentInParts.filterMap (SendStep.sent lanConfig)) ∧
        c.posts.length ≤ 1 ∧
        ∀ rand packet,
          if (frame lanConfig rand packet).length ≤ c.sendQ.getFreeSize then
            (c.sendPacket lanConfig rand packet).enqueued =
              c.enqueued ++ [frame lanConfig rand packet]
          else c.sendPacket lanConfig rand packet = c := by
  have hsome : (exec (clientStep lanConfig) (Client.start fun _ => 0) sentInParts).isSome := by
    decide +kernel
  obtain ⟨c, hc⟩ := Option.isSome_iff_exists.mp hsome
  exact ⟨c, hc, monitor_stream lanConfig (fun _ => 0) sentInParts c hc⟩

end SessionServer.MonitorClient
