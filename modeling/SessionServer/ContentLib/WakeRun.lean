/-
  ContentLib/WakeRun.lean --- no packet is left behind.

  Each step of the send path hands the queue to somebody else before it lets go of it.
  A winner of `_sendFlag` from an earlier life of a slot that returns early leaves the flag
  set for the next session, and so does a send that completes with an error.
-/
import SessionServer.ContentLib.Wake
import SessionServer.ContentLib.StaleRun

set_option autoImplicit false

namespace SessionServer.ContentLib

open SessionServer.Foundation ContentLib.Frame

variable {cfg : Config} {s s' : ContentsServer} {frame : Frame} {frames : List Frame}
  {i t : Nat} {rest : List Frame}

/-! ## Steps at the slot -/

/-- A step of a frame at the slot, with the weights after it. -/
theorem Awake.at_slot (hstack : s.threads[t]? = some (frame :: rest))
    (hthreads : s'.threads = s.threads) (hslot : frame.slot = some i)
    (hnext : ∀ next ∈ frames, next.slot = some i)
    (hflag : ∀ n m, n + frame.sending = s.tally sending i + (frames.map sending).sum →
      m + frame.settling = s.tally settling i + (frames.map settling).sum →
      m ≠ 0 ∨ ((s'.sessionArray i).live = 1 ∧ (s'.sessionArray i).dFlag = false) →
      (s'.sessionArray i).sendFlag = true → 0 < n + (s'.sessionArray i).sends)
    (hwake : ∀ n m, n + frame.waking = s.tally waking i + (frames.map waking).sum →
      m + frame.sending = s.tally sending i + (frames.map sending).sum → m ≤ n →
      (s'.sessionArray i).live = 1 → (s'.sessionArray i).dFlag = false →
      (s'.sessionArray i).sendQ ≠ [] →
        0 < n + (s'.sessionArray i).sends + s'.queue.count (.sendPost i))
    (hblank : ∀ n m, n + frame.blank = s.tally Frame.blank i + (frames.map Frame.blank).sum →
      m + frame.carrying = s.tally carrying i + (frames.map carrying).sum → n ≠ 0 →
      (s'.sessionArray i).sendQ = [] ∧ (s'.sessionArray i).sends = 0 ∧ m = 0) :
    Awake (s'.start t (frames ++ rest)) i := by
  have htally : ∀ w : Frame → Nat, (s'.start t (frames ++ rest)).tally w i + w frame =
      s.tally w i + (frames.map w).sum := by
    intro w
    have := tally_run_slot hstack hthreads hslot hnext w i
    simpa using this
  have hle : (s'.start t (frames ++ rest)).tally sending i ≤
      (s'.start t (frames ++ rest)).tally waking i := by
    have := tally_le_mul (s := s'.start t (frames ++ rest)) sending_le_waking i
    omega
  exact ⟨hflag _ _ (htally _) (htally _), hwake _ _ (htally _) (htally _) hle,
    hblank _ _ (htally _) (htally _)⟩

/-- A step that gives nothing away: the weights stay, or the session is closing, or the
flag is cleared. -/
theorem Awake.keep (h : Awake s i) (hstack : s.threads[t]? = some (frame :: rest))
    (hthreads : s'.threads = s.threads) (hslot : frame.slot = some i)
    (hnext : ∀ next ∈ frames, next.slot = some i)
    (hqueue : s'.queue.count (.sendPost i) = s.queue.count (.sendPost i))
    (hlive : (s'.sessionArray i).live = 1 → (s.sessionArray i).live = 1)
    (hdFlag : (s'.sessionArray i).dFlag = false → (s.sessionArray i).dFlag = false)
    (hsendQ : (s.sessionArray i).sendQ = [] → (s'.sessionArray i).sendQ = [])
    (hsends : (s'.sessionArray i).sends = (s.sessionArray i).sends)
    (hflag : (s'.sessionArray i).sendFlag = true →
      (s.sessionArray i).sendFlag = true ∧ frame.sending ≤ (frames.map sending).sum)
    (hwaking : (s'.sessionArray i).live = 1 → (s'.sessionArray i).dFlag = false →
      frame.waking ≤ (frames.map waking).sum)
    (hsettling : (frames.map settling).sum ≤ frame.settling)
    (hblank : (frames.map Frame.blank).sum ≤ frame.blank)
    (hcarrying : (frames.map carrying).sum ≤ frame.carrying) :
    Awake (s'.start t (frames ++ rest)) i := by
  refine Awake.at_slot hstack hthreads hslot hnext ?_ ?_ ?_
  · intro n m hn hm hgate hset
    obtain ⟨hold, hle⟩ := hflag hset
    have hpos := h.flag
      (hgate.imp (fun hne => by omega) fun hopen => ⟨hlive hopen.1, hdFlag hopen.2⟩) hold
    omega
  · intro n _ hn _ _ hlive' hdFlag' hsendQ'
    have hle := hwaking hlive' hdFlag'
    have hpos := h.wake (hlive hlive') (hdFlag hdFlag') fun hnil => hsendQ' (hsendQ hnil)
    rw [hsends, hqueue]
    omega
  · intro n m hn hm hne
    obtain ⟨hnil, hnone, hzero⟩ := h.blank (by omega)
    exact ⟨hsendQ hnil, hsends.trans hnone, by omega⟩

/-- A step that only goes on, as far as the sends are concerned. -/
theorem Awake.goOn (h : Awake s i) (hstack : s.threads[t]? = some (frame :: rest))
    (hslot : frame.slot = some i) (hstill : frame.still = true) (now : UInt64) (outcome : Outcome)
    (hcovers : Covers frame (s.runFrame cfg now outcome frame).2) :
    Awake ((s.runFrame cfg now outcome frame).1.start t
      ((s.runFrame cfg now outcome frame).2 ++ rest)) i := by
  have hran : Ran cfg s frame _ _ := runFrame_ran now outcome frame
  obtain ⟨write, hupdated⟩ := runFrame_updated cfg s now outcome frame
  have hsame := hupdated.rel SameWake .refl (hupdated.wrote.sameWake hstill) i
  refine h.keep hstack hran.threads hslot ?_ ?_ hsame.live hsame.dFlag
    (fun hnil => hsame.sendQ ▸ hnil) hsame.sends
    (fun hset => ⟨hsame.sendFlag ▸ hset, hcovers.sending⟩) (fun _ _ => hcovers.waking)
    hcovers.settling hcovers.blank hcovers.carrying
  · exact runFrame_slot hslot
  · refine runFrame_sendPosts cfg now outcome i ?_
    rintro id rfl
    contradiction

/-! ### SendPacket -/

/-- The IDs `SendPacket` is called with have been issued. -/
def Named (s : ContentsServer) : Prop :=
  ∀ id pc, Present s.threads (.sendPacket id pc) → id ∈ s.issued

theorem named_started (cfg : Config) (others : Nat) : Named (startedServer cfg others) := by
  exact fun id pc hpresent => absurd hpresent (not_present_started cfg others _)

theorem Ran.issued_mono (h : Ran cfg s frame s' frames) {id : SessionID} (hid : id ∈ s.issued) :
    id ∈ s'.issued := by
  cases h with
  | quiet frame s' frames hsame hfollows hrest hholds => exact hsame.issued ▸ hid
  | onAccept j => exact List.mem_cons_of_mem _ hid
  | _ => exact hid

theorem Named.step {step : Step} (h : Named s) (hstep : Served cfg s step s') : Named s' := by
  refine hstep.cases_run ?_ ?_
  · intro t now outcome frame rest _ hstack id pc hother
    have hran : Ran cfg s frame _ _ := runFrame_ran now outcome frame
    have hpresent : Present s.threads frame := present_of_getElem? hstack (by simp)
    rw [ContentsServer.start, hran.threads] at hother
    refine hran.issued_mono ?_
    rcases Present.of_set_cons hstack hother with hnew | ⟨hold, _⟩
    · have hframe : ∃ pc, frame = .sendPacket id pc := by
        cases runFrame_next hnew <;> exact ⟨_, rfl⟩
      obtain ⟨pc, rfl⟩ := hframe
      exact h id pc hpresent
    · exact h id pc hold
  · intro t stack first u _ hstack _ hbegan id pc hother
    rw [ContentsServer.start, hbegan.threads] at hother
    show id ∈ u.issued
    rw [hbegan.issued]
    rcases Present.of_set_append [first] hstack hother with hnew | hold
    · obtain rfl := List.mem_singleton.mp hnew
      cases pc with
      | inc => exact hbegan.named id rfl
      | _ => exact absurd hbegan.begins (by simp [Frame.begins])
    · exact h id pc hold

/-- A blank frame owns its slot, or `OnAccept` was not called yet. -/
theorem blank_cases (h : frame.blank ≠ 0) : frame.owns = 1 ∨ frame.entering = 1 := by
  unfold Frame.blank at h
  split at h <;> first | exact Or.inl rfl | exact Or.inr rfl | exact absurd rfl h

/-- A caller of `SendPacket` that has found its session finds nobody entering. -/
theorem Checked.not_blank (h : Checked s) (hsound : Sound cfg s) (hlives : Lives s)
    (hnamed : Named s) {id : SessionID}
    (hpresent : Present s.threads (.sendPacket id .enqueue)) :
    s.tally Frame.blank (findSession id) = 0 := by
  have hlive := hsound.live_of_confirmed hpresent rfl rfl
  refine total_eq_zero fun other hother => ?_
  unfold weightAt
  split
  · rename_i hat
    by_contra hblank
    rcases blank_cases hblank with howns | hentering
    · have := (hsound.owner hother howns hat).2.2.1
      omega
    · -- The session would have been issued before its `OnAccept`.
      have hone := (hlives.living hsound hlive).2.2
      have hle := le_tally hother hat entering
      have hid := h _ id hpresent rfl
      have hnil : s.history id = [] := by
        rw [hid] at hone
        exact List.length_eq_zero_iff.mp (by omega)
      have hcount := hlives.issued id
      rw [if_pos hnil] at hcount
      exact List.count_eq_zero.mp hcount (hnamed id _ hpresent)
  · rfl

/-- A packet is queued; its caller is still to post the message. -/
theorem Awake.enqueue {id : SessionID} (h : Awake s (findSession id))
    (hzero : s.tally Frame.blank (findSession id) = 0)
    (hstack : s.threads[t]? = some (.sendPacket id .enqueue :: rest)) :
    Awake ((s.modify (findSession id) fun x =>
      { x with sendQ := x.sendQ ++ [x.enqueued], enqueued := x.enqueued + 1 }).start t
        ([Frame.sendPacket id .size] ++ rest)) (findSession id) := by
  refine Awake.at_slot hstack rfl rfl (by simp [slot]) ?_ ?_ ?_
  all_goals simp only [ContentsServer.modify_self, List.map_cons, List.map_nil, List.sum_cons,
    List.sum_nil, sending, settling, waking, Frame.blank, carrying, Nat.add_zero]
  · rintro n m rfl rfl
    exact h.flag
  · intros
    omega
  · intros
    omega

/-- The message is posted. -/
theorem Awake.post {id : SessionID} (h : Awake s (findSession id))
    (hstack : s.threads[t]? = some (.sendPacket id .post :: rest)) :
    Awake ((s.post (.sendPost (findSession id))).start t
      ([Frame.drop (findSession id) false] ++ rest)) (findSession id) := by
  refine Awake.at_slot hstack rfl rfl (by simp [slot]) ?_ ?_ ?_
  all_goals simp only [List.map_cons, List.map_nil, List.sum_cons, List.sum_nil, sending, settling,
    waking, Frame.blank, carrying, Nat.add_zero]
  · rintro n m rfl rfl
    exact h.flag
  · intros
    simp [ContentsServer.post]
  · rintro n m rfl rfl
    exact h.blank

theorem awake_sendPacket {id : SessionID} {pc : SendPacketPc} (h : Awake s (findSession id))
    (hchecked : Checked s) (hsound : Sound cfg s) (hlives : Lives s) (hnamed : Named s)
    (hstack : s.threads[t]? = some (.sendPacket id pc :: rest)) (now : UInt64) (outcome : Outcome)
    (hapart : ¬ (Frame.sendPacket id pc).apart = true) :
    Awake ((s.runFrame cfg now outcome (.sendPacket id pc)).1.start t
      ((s.runFrame cfg now outcome (.sendPacket id pc)).2 ++ rest)) (findSession id) := by
  have hpresent : Present s.threads (.sendPacket id pc) := present_of_getElem? hstack (by simp)
  cases pc with
  | inc | check | dFlag => exact absurd rfl hapart
  | enqueue =>
      simp only [ContentsServer.runFrame, ContentsServer.sendPacketStep]
      split
      · refine h.keep hstack rfl rfl (by simp [slot]) rfl ?_ ?_ ?_ rfl ?_ ?_ ?_ ?_ ?_ <;>
          simp [sending, waking, settling, Frame.blank, carrying]
      · exact h.enqueue (hchecked.not_blank hsound hlives hnamed hpresent) hstack
  | size => exact h.goOn hstack rfl rfl now outcome (.goto rfl rfl rfl rfl rfl)
  | post => exact h.post hstack

/-! ### SendCompletion -/

/-- The flag is cleared by somebody who looks at the queue again. -/
theorem Awake.clearFlag (h : Awake s i) (frames : List Frame)
    (hstack : s.threads[t]? = some (frame :: rest)) (hslot : frame.slot = some i)
    (hnext : ∀ next ∈ frames, next.slot = some i)
    (hwaking : frame.waking ≤ (frames.map waking).sum)
    (hsettling : (frames.map settling).sum = 0) (hblank : (frames.map Frame.blank).sum = 0)
    (hcarrying : (frames.map carrying).sum = 0) :
    Awake ((s.setSendFlag i false).start t (frames ++ rest)) i := by
  refine h.keep hstack rfl hslot hnext rfl ?_ ?_ ?_ ?_ ?_ (fun _ _ => hwaking) (by omega) (by omega)
    (by omega) <;>
    simp [ContentsServer.setSendFlag, Session.live, Session.sends]

theorem awake_sent {pc : SentPc} (h : Awake s i)
    (hstack : s.threads[t]? = some (.sent i pc :: rest)) (now : UInt64) (outcome : Outcome) :
    Awake ((s.runFrame cfg now outcome (.sent i pc)).1.start t
      ((s.runFrame cfg now outcome (.sent i pc)).2 ++ rest)) i := by
  cases pc with
  | drop k =>
      refine h.goOn hstack rfl rfl now outcome ?_
      simp only [ContentsServer.runFrame, ContentsServer.sentStep]
      split <;> exact .goto rfl rfl rfl rfl rfl
  | zero => exact h.goOn hstack rfl rfl now outcome (.goto rfl rfl rfl rfl rfl)
  | sendFlag =>
      exact h.clearFlag [.sendPost i .dFlag, .drop i false] hstack rfl (by simp [slot])
        (by simp [waking]) (by simp [settling]) (by simp [Frame.blank]) (by simp [carrying])

/-! ### SendPost -/

/-- A live queue that `_size` shows empty and is not has somebody else inside `Enqueue` or
`Dequeue`. -/
theorem Sized.waker (h : Sized s i) (hsound : Sound cfg s)
    (hstack : s.threads[t]? = some (frame :: rest)) (hslot : frame.slot = some i)
    (hcounting : frame.counting = 0) (hlive : (s.sessionArray i).live = 1)
    (hsize : ¬ 0 < (s.sessionArray i).size) (hsendQ : (s.sessionArray i).sendQ ≠ []) :
    frame.waking < s.tally waking i := by
  have htally : ∀ w : Frame → Nat,
      (s.start t ([] ++ rest)).tally w i + w frame = s.tally w i := by
    intro w
    have := tally_run [] hstack (rfl : s.threads = s.threads) w i
    simpa [weightAt, hslot] using this
  have hothers : (s.start t ([] ++ rest)).tally counting i ≠ 0 := by
    have hcount := htally counting
    have hlength := List.length_pos_iff.mpr hsendQ
    rw [Sized] at h
    omega
  have hwaking : (s.start t ([] ++ rest)).tally waking i ≠ 0 := by
    intro hnone
    refine hothers (total_eq_zero fun other hother => ?_)
    unfold weightAt
    split
    · rename_i hat
      by_contra hne
      have hpresent : Present s.threads other := by
        rcases Present.of_set_cons hstack hother with hnew | ⟨hold, _⟩
        · simp at hnew
        · exact hold
      have hone := counting_waking hne fun howns => by
        have := (hsound.owner hpresent howns hat).2.2.1
        omega
      have := le_tally (s := s.start t ([] ++ rest)) hother hat waking
      omega
    · rfl
  have := htally waking
  omega

/-- `SendPost` returns where `_size` shows an empty queue. -/
theorem Awake.giveUp (h : Awake s i) (frames : List Frame) (hsized : Sized s i)
    (hsound : Sound cfg s) (hstack : s.threads[t]? = some (frame :: rest))
    (hslot : frame.slot = some i) (hnext : ∀ next ∈ frames, next.slot = some i)
    (hsize : ¬ 0 < (s.sessionArray i).size) (hcounting : frame.counting = 0)
    (hsending : frame.sending = 0) (hframes : ∀ next ∈ frames, next.Weightless) :
    Awake (s.start t (frames ++ rest)) i := by
  have hsum : ∀ w : Frame → Nat, (∀ next ∈ frames, w next = 0) → (frames.map w).sum = 0 :=
    fun w hw => sum_map_zero hw
  refine Awake.at_slot hstack rfl hslot hnext ?_ ?_ ?_
  · rw [hsum _ fun next hn => (hframes next hn).sending,
      hsum _ fun next hn => (hframes next hn).settling]
    intro n m hn hm hgate hset
    have hpos := h.flag (hgate.imp (fun hne => by omega) id) hset
    omega
  · rw [hsum _ fun next hn => (hframes next hn).waking]
    intro n _ hn _ _ hlive _ hsendQ
    have := hsized.waker hsound hstack hslot hcounting hlive hsize hsendQ
    omega
  · rw [hsum _ fun next hn => (hframes next hn).blank,
      hsum _ fun next hn => (hframes next hn).carrying]
    intro n m hn hm hne
    obtain ⟨hnil, hnone, hzero⟩ := h.blank (by omega)
    exact ⟨hnil, hnone, by omega⟩

/-- The exchange wins the flag, or leaves the queue to whoever has it. -/
theorem Awake.exchange (h : Awake s i)
    (hstack : s.threads[t]? = some (.sendPost i .exchange :: rest)) :
    Awake ((s.setSendFlag i true).start t
      ((if (s.sessionArray i).sendFlag then [] else [Frame.sendPost i .inc]) ++ rest)) i := by
  have hfields : ((s.setSendFlag i true).sessionArray i).sends = (s.sessionArray i).sends ∧
      ((s.setSendFlag i true).sessionArray i).live = (s.sessionArray i).live ∧
      ((s.setSendFlag i true).sessionArray i).dFlag = (s.sessionArray i).dFlag ∧
      ((s.setSendFlag i true).sessionArray i).sendQ = (s.sessionArray i).sendQ := by
    simp [ContentsServer.setSendFlag, Session.sends, Session.live]
  obtain ⟨hsends, hlive, hdFlag, hsendQ⟩ := hfields
  cases hset : (s.sessionArray i).sendFlag with
  | true =>
      refine Awake.at_slot hstack rfl rfl (by simp) ?_ ?_ ?_
      all_goals simp only [hsends, hlive, hdFlag, hsendQ, if_true, List.map_nil, List.sum_nil,
        sending, settling, waking, Frame.blank, carrying, Nat.add_zero]
      · rintro n m rfl rfl hgate _
        exact h.flag hgate hset
      · rintro n m _ rfl hle hlive' hdFlag' _
        have := h.flag (Or.inr ⟨hlive', hdFlag'⟩) hset
        omega
      · rintro n m rfl rfl
        exact h.blank
  | false =>
      refine Awake.at_slot hstack rfl rfl (by simp [slot]) ?_ ?_ ?_
      all_goals simp only [hsends, hlive, hdFlag, hsendQ, Bool.false_eq_true, if_false,
        List.map_cons, List.map_nil, List.sum_cons, List.sum_nil, sending, settling, waking,
        Frame.blank, carrying, Nat.add_zero]
      · intros
        omega
      · intros
        omega
      · rintro n m rfl rfl
        exact h.blank

/-- Where the slot is not live, `AcceptThread` stands before its `InterlockedAnd`. -/
theorem Sound.settling_owner (h : Sound cfg s) (hlive : (s.sessionArray i).live = 0)
    (hsettling : s.tally settling i ≠ 0) :
    Present s.threads (.accept i .inc) ∨ Present s.threads (.accept i .and) := by
  by_contra hnone
  refine hsettling (total_eq_zero fun other hother => ?_)
  unfold weightAt
  split
  · rename_i hat
    have hconfirmed : other.confirmed = false := by
      by_contra hc
      have := h.live_of_confirmed hother (by simpa using hc) hat
      omega
    cases other with
    | accept j pc =>
        obtain rfl : j = i := Option.some.inj hat
        cases pc with
        | inc => exact absurd (Or.inl hother) hnone
        | and => exact absurd (Or.inr hother) hnone
        | contentsNum | dFlag => simp [confirmed, holds] at hconfirmed
        | _ => rfl
    | _ => rfl
  · rfl

/-- The winner counts its reference; where it finds `RELEASEFLAG` it returns, and the flag
is left to the others who have won it. -/
theorem Awake.count (h : Awake s i) (hsound : Sound cfg s)
    (hstack : s.threads[t]? = some (.sendPost i .inc :: rest))
    (hothers : (s.sessionArray i).releaseFlag = true →
      Present s.threads (.accept i .inc) ∨ Present s.threads (.accept i .and) →
      (s.sessionArray i).sendFlag = true → 2 ≤ s.tally sending i) :
    Awake ((s.increment i).start t
      ((if (s.sessionArray i).releaseFlag then [Frame.drop i true]
        else [Frame.sendPost i (.dequeue 0)]) ++ rest)) i := by
  cases hflag : (s.sessionArray i).releaseFlag with
  | true =>
      have hlive : (s.sessionArray i).live = 0 := by simp [Session.live, hflag]
      refine Awake.at_slot hstack rfl rfl (by simp [slot]) ?_ ?_ ?_
      all_goals simp only [if_true, List.map_cons, List.map_nil, List.sum_cons, List.sum_nil,
        sending, settling, waking, Frame.blank, carrying, Nat.add_zero, ContentsServer.increment,
        ContentsServer.modify_self]
      · rintro n m hn rfl hgate hset
        have hsettling : s.tally settling i ≠ 0 := by
          rcases hgate with hne | hopen
          · exact hne
          · have : (s.sessionArray i).live = 1 := hopen.1
            omega
        have hpresent := hsound.settling_owner hlive hsettling
        have := hothers hflag hpresent hset
        omega
      · intro n m _ _ _ hlive'
        have : (s.sessionArray i).live = 1 := hlive'
        omega
      · rintro n m rfl rfl
        exact h.blank
  | false =>
      refine h.keep hstack rfl rfl (by simp [slot]) rfl ?_ ?_ ?_ ?_ ?_ ?_ ?_ ?_ ?_ <;>
        simp [ContentsServer.increment, sending, waking, settling, Frame.blank, carrying,
          Session.live, Session.sends]

/-- The winner takes a buffer off the queue. -/
theorem Awake.take (h : Awake s i) {k : Nat} {tag : Tag} {tags : List Tag}
    (hstack : s.threads[t]? = some (.sendPost i (.take k) :: rest))
    (hqueue : (s.sessionArray i).sendQ = tag :: tags) :
    Awake (((s.dequeued i tag tags).modify i fun x =>
      { x with sBufferArray := Function.update x.sBufferArray k tag }).start t
        ([Frame.sendPost i (.dequeue (k + 1))] ++ rest)) i := by
  have hpresent : Present s.threads (.sendPost i (.take k)) := present_of_getElem? hstack (by simp)
  have hsending := le_tally hpresent rfl sending
  have hwaking := le_tally hpresent rfl waking
  simp only [sending, waking] at hsending hwaking
  refine Awake.at_slot hstack rfl rfl (by simp [slot]) ?_ ?_ ?_
  all_goals simp only [List.map_cons, List.map_nil, List.sum_cons, List.sum_nil,
    sending, settling, waking, Frame.blank, Nat.add_zero]
  · intros
    omega
  · intros
    omega
  · rintro n m rfl _ hne
    have := (h.blank hne).1
    rw [hqueue] at this
    simp at this

/-- The send is outstanding; its completion clears the flag. -/
theorem Awake.wsaSend (h : Awake s i) {k : Nat} (buffers : List Tag) (pending : Bool)
    (hstack : s.threads[t]? = some (.sendPost i (.wsaSend k) :: rest))
    (hframes : frames = [] ∨ frames = [.sendPost i .recheck]) :
    Awake ((s.postIo i true buffers pending).start t (frames ++ rest)) i := by
  have hpresent : Present s.threads (.sendPost i (.wsaSend k)) :=
    present_of_getElem? hstack (by simp)
  have hcarrying := le_tally hpresent rfl carrying
  have hsends : ((s.postIo i true buffers pending).sessionArray i).sends =
      (s.sessionArray i).sends + 1 := by
    simp [ContentsServer.postIo, Session.sends]
  have hsum : (frames.map Frame.blank).sum = 0 := by
    rcases hframes with rfl | rfl <;> simp [Frame.blank]
  refine Awake.at_slot hstack rfl rfl ?_ ?_ ?_ ?_
  · rcases hframes with rfl | rfl <;> simp [slot]
  · rw [hsends]
    intros
    omega
  · rw [hsends]
    intros
    omega
  · rw [hsum]
    intro n m hn _ hne
    simp only [carrying, Frame.blank] at hcarrying hn
    have := (h.blank (by omega)).2.2
    omega

theorem awake_sendPost {pc : SendPostPc} (h : Awake s i) (hsized : Sized s i) (hsound : Sound cfg s)
    (hstack : s.threads[t]? = some (.sendPost i pc :: rest)) (now : UInt64) (outcome : Outcome)
    (hapart : ¬ (Frame.sendPost i pc).apart = true)
    (hfailed : ∀ k, pc = .wsaSend k → outcome ≠ .failed)
    (hothers : pc = .inc → (s.sessionArray i).releaseFlag = true →
      Present s.threads (.accept i .inc) ∨ Present s.threads (.accept i .and) →
      (s.sessionArray i).sendFlag = true → 2 ≤ s.tally sending i) :
    Awake ((s.runFrame cfg now outcome (.sendPost i pc)).1.start t
      ((s.runFrame cfg now outcome (.sendPost i pc)).2 ++ rest)) i := by
  cases pc with
  | recheck | cancel => exact absurd rfl hapart
  | dFlag =>
      simp only [ContentsServer.runFrame, ContentsServer.sendPostStep]
      split
      · rename_i hset
        refine h.keep hstack rfl rfl (by simp) rfl ?_ ?_ ?_ rfl ?_ ?_ ?_ ?_ ?_ <;>
          simp [hset, sending]
      · refine h.keep hstack rfl rfl (by simp [slot]) rfl ?_ ?_ ?_ rfl ?_ ?_ ?_ ?_ ?_ <;>
          simp [sending, waking, settling, Frame.blank, carrying]
  | size =>
      simp only [ContentsServer.runFrame, ContentsServer.sendPostStep]
      split
      · refine h.keep hstack rfl rfl (by simp [slot]) rfl ?_ ?_ ?_ rfl ?_ ?_ ?_ ?_ ?_ <;>
          simp [sending, waking, settling, Frame.blank, carrying]
      · exact h.giveUp [] hsized hsound hstack rfl (by simp) ‹_› rfl rfl (by simp)
  | exchange => exact h.exchange hstack
  | inc => exact h.count hsound hstack (hothers rfl)
  | dequeue k =>
      refine h.goOn hstack rfl rfl now outcome ?_
      simp only [ContentsServer.runFrame, ContentsServer.sendPostStep]
      split
      · dsimp only
        cases k <;> split <;> exact .goto rfl rfl rfl rfl rfl
      · cases k <;> exact .goto rfl rfl rfl rfl rfl
  | take k =>
      simp only [ContentsServer.runFrame, ContentsServer.sendPostStep]
      split
      · refine h.keep hstack rfl rfl (by simp [slot]) rfl ?_ ?_ ?_ rfl ?_ ?_ ?_ ?_ ?_ <;>
          simp [sending, waking, settling, Frame.blank]
      · exact h.take hstack ‹_›
  | restore k =>
      refine h.goOn hstack rfl rfl now outcome ?_
      cases k <;> exact .goto rfl rfl rfl rfl rfl
  | count k =>
      refine h.goOn hstack rfl rfl now outcome ?_
      cases k <;> exact .goto rfl rfl rfl rfl rfl
  | reset =>
      exact h.clearFlag [.sendPost i .resize] hstack rfl (by simp [slot]) (by simp [waking])
        (by simp [settling]) (by simp [Frame.blank]) (by simp [carrying])
  | resize =>
      simp only [ContentsServer.runFrame, ContentsServer.sendPostStep]
      split
      · refine h.keep hstack rfl rfl (by simp [slot]) rfl ?_ ?_ ?_ rfl ?_ ?_ ?_ ?_ ?_ <;>
          simp [sending, waking, settling, Frame.blank, carrying]
      · exact h.giveUp [.drop i true] hsized hsound hstack rfl (by simp [slot]) ‹_› rfl rfl
          fun next hn => List.mem_singleton.mp hn ▸ ⟨rfl, rfl, rfl, rfl, rfl⟩
  | wsaSend k =>
      cases outcome with
      | done => exact h.wsaSend _ false hstack (Or.inl rfl)
      | pending => exact h.wsaSend _ true hstack (Or.inr rfl)
      | failed => exact absurd rfl (hfailed k rfl)

/-! ### Release and AcceptThread -/

/-- A buffer is taken off the queue to be dropped. -/
theorem Awake.clearTake (h : Awake s i) {tag : Tag} {tags : List Tag} (next : Frame)
    (hstack : s.threads[t]? = some (frame :: rest)) (hslot : frame.slot = some i)
    (hnext : next.slot = some i) (hqueue : (s.sessionArray i).sendQ = tag :: tags)
    (hcovers : Covers frame [next]) :
    Awake ((s.dequeued i tag tags).start t ([next] ++ rest)) i := by
  refine h.keep hstack rfl hslot (by simp [hnext]) rfl ?_ ?_ ?_ ?_ ?_ (fun _ _ => hcovers.waking)
    hcovers.settling hcovers.blank hcovers.carrying
  · simp [ContentsServer.dequeued, Session.live]
  · simp [ContentsServer.dequeued]
  · simp [hqueue]
  · simp [ContentsServer.dequeued, Session.sends]
  · simpa [ContentsServer.dequeued] using fun hset => ⟨hset, by simpa using hcovers.sending⟩

theorem awake_release {pc : ReleasePc} (h : Awake s i)
    (hstack : s.threads[t]? = some (.release i pc :: rest)) (now : UInt64) (outcome : Outcome)
    (hapart : ¬ (Frame.release i pc).apart = true) :
    Awake ((s.runFrame cfg now outcome (.release i pc)).1.start t
      ((s.runFrame cfg now outcome (.release i pc)).2 ++ rest)) i := by
  cases pc with
  | clearTake =>
      simp only [ContentsServer.runFrame, ContentsServer.releaseStep]
      split
      · refine h.keep hstack rfl rfl (by simp [slot]) rfl ?_ ?_ ?_ rfl ?_ ?_ ?_ ?_ ?_ <;>
          simp [sending, waking, settling, Frame.blank, carrying]
      · exact h.clearTake _ hstack rfl rfl ‹_› (.goto rfl rfl rfl rfl rfl)
  | _ => exact absurd rfl hapart

/-- The queue is empty, and nobody is left to fill it or to send. -/
theorem Awake.cleared (h : Awake s i) (hsized : Sized s i) (hsound : Sound cfg s)
    (hstack : s.threads[t]? = some (.accept i .clear :: rest))
    (hsize : (s.sessionArray i).size - 1 < 0) :
    Awake ((s.addSize i (-1)).start t ([Frame.accept i .clearRestore] ++ rest)) i := by
  have hpresent : Present s.threads (.accept i .clear) := present_of_getElem? hstack (by simp)
  have hlive := (hsound.owner hpresent rfl rfl).2.2.1
  have hfields : ((s.addSize i (-1)).sessionArray i).sends = (s.sessionArray i).sends ∧
      ((s.addSize i (-1)).sessionArray i).live = (s.sessionArray i).live ∧
      ((s.addSize i (-1)).sessionArray i).dFlag = (s.sessionArray i).dFlag ∧
      ((s.addSize i (-1)).sessionArray i).sendFlag = (s.sessionArray i).sendFlag ∧
      ((s.addSize i (-1)).sessionArray i).sendQ = (s.sessionArray i).sendQ := by
    simp [ContentsServer.addSize, Session.sends, Session.live]
  obtain ⟨hsends, hlive', hdFlag, hsendFlag, hsendQ⟩ := hfields
  have hnil : (s.sessionArray i).sendQ = [] := by
    have hlength := hsized.of_owner hsound hstack rfl rfl
    simp only [counting] at hlength
    exact List.length_eq_zero_iff.mp (by omega)
  have hcarrying : s.tally carrying i = 0 := by
    refine total_eq_zero fun other hother => ?_
    unfold weightAt
    split
    · rename_i hat
      by_contra hne
      have := hsound.live_of_confirmed hother (carrying_confirmed hne) hat
      omega
    · rfl
  refine Awake.at_slot hstack rfl rfl (by simp [slot]) ?_ ?_ ?_
  all_goals simp only [hsends, hlive', hdFlag, hsendFlag, hsendQ, List.map_cons, List.map_nil,
    List.sum_cons, List.sum_nil, sending, settling, waking, Frame.blank, carrying, Nat.add_zero]
  · rintro n m rfl rfl
    exact h.flag
  · intros
    omega
  · rintro n m _ rfl _
    exact ⟨hnil, by simp [Session.sends, hsound.io_nil hlive], hcarrying⟩

/-- `AcceptThread` clears the flag. -/
theorem Awake.reset (h : Awake s i) (hsound : Sound cfg s)
    (hstack : s.threads[t]? = some (.accept i .sendFlag :: rest)) :
    Awake ((s.setSendFlag i false).start t ([Frame.accept i .inc] ++ rest)) i := by
  have hpresent : Present s.threads (.accept i .sendFlag) := present_of_getElem? hstack (by simp)
  have hlive := (hsound.owner hpresent rfl rfl).2.2.1
  have hself : (s.setSendFlag i false).sessionArray i = { s.sessionArray i with sendFlag := false } :=
    s.modify_self i _
  refine Awake.at_slot hstack rfl rfl (by simp [slot]) ?_ ?_ ?_
  all_goals simp only [hself, List.map_cons, List.map_nil, List.sum_cons, List.sum_nil, Frame.blank,
    carrying, Nat.add_zero]
  · simp
  · intro n m _ _ _ hnot
    have : (s.sessionArray i).live = 1 := hnot
    omega
  · rintro n m hn rfl _
    exact h.blank (by omega)

/-- `AcceptThread` opens a slot with nothing to send: it clears `RELEASEFLAG`, or `_dFlag`. -/
theorem Awake.opens (h : Awake s i) {write : Session → Session} (next : Frame)
    (hstack : s.threads[t]? = some (frame :: rest)) (hslot : frame.slot = some i)
    (hnext : next.slot = some i)
    (hwrite : ∀ x, (write x).sendFlag = x.sendFlag ∧ (write x).sendQ = x.sendQ ∧
      (write x).sends = x.sends)
    (hsettling : frame.settling = 1) (hblank : frame.blank = 1)
    (hframe : frame.sending = 0 ∧ frame.carrying = 0)
    (hgoes : next.sending = 0 ∧ next.settling ≤ 1 ∧ next.blank = 1 ∧ next.carrying = 0) :
    Awake ((s.modify i write).start t ([next] ++ rest)) i := by
  have hpresent : Present s.threads frame := present_of_getElem? hstack (by simp)
  have hsettling' := le_tally hpresent hslot settling
  have hblank' := le_tally hpresent hslot Frame.blank
  obtain ⟨hsendFlag, hsendQ, hsends⟩ := hwrite (s.sessionArray i)
  obtain ⟨hnil, hnone, hzero⟩ := h.blank (by omega)
  refine Awake.at_slot hstack rfl hslot (by simp [hnext]) ?_ ?_ ?_
  all_goals simp only [ContentsServer.modify_self, hsendFlag, hsendQ, hsends, List.map_cons,
    List.map_nil, List.sum_cons, List.sum_nil, Nat.add_zero]
  · intro n m hn hm _ hset
    have := h.flag (Or.inl (by omega)) hset
    omega
  · intro n m _ _ _ _ _ hne
    exact absurd hnil hne
  · intro n m hn hm _
    exact ⟨hnil, hnone, by omega⟩

theorem awake_accept {pc : AcceptPc} (h : Awake s i) (hsized : Sized s i) (hsound : Sound cfg s)
    (hstack : s.threads[t]? = some (.accept i pc :: rest)) (now : UInt64) (outcome : Outcome)
    (hapart : ¬ (Frame.accept i pc).apart = true) :
    Awake ((s.runFrame cfg now outcome (.accept i pc)).1.start t
      ((s.runFrame cfg now outcome (.accept i pc)).2 ++ rest)) i := by
  cases pc with
  | sessionCount | clearDrop | enter | wsaRecv => exact absurd rfl hapart
  | clear =>
      by_cases hsize : (s.sessionArray i).size - 1 < 0
      · simp only [ContentsServer.runFrame, ContentsServer.acceptStep, hsize, if_true]
        exact h.cleared hsized hsound hstack hsize
      · refine h.goOn hstack rfl rfl now outcome ?_
        simp only [ContentsServer.runFrame, ContentsServer.acceptStep, hsize, if_false]
        exact .goto rfl rfl rfl rfl rfl
  | clearTake =>
      simp only [ContentsServer.runFrame, ContentsServer.acceptStep]
      split
      · refine h.keep hstack rfl rfl (by simp [slot]) rfl ?_ ?_ ?_ rfl ?_ ?_ ?_ ?_ ?_ <;>
          simp [sending, waking, settling, Frame.blank, carrying]
      · exact h.clearTake _ hstack rfl rfl ‹_› (.goto rfl rfl rfl rfl rfl)
  | sendFlag => exact h.reset hsound hstack
  | and =>
      exact h.opens (.accept i .contentsNum) hstack rfl rfl (fun _ => ⟨rfl, rfl, rfl⟩) rfl rfl
        ⟨rfl, rfl⟩ ⟨rfl, Nat.le_refl 1, rfl, rfl⟩
  | dFlag =>
      exact h.opens (.accept i .sessionKey) hstack rfl rfl (fun _ => ⟨rfl, rfl, rfl⟩) rfl rfl
        ⟨rfl, rfl⟩ ⟨rfl, Nat.zero_le 1, rfl, rfl⟩
  | onAccept =>
      exact h.goOn hstack rfl rfl now outcome
        ⟨Nat.zero_le _, Nat.zero_le _, Nat.zero_le _, Nat.zero_le _, Nat.zero_le _⟩
  | _ => exact h.goOn hstack rfl rfl now outcome (.goto rfl rfl rfl rfl rfl)

/-! ## Runs -/

/-- The slot a `SendPost` that has won the flag is about to count a reference on. -/
def Frame.winning : Frame → Option Nat
  | sendPost i .inc => some i
  | _ => none

/-- The slot a frame is about to call `WSASend` for. -/
def Frame.posting : Frame → Option Nat
  | sendPost i (.wsaSend _) => some i
  | _ => none

/-- What the I/O calls of a step return. -/
def Step.outcome : Step → Option Outcome
  | .run _ _ outcome => some outcome
  | _ => none

/-- The I/O a step finds completed with an error. -/
def Step.broken : Step → Option (Nat × Nat)
  | .complete _ i n false => some (i, n)
  | _ => none

/-- `WSASend` does not fail. -/
def SendsPosted (s : ContentsServer) (step : Step) : Prop :=
  step.outcome = some .failed → (s.top step).bind Frame.posting = none

/-- **The flag is left to somebody.** A `SendPost` that returns early, having won
`_sendFlag` after `AcceptThread` has cleared it, is not the last that has won it; a send
completes with an error only on a session that is closing, or leaves the flag clear or to
another sender and the queue empty or to somebody who looks at it again. -/
structure FlagLeft (s : ContentsServer) (step : Step) : Prop where
  early : ∀ i ∈ (s.top step).bind Frame.winning, (s.sessionArray i).releaseFlag = true →
    Present s.threads (.accept i .inc) ∨ Present s.threads (.accept i .and) →
    (s.sessionArray i).sendFlag = true → 2 ≤ s.tally sending i
  broken : ∀ c ∈ step.broken, ∀ io ∈ (s.sessionArray c.1).io[c.2]?, io.send = true →
    (s.sessionArray c.1).dFlag = false →
    ((s.sessionArray c.1).sendFlag = true →
      2 ≤ s.tally sending c.1 + (s.sessionArray c.1).sends) ∧
    ((s.sessionArray c.1).sendQ ≠ [] →
      2 ≤ s.tally waking c.1 + (s.sessionArray c.1).sends + s.queue.count (.sendPost c.1))

instance (s : ContentsServer) (step : Step) : Decidable (SendsPosted s step) := by
  unfold SendsPosted
  infer_instance

theorem flagLeft_iff {step : Step} : FlagLeft s step ↔
    (∀ i ∈ (s.top step).bind Frame.winning, (s.sessionArray i).releaseFlag = true →
      Present s.threads (.accept i .inc) ∨ Present s.threads (.accept i .and) →
      (s.sessionArray i).sendFlag = true → 2 ≤ s.tally sending i) ∧
    ∀ c ∈ step.broken, ∀ io ∈ (s.sessionArray c.1).io[c.2]?, io.send = true →
      (s.sessionArray c.1).dFlag = false →
      ((s.sessionArray c.1).sendFlag = true →
        2 ≤ s.tally sending c.1 + (s.sessionArray c.1).sends) ∧
      ((s.sessionArray c.1).sendQ ≠ [] →
        2 ≤ s.tally waking c.1 + (s.sessionArray c.1).sends + s.queue.count (.sendPost c.1)) :=
  ⟨fun h => ⟨h.early, h.broken⟩, fun h => ⟨h.1, h.2⟩⟩

instance (s : ContentsServer) (step : Step) : Decidable (FlagLeft s step) :=
  decidable_of_iff _ flagLeft_iff.symm

/-- A frame runs. -/
theorem awake_run (h : ∀ i, Awake s i) (hsized : ∀ i, Sized s i) (hchecked : Checked s)
    (hsound : Sound cfg s) (hlives : Lives s) (hnamed : Named s) {now : UInt64} {outcome : Outcome}
    (hstack : s.threads[t]? = some (frame :: rest)) (hposted : SendsPosted s (.run t now outcome))
    (hleft : FlagLeft s (.run t now outcome)) (i : Nat) :
    Awake ((s.runFrame cfg now outcome frame).1.start t
      ((s.runFrame cfg now outcome frame).2 ++ rest)) i := by
  have htop : s.top (.run t now outcome) = some frame := by
    simp [ContentsServer.top, hstack]
  by_cases hapart : frame.apart = true
  · exact (h i).apart hstack hapart now outcome
  · obtain ⟨j, hslot⟩ : ∃ j, frame.slot = some j := by
      cases frame with
      | pop | sweep => exact absurd rfl hapart
      | _ => exact ⟨_, rfl⟩
    by_cases hij : i = j
    · subst hij
      cases frame with
      | sendPacket id pc =>
          obtain rfl := Option.some.inj hslot
          exact awake_sendPacket (h _) hchecked hsound hlives hnamed hstack now outcome hapart
      | sent j pc =>
          obtain rfl := Option.some.inj hslot
          exact awake_sent (h _) hstack now outcome
      | sendPost j pc =>
          obtain rfl := Option.some.inj hslot
          refine awake_sendPost (h _) (hsized _) hsound hstack now outcome hapart ?_ ?_
          · rintro k rfl rfl
            have := hposted rfl
            simp [htop, Frame.posting] at this
          · rintro rfl
            exact hleft.early j (by simp [htop, Frame.winning])
      | release j pc =>
          obtain rfl := Option.some.inj hslot
          exact awake_release (h _) hstack now outcome hapart
      | accept j pc =>
          obtain rfl := Option.some.inj hslot
          exact awake_accept (h _) (hsized _) hsound hstack now outcome hapart
      | _ => exact absurd rfl hapart
    · exact (h i).elsewhere hstack hslot hij now outcome

/-- A function starts that counts for nothing. -/
theorem Awake.start (h : Awake s i) {stack : List Frame} (hstack : s.threads[t]? = some stack)
    (hthreads : s'.threads = s.threads) (hframe : frame.Weightless)
    (hqueue : s'.queue.count (.sendPost i) = s.queue.count (.sendPost i))
    (hsame : SameWake (s.sessionArray i) (s'.sessionArray i)) :
    Awake (s'.start t (frame :: stack)) i := by
  have htally : ∀ w : Frame → Nat, w frame = 0 →
      (s'.start t (frame :: stack)).tally w i = s.tally w i :=
    fun _ hw => tally_start_zero hstack hthreads hw i
  exact h.same hsame hqueue (htally _ hframe.sending) (htally _ hframe.waking)
    (htally _ hframe.settling) (htally _ hframe.blank) (htally _ hframe.carrying)

/-- One element taken off a list. -/
theorem countP_eraseIdx {α : Type} {l : List α} {n : Nat} {a : α} (p : α → Bool)
    (h : l[n]? = some a) : (l.eraseIdx n).countP p + (if p a then 1 else 0) = l.countP p := by
  obtain ⟨hn, rfl⟩ := List.getElem?_eq_some_iff.mp h
  rw [← List.countP_cons]
  exact (List.getElem_cons_eraseIdx_perm hn).countP_eq p

/-- A worker takes the message of a `SendPacket`. -/
theorem Awake.takeSendPost (h : Awake s i) {j n : Nat} (hstack : s.threads[t]? = some [])
    (hmessage : s.queue[n]? = some (.sendPost j)) :
    Awake ({ s with queue := s.queue.eraseIdx n }.start t [.sendPost j .dFlag]) i := by
  have htally : ∀ w : Frame → Nat,
      ({ s with queue := s.queue.eraseIdx n }.start t [.sendPost j .dFlag]).tally w i =
        s.tally w i + if j = i then w (.sendPost j .dFlag) else 0 := by
    intro w
    have := tally_start { s with queue := s.queue.eraseIdx n } [.sendPost j .dFlag] hstack rfl w i
    simpa [weightAt, slot] using this
  have hcount : (s.queue.eraseIdx n).count (.sendPost i) + (if j = i then 1 else 0) =
      s.queue.count (.sendPost i) := by
    simpa [List.count] using countP_eraseIdx (· == Message.sendPost i) hmessage
  constructor
  · have hsending := htally sending
    have hsettling := htally settling
    simp only [sending, settling, ite_self, Nat.add_zero] at hsending hsettling
    rw [hsending, hsettling]
    exact h.flag
  · have hwaking := htally waking
    simp only [waking] at hwaking
    rw [hwaking]
    intro hlive hdFlag hsendQ
    have := h.wake hlive hdFlag hsendQ
    show 0 < _ + (s.sessionArray i).sends + (s.queue.eraseIdx n).count (.sendPost i)
    omega
  · have hblank := htally Frame.blank
    have hcarrying := htally carrying
    simp only [Frame.blank, carrying, ite_self, Nat.add_zero] at hblank hcarrying
    rw [hblank, hcarrying]
    exact h.blank

theorem completionFrame_slot (i : Nat) (io : Io) (success : Bool) :
    (completionFrame i io success).slot = some i :=
  (completionFrame_spec i io success).1

/-- A worker takes a completion: of a send, with `sent` or, after an error, with nothing
but the decrement. -/
theorem Awake.completeSend (h : Awake s i) {n : Nat} {io : Io}
    (success : Bool) (hstack : s.threads[t]? = some []) (hio : (s.sessionArray i).io[n]? = some io)
    (hsend : io.send = true)
    (hbroken : success = false → (s.sessionArray i).dFlag = false →
      ((s.sessionArray i).sendFlag = true → 2 ≤ s.tally sending i + (s.sessionArray i).sends) ∧
      ((s.sessionArray i).sendQ ≠ [] →
        2 ≤ s.tally waking i + (s.sessionArray i).sends + s.queue.count (.sendPost i))) :
    Awake ((s.modify i fun x => { x with io := x.io.eraseIdx n }).start t
      [completionFrame i io success]) i := by
  have hcount : ((s.sessionArray i).io.eraseIdx n).countP Io.send + 1 = (s.sessionArray i).sends := by
    have := countP_eraseIdx Io.send hio
    rwa [if_pos hsend] at this
  have hslot := completionFrame_slot i io success
  have htally : ∀ w : Frame → Nat, ((s.modify i fun x => { x with io := x.io.eraseIdx n }).start t
      [completionFrame i io success]).tally w i =
        s.tally w i + w (completionFrame i io success) := by
    intro w
    have := tally_start (s.modify i fun x => { x with io := x.io.eraseIdx n })
      [completionFrame i io success] hstack rfl w i
    simpa [weightAt, hslot] using this
  have hself : ((s.modify i fun x => { x with io := x.io.eraseIdx n }).start t
      [completionFrame i io success]).sessionArray i =
        { s.sessionArray i with io := (s.sessionArray i).io.eraseIdx n } := by
    rw [ContentsServer.start_sessionArray, ContentsServer.modify_self]
  -- The session is known: it would have nothing outstanding otherwise.
  have hknown : s.tally Frame.blank i = 0 := by
    by_contra hne
    have := (h.blank hne).2.1
    omega
  have hsettled : s.tally settling i = 0 := by
    have : s.tally settling i ≤ 1 * s.tally Frame.blank i := by
      refine tally_le_mul (fun other => ?_) i
      unfold settling
      split <;> first | exact Nat.le_refl 1 | exact Nat.zero_le _
    omega
  cases success with
  | true =>
      have hframe : completionFrame i io true = .sent i (.drop 0) := by
        simp [completionFrame, hsend]
      rw [hframe] at htally hself ⊢
      constructor
      · intros
        rw [htally]
        simp only [sending]
        omega
      · intros
        rw [htally]
        simp only [waking]
        omega
      · rw [htally, hknown]
        exact fun hne => absurd rfl hne
  | false =>
      have hframe : completionFrame i io false = .drop i false := rfl
      rw [hframe] at htally hself ⊢
      constructor
      · rw [htally, htally, hself, hsettled]
        rintro (hne | ⟨_, hdFlag⟩) hset
        · exact absurd rfl hne
        · have := (hbroken rfl hdFlag).1 hset
          show 0 < s.tally sending i + 0 + ((s.sessionArray i).io.eraseIdx n).countP Io.send
          omega
      · rw [htally, hself]
        intro _ hdFlag hsendQ
        have := (hbroken rfl hdFlag).2 hsendQ
        show 0 < s.tally waking i + 0 + ((s.sessionArray i).io.eraseIdx n).countP Io.send +
          s.queue.count (.sendPost i)
        omega
      · rw [htally, hknown]
        exact fun hne => absurd rfl hne

/-- A worker takes the completion of a receive, or one of another slot. -/
theorem Awake.completeOther (h : Awake s i) {j n : Nat} {io : Io} (success : Bool)
    (hstack : s.threads[t]? = some []) (hio : (s.sessionArray j).io[n]? = some io)
    (hother : io.send = false ∨ i ≠ j) :
    Awake ((s.modify j fun x => { x with io := x.io.eraseIdx n }).start t
      [completionFrame j io success]) i := by
  have hsession : SameWake (s.sessionArray i)
      ((s.modify j fun x => { x with io := x.io.eraseIdx n }).sessionArray i) := by
    by_cases hij : i = j
    · subst hij
      have hrecv := hother.resolve_right (by simp)
      have hcount := countP_eraseIdx Io.send hio
      rw [hrecv] at hcount
      rw [s.modify_self]
      exact ⟨rfl, rfl, hcount, id, id⟩
    · rw [s.modify_of_ne hij]
      exact .refl _
  have htally : ∀ w : Frame → Nat, w (completionFrame j io success) = 0 ∨ i ≠ j →
      ((s.modify j fun x => { x with io := x.io.eraseIdx n }).start t
        [completionFrame j io success]).tally w i = s.tally w i := by
    intro w hw
    have hslot := completionFrame_slot j io success
    have := tally_start (s.modify j fun x => { x with io := x.io.eraseIdx n })
      [completionFrame j io success] hstack rfl w i
    rcases hw with hw | hw
    · simpa [weightAt, hw] using this
    · simpa [weightAt, hslot, hw.symm] using this
  have hframe : (completionFrame j io success).Weightless ∨ i ≠ j := by
    refine hother.imp (fun hrecv => ?_) id
    unfold completionFrame
    rw [hrecv]
    split <;> exact ⟨rfl, rfl, rfl, rfl, rfl⟩
  exact h.same hsession rfl (htally _ (hframe.imp Weightless.sending id))
    (htally _ (hframe.imp Weightless.waking id)) (htally _ (hframe.imp Weightless.settling id))
    (htally _ (hframe.imp Weightless.blank id)) (htally _ (hframe.imp Weightless.carrying id))

/-- **A step keeps every slot awake.** -/
theorem awake_step {step : Step} (h : ∀ i, Awake s i) (hsized : ∀ i, Sized s i)
    (hchecked : Checked s) (hsound : Sound cfg s) (hlives : Lives s) (hnamed : Named s)
    (hposted : SendsPosted s step) (hleft : FlagLeft s step) (hstep : Served cfg s step s')
    (i : Nat) : Awake s' i := by
  cases hstep with
  | run t now outcome frame rest hstack =>
      exact awake_run h hsized hchecked hsound hlives hnamed hstack hposted hleft i
  | accept hstack => exact (h i).start hstack rfl ⟨rfl, rfl, rfl, rfl, rfl⟩ rfl (.refl _)
  | take t n message hstack hmessage =>
      cases message with
      | release j =>
          refine (h i).start hstack rfl ⟨rfl, rfl, rfl, rfl, rfl⟩ ?_ (.refl _)
          simpa [List.count] using countP_eraseIdx (· == Message.sendPost i) hmessage
      | sendPost j => exact (h i).takeSendPost hstack hmessage
  | complete t j n io success hstack hio =>
      by_cases hmine : io.send = true ∧ i = j
      · obtain ⟨hsend, rfl⟩ := hmine
        refine (h i).completeSend success hstack hio hsend ?_
        rintro rfl
        exact hleft.broken (i, n) rfl io hio hsend
      · refine (h i).completeOther success hstack hio ?_
        by_contra hnone
        rw [not_or] at hnone
        exact hmine ⟨by simpa using hnone.1, not_not.mp hnone.2⟩
  | call t call stack hissued hstack =>
      refine (h i).start hstack rfl ?_ rfl (.refl _)
      cases call <;> exact ⟨rfl, rfl, rfl, rfl, rfl⟩
  | kick t j rest hstack =>
      exact (h i).start hstack rfl ⟨rfl, rfl, rfl, rfl, rfl⟩ rfl (.refl _)
  | sweep regular now hstack =>
      exact (h i).start hstack rfl ⟨rfl, rfl, rfl, rfl, rfl⟩ rfl (.refl _)

/-- The frame is inside `SendPacket`, `SendPost` or the completion of a send. -/
def Frame.sends : Frame → Bool
  | sendPacket _ _ => true
  | sendPost _ _ => true
  | sent _ _ => true
  | _ => false

/-- **Nothing is under way for the sends of a slot**: its session is live and not closing,
no message is queued, no thread is inside the send path and no send is outstanding. -/
structure Idle (s : ContentsServer) (i : Nat) : Prop where
  live : (s.sessionArray i).live = 1
  dFlag : (s.sessionArray i).dFlag = false
  queue : Message.sendPost i ∉ s.queue
  threads : ∀ frame, Present s.threads frame → frame.sends = true → frame.slot ≠ some i
  io : ∀ io ∈ (s.sessionArray i).io, io.send = false

theorem Idle.tally_zero (h : Idle s i) {w : Frame → Nat}
    (hw : ∀ frame, frame.sends = false → w frame = 0) : s.tally w i = 0 := by
  refine total_eq_zero fun frame hpresent => ?_
  unfold weightAt
  split
  · rename_i hat
    refine hw frame ?_
    by_contra hsends
    exact h.threads frame hpresent (by simpa using hsends) hat
  · rfl

theorem Awake.idle (h : Awake s i) (hidle : Idle s i) :
    (s.sessionArray i).sendQ = [] ∧ (s.sessionArray i).sendFlag = false := by
  have hsending : s.tally sending i = 0 := hidle.tally_zero fun frame hsends => by
    cases frame <;> first | rfl | contradiction
  have hwaking : s.tally waking i = 0 := hidle.tally_zero fun frame hsends => by
    cases frame <;> first | rfl | contradiction
  have hnone : (s.sessionArray i).sends = 0 :=
    List.countP_eq_zero.mpr fun io hio => by simp [hidle.io io hio]
  have hqueue := List.count_eq_zero.mpr hidle.queue
  constructor
  · by_contra hsendQ
    have := h.wake hidle.live hidle.dFlag hsendQ
    omega
  · by_contra hset
    have := h.flag (Or.inr ⟨hidle.live, hidle.dFlag⟩) (by simpa using hset)
    omega

/-- The conditions on a step. -/
structure Handed (cfg : Config) (s : ContentsServer) (step : Step) : Prop where
  sweeps : SweepsAccepted cfg s step
  posted : SendsPosted s step
  left : FlagLeft s step

theorem handed_iff {step : Step} :
    Handed cfg s step ↔ SweepsAccepted cfg s step ∧ SendsPosted s step ∧ FlagLeft s step :=
  ⟨fun h => ⟨h.sweeps, h.posted, h.left⟩, fun h => ⟨h.1, h.2.1, h.2.2⟩⟩

instance (cfg : Config) (s : ContentsServer) (step : Step) : Decidable (Handed cfg s step) :=
  decidable_of_iff _ handed_iff.symm

/-- **No packet is left behind**, where `WSASend` does not fail, sweeps disconnect accepted
slots only, and the flag is left to somebody. -/
theorem no_packet_left_behind (cfg : Config) (others : Nat) (steps : List Step)
    (s : ContentsServer)
    (hok : Along (serverStep cfg) (Handed cfg) (startedServer cfg others) steps)
    (h : exec (serverStep cfg) (startedServer cfg others) steps = some s) (i : Nat)
    (hidle : Idle s i) : (s.sessionArray i).sendQ = [] ∧ (s.sessionArray i).sendFlag = false := by
  have hinv := exec_invariant_along (I := fun s => Sound cfg s ∧ Lives s ∧ Checked s ∧ Named s ∧
      (∀ i, Sized s i) ∧ ∀ i, Awake s i)
    (fun s step s' ⟨hsound, hlives, hchecked, hnamed, hsized, hawake⟩ hok hstep =>
      have hserved := serverStep_served hstep
      ⟨hsound.step hok.sweeps hserved, hlives.step hsound hserved, hchecked.step hsound hserved,
        hnamed.step hserved, fun i => (hsized i).step hserved,
        awake_step hawake hsized hchecked hsound hlives hnamed hok.posted hok.left hserved⟩)
    ⟨sound_started cfg others, lives_started cfg others, checked_started cfg others,
      named_started cfg others, sized_started cfg others, awake_started cfg others⟩ hok h
  exact (hinv.2.2.2.2.2 i).idle hidle

/-- At rest nothing is under way. -/
theorem Idle.of_rest (hlive : (s.sessionArray i).live = 1) (hdFlag : (s.sessionArray i).dFlag = false)
    (hqueue : s.queue = []) (hthreads : ∀ stack ∈ s.threads, stack = [])
    (hio : (s.sessionArray i).io = [⟨false, [], true, false⟩]) : Idle s i where
  live := hlive
  dFlag := hdFlag
  queue := by simp [hqueue]
  threads := by
    rintro frame ⟨stack, hstack, hframe⟩
    rw [hthreads stack hstack] at hframe
    simp at hframe
  io := by simp [hio]

/-- A packet is sent to a client. -/
def packetSent : List Step :=
  accepts ++ .call 2 (.sendPacket ⟨0, 1⟩) :: runs 2 7 ++ .take 2 0 :: runs 2 11 ++
    .complete 2 0 0 true :: runs 2 7

theorem packetSent_leaves_nothing :
    ∃ s, exec (serverStep oneSlot) (startedServer oneSlot 1) packetSent = some s ∧
      (s.sessionArray 0).dropped = [0] ∧ (s.sessionArray 0).sendQ = [] ∧
      (s.sessionArray 0).sendFlag = false := by
  have hrun : Along (serverStep oneSlot) (Handed oneSlot) (startedServer oneSlot 1) packetSent ∧
      ∃ s ∈ exec (serverStep oneSlot) (startedServer oneSlot 1) packetSent,
        (s.sessionArray 0).live = 1 ∧ (s.sessionArray 0).dFlag = false ∧ s.queue = [] ∧
        (∀ stack ∈ s.threads, stack = []) ∧
        (s.sessionArray 0).io = [⟨false, [], true, false⟩] ∧ (s.sessionArray 0).dropped = [0] := by
    decide +kernel
  obtain ⟨hok, s, hs, hlive, hdFlag, hqueue, hthreads, hio, hdropped⟩ := hrun
  have hidle : Idle s 0 := .of_rest hlive hdFlag hqueue hthreads hio
  exact ⟨s, hs, hdropped, no_packet_left_behind oneSlot 1 packetSent s hok hs 0 hidle⟩

/-- Worker 3 finds a packet for a client and stops before its exchange; the client leaves.
While the next one is accepted, worker 3 wins the flag that `AcceptThread` has cleared and
returns; then a packet is sent to the new client. -/
def strandedFlag : List Step :=
  accepts ++ .call 2 (.sendPacket ⟨0, 1⟩) :: runs 2 7 ++ .take 3 0 :: runs 3 2 ++ releases 12 ++
    .accept :: runs 0 8 ++ runs 3 3 ++ runs 0 8 ++ .call 2 (.sendPacket ⟨0, 2⟩) :: runs 2 7 ++
    .take 2 0 :: runs 2 3

theorem strandedFlag_leaves_packet :
    (∀ step ∈ strandedFlag, step.isSweep = false) ∧
      Along (serverStep oneSlot) SendsPosted (startedServer oneSlot 2) strandedFlag ∧
      ∃ s, exec (serverStep oneSlot) (startedServer oneSlot 2) strandedFlag = some s ∧
        Idle s 0 ∧ (s.sessionArray 0).sendQ = [1] ∧ (s.sessionArray 0).sendFlag = true := by
  have hrun : (∀ step ∈ strandedFlag, step.isSweep = false) ∧
      Along (serverStep oneSlot) SendsPosted (startedServer oneSlot 2) strandedFlag ∧
      ∃ s ∈ exec (serverStep oneSlot) (startedServer oneSlot 2) strandedFlag,
        (s.sessionArray 0).live = 1 ∧ (s.sessionArray 0).dFlag = false ∧ s.queue = [] ∧
        (∀ stack ∈ s.threads, stack = []) ∧
        (s.sessionArray 0).io = [⟨false, [], true, false⟩] ∧ (s.sessionArray 0).sendQ = [1] ∧
        (s.sessionArray 0).sendFlag = true := by
    decide +kernel
  obtain ⟨hsteps, hposted, s, hs, hlive, hdFlag, hqueue, hthreads, hio, hsendQ, hset⟩ := hrun
  have hidle : Idle s 0 := .of_rest hlive hdFlag hqueue hthreads hio
  exact ⟨hsteps, hposted, s, hs, hidle, hsendQ, hset⟩

end SessionServer.ContentLib
