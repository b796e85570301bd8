/-
  ContentLib/SendRun.lean --- one send at a time, over whole runs.

  Every step keeps `Boxed` at every slot, but one: `AcceptThread` clears `_sendFlag` for
  the next client while a worker that has won it for the last one has not counted its
  reference yet.
-/
import SessionServer.ContentLib.SendBox
import SessionServer.ContentLib.SlotRun

set_option autoImplicit false

namespace SessionServer.ContentLib

open SessionServer.Foundation ContentLib.Frame

variable {cfg : Config} {s s' : ContentsServer} {frame : Frame} {frames : List Frame}
  {i t : Nat} {rest : List Frame}

/-! ## Buffers -/

/-- A buffer is queued. -/
theorem perm_enqueue {q h d r : List Tag} (n : Tag) (hperm : (q ++ h ++ d).Perm r) :
    (q ++ [n] ++ h ++ d).Perm (r ++ [n]) := by
  have hmove : ([n] ++ (h ++ d)).Perm (h ++ d ++ [n]) := List.perm_append_comm
  have hback : (q ++ [n] ++ h ++ d).Perm (q ++ h ++ d ++ [n]) := by
    simpa only [List.append_assoc] using hmove.append_left q
  exact hback.trans (hperm.append_right [n])

/-- A buffer is taken off the queue. -/
theorem perm_dequeue {q h d r : List Tag} {tag : Tag} (hperm : (tag :: q ++ h ++ d).Perm r) :
    (q ++ tag :: h ++ d).Perm r := by
  have hmove : (q ++ tag :: h).Perm (tag :: q ++ h) := List.perm_middle
  exact (hmove.append_right d).trans hperm

/-- A buffer held is dropped. -/
theorem perm_drop {q h d r : List Tag} {tag : Tag} (hmem : tag ∈ h)
    (hperm : (q ++ h ++ d).Perm r) : (q ++ h.erase tag ++ tag :: d).Perm r := by
  have hmove : (h.erase tag ++ tag :: d).Perm (h ++ d) :=
    List.perm_middle.trans ((List.perm_cons_erase hmem).symm.append_right d)
  have hback : (q ++ h.erase tag ++ tag :: d).Perm (q ++ h ++ d) := by
    simpa only [List.append_assoc] using hmove.append_left q
  exact hback.trans hperm

/-! ## Steps that move them -/

/-- A step to another program point; `_size` may change. -/
theorem Boxed.pass (h : Boxed s i) (hsound : Sound cfg s) (next : Frame)
    (hstack : s.threads[t]? = some (frame :: rest)) (hslot : frame.slot = some i)
    (hthreads : s'.threads = s.threads) {m : Int}
    (hself : s'.sessionArray i = { s.sessionArray i with size := m })
    (hnext : next.slot = some i) (hsending : next.sending ≤ frame.sending)
    (hstaging : next.staging = frame.staging) (hdirty : next.dirty = frame.dirty)
    (hshaped : Shaped (s.sessionArray i) frame → Shaped (s.sessionArray i) next) :
    Boxed (s'.start t ([next] ++ rest)) i := by
  have hpresent : Present s.threads frame := present_of_getElem? hstack (by simp)
  have htoken := h.token
  have hsame : SameBox (s.sessionArray i) { s.sessionArray i with size := m } := ⟨rfl, rfl, rfl⟩
  refine h.at_slot hsound hstack hthreads hslot (List.forall_mem_singleton.mpr hnext) hself
    (Or.inl hsame) (List.forall_mem_singleton.mpr ?_) ?_ h.idle h.whole ?_ ?_ h.conserved
  · exact hsame.shaped.mpr (hshaped (h.shaped frame hpresent hslot))
  · simp only [List.map_cons, List.map_nil, List.sum_cons, List.sum_nil]
    omega
  · simp only [List.map_cons, List.map_nil, List.sum_cons, List.sum_nil]
    exact fun hzero => h.based (by omega)
  · simp only [List.map_cons, List.map_nil, List.sum_cons, List.sum_nil]
    exact fun hlive hzero => h.clean hlive (by omega)

/-- A step to another program point. -/
theorem Boxed.goto (h : Boxed s i) (hsound : Sound cfg s) (next : Frame)
    (hstack : s.threads[t]? = some (frame :: rest)) (hslot : frame.slot = some i)
    (hnext : next.slot = some i) (hsending : next.sending ≤ frame.sending)
    (hstaging : next.staging = frame.staging) (hdirty : next.dirty = frame.dirty)
    (hshaped : Shaped (s.sessionArray i) frame → Shaped (s.sessionArray i) next) :
    Boxed (s.start t ([next] ++ rest)) i :=
  h.pass hsound next hstack hslot rfl rfl hnext hsending hstaging hdirty hshaped

/-- `_size` changes on the way to another program point. -/
theorem Boxed.addSize (h : Boxed s i) (hsound : Sound cfg s) (n : Int) (next : Frame)
    (hstack : s.threads[t]? = some (frame :: rest)) (hslot : frame.slot = some i)
    (hnext : next.slot = some i) (hsending : next.sending ≤ frame.sending)
    (hstaging : next.staging = frame.staging) (hdirty : next.dirty = frame.dirty)
    (hshaped : Shaped (s.sessionArray i) frame → Shaped (s.sessionArray i) next) :
    Boxed ((s.addSize i n).start t ([next] ++ rest)) i :=
  h.pass hsound next hstack hslot rfl (s.modify_self i _) hnext hsending hstaging hdirty hshaped

/-- `SendPacket` puts a buffer on the queue. -/
theorem Boxed.enqueue (h : Boxed s i) (hsound : Sound cfg s) {id : SessionID}
    (hstack : s.threads[t]? = some (.sendPacket id .enqueue :: rest)) (hindex : findSession id = i) :
    Boxed ((s.modify i fun x =>
      { x with sendQ := x.sendQ ++ [x.enqueued], enqueued := x.enqueued + 1 }).start t
        ([Frame.sendPacket id .size] ++ rest)) i := by
  have hpresent : Present s.threads (.sendPacket id .enqueue) :=
    present_of_getElem? hstack (by simp)
  have hslot : (Frame.sendPacket id .enqueue).slot = some i := congrArg some hindex
  have hlive := hsound.live_of_confirmed hpresent rfl hslot
  refine h.at_slot hsound hstack rfl hslot (List.forall_mem_singleton.mpr hslot)
    (s.modify_self i _) (Or.inl ⟨rfl, rfl, rfl⟩) (by simp [Shaped]) ?_ h.idle h.whole h.based ?_ ?_
  · simpa [sending] using h.token
  · intro hnot
    have : (s.sessionArray i).live = 0 := hnot
    omega
  · show (_ ++ [_] ++ _ ++ _).Perm (List.range (_ + 1))
    rw [List.range_succ]
    exact perm_enqueue _ h.conserved

/-- `SendPost` exchanges the flag. -/
theorem Boxed.exchange (h : Boxed s i) (hsound : Sound cfg s)
    (hstack : s.threads[t]? = some (.sendPost i .exchange :: rest)) :
    Boxed ((s.setSendFlag i true).start t
      ((if (s.sessionArray i).sendFlag then [] else [Frame.sendPost i .inc]) ++ rest)) i := by
  have htoken := h.token
  cases hflag : (s.sessionArray i).sendFlag with
  | true =>
      rw [hflag] at htoken
      exact h.at_slot hsound hstack rfl rfl (by simp) (s.modify_self i _) (Or.inl ⟨rfl, rfl, rfl⟩)
        (by simp) htoken (by simp) h.whole h.based h.clean h.conserved
  | false =>
      rw [hflag] at htoken
      refine h.at_slot hsound hstack rfl rfl (by simp [slot]) (s.modify_self i _)
        (Or.inl ⟨rfl, rfl, rfl⟩) ?_ ?_ (by simp) h.whole h.based h.clean h.conserved
      · exact List.forall_mem_singleton.mpr (h.idle hflag)
      · show s.tally sending i + 1 + (s.sessionArray i).io.countP Io.send ≤ 1 + 0
        simp only [Bool.false_eq_true, if_false] at htoken
        omega

/-- The winner counts its reference. -/
theorem Boxed.win (h : Boxed s i) (hsound : Sound cfg s)
    (hstack : s.threads[t]? = some (.sendPost i .inc :: rest)) :
    Boxed ((s.increment i).start t
      ((if (s.sessionArray i).releaseFlag then [Frame.drop i true]
        else [Frame.sendPost i (.dequeue 0)]) ++ rest)) i := by
  have hpresent : Present s.threads (.sendPost i .inc) := present_of_getElem? hstack (by simp)
  have hzero : (s.sessionArray i).count = 0 := h.shaped _ hpresent rfl
  obtain ⟨hone, hnone, hflag⟩ := h.won hpresent rfl rfl
  cases hrelease : (s.sessionArray i).releaseFlag with
  | true =>
      refine h.at_slot hsound hstack rfl rfl (by simp [slot]) (s.modify_self i _)
        (Or.inl ⟨rfl, rfl, rfl⟩) (by simp [Shaped]) ?_ h.idle h.whole h.based h.clean h.conserved
      show s.tally sending i + 0 + (s.sessionArray i).io.countP Io.send ≤
        (if (s.sessionArray i).sendFlag then 1 else 0) + 1
      omega
  | false =>
      -- The slot is live, so nobody else has the box.
      have harmed := (hsound.placed _ hpresent).armed rfl i rfl
      have hlive : (s.sessionArray i).live = 1 := Session.live_eq_one.mpr ⟨harmed, hrelease⟩
      have hworking : s.tally working i = 0 := tally_of_owner working_le_sending hstack rfl hone
      have hstaging := staging_zero hworking (hsound.owns_zero hlive)
      refine h.at_slot hsound hstack rfl rfl (by simp [slot]) (s.modify_self i _)
        (Or.inl ⟨rfl, rfl, rfl⟩) (List.forall_mem_singleton.mpr ⟨hzero, ?_⟩) ?_ h.idle h.whole ?_
        h.clean h.conserved
      · have hbased := h.based hstaging
        rwa [hzero] at hbased
      · show s.tally sending i + 1 + (s.sessionArray i).io.countP Io.send ≤
          (if (s.sessionArray i).sendFlag then 1 else 0) + 1
        rw [hflag, if_pos rfl, hone, hnone]
      · intro hmore
        have : s.tally staging i + 1 = 0 := hmore
        omega

/-- A frame that has won the flag has no send to spoil. -/
theorem Boxed.no_send (h : Boxed s i) (hpresent : Present s.threads frame)
    (hslot : frame.slot = some i) (hsending : frame.sending = 1) :
    ∀ io ∈ (s.sessionArray i).io, io.send = false := by
  obtain ⟨_, hnone, _⟩ := h.won hpresent hslot hsending
  intro io hio
  simpa using List.countP_eq_zero.mp hnone io hio

/-- The winner takes a buffer off the queue. -/
theorem Boxed.dequeue (h : Boxed s i) (hsound : Sound cfg s) {k : Nat} {tag : Tag}
    {tags : List Tag} (hstack : s.threads[t]? = some (.sendPost i (.take k) :: rest))
    (hqueue : (s.sessionArray i).sendQ = tag :: tags) :
    Boxed (((s.dequeued i tag tags).modify i fun x =>
      { x with sBufferArray := Function.update x.sBufferArray k tag }).start t
        ([Frame.sendPost i (.dequeue (k + 1))] ++ rest)) i := by
  have hpresent : Present s.threads (.sendPost i (.take k)) :=
    present_of_getElem? hstack (by simp)
  obtain ⟨hzero, hheld⟩ := h.shaped _ hpresent rfl
  have hlive := hsound.live_of_confirmed hpresent rfl rfl
  have hsend := h.no_send hpresent rfl rfl
  have htoken := h.token
  have hstaging := le_tally hpresent rfl staging
  refine h.at_slot hsound hstack rfl rfl (by simp [slot]) (y :=
    { s.sessionArray i with
      sendQ := tags, held := tag :: (s.sessionArray i).held,
      sBufferArray := Function.update (s.sessionArray i).sBufferArray k tag }) ?_
    (Or.inr ⟨rfl, Or.inl rfl⟩) (List.forall_mem_singleton.mpr ⟨hzero, ?_⟩) ?_ h.idle ?_ ?_ ?_ ?_
  · rw [ContentsServer.modify_self, ContentsServer.dequeued, ContentsServer.modify_self]
  · rw [Session.boxed_succ (s.sessionArray i) rfl]
    exact (hheld.cons tag).trans (List.perm_append_singleton tag _).symm
  · show s.tally sending i + 1 + (s.sessionArray i).io.countP Io.send ≤
      (if (s.sessionArray i).sendFlag then 1 else 0) + 1
    omega
  · intro io hio hyes
    rw [hsend io hio] at hyes
    simp at hyes
  · intro hmore
    have hmore : s.tally staging i + 1 = 1 := hmore
    have hstaging : 1 ≤ s.tally staging i := hstaging
    omega
  · intro hnot
    have : (s.sessionArray i).live = 0 := hnot
    omega
  · have hconserved := h.conserved
    rw [hqueue] at hconserved
    exact perm_dequeue hconserved

/-- The winner stores the count. -/
theorem Boxed.count (h : Boxed s i) (hsound : Sound cfg s) {k : Nat}
    (hstack : s.threads[t]? = some (.sendPost i (.count k) :: rest)) :
    Boxed ((s.modify i fun x => { x with count := k }).start t
      ((if k = 0 then [Frame.sendPost i .reset] else [Frame.sendPost i (.wsaSend k)]) ++ rest))
      i := by
  have hpresent : Present s.threads (.sendPost i (.count k)) :=
    present_of_getElem? hstack (by simp)
  obtain ⟨hzero, hheld⟩ := h.shaped _ hpresent rfl
  have hlive := hsound.live_of_confirmed hpresent rfl rfl
  have hsend := h.no_send hpresent rfl rfl
  obtain ⟨_, _, hflag⟩ := h.won hpresent rfl rfl
  have htoken := h.token
  have hnext : ∀ next ∈ (if k = 0 then [Frame.sendPost i .reset]
      else [Frame.sendPost i (.wsaSend k)]), next.slot = some i ∧ next.sending = 1 ∧
        Shaped { s.sessionArray i with count := k } next := by
    split
    · rename_i hk
      exact List.forall_mem_singleton.mpr ⟨rfl, rfl, hk⟩
    · exact List.forall_mem_singleton.mpr ⟨rfl, rfl, rfl⟩
  refine h.at_slot hsound hstack rfl rfl (fun next hn => (hnext next hn).1) (s.modify_self i _)
    (Or.inr ⟨rfl, Or.inl rfl⟩) (fun next hn => (hnext next hn).2.2) ?_ ?_ ?_ (fun _ => hheld) ?_
    h.conserved
  · have hsum : ((if k = 0 then [Frame.sendPost i .reset]
        else [Frame.sendPost i (.wsaSend k)]).map sending).sum = 1 := by split <;> rfl
    rw [hsum]
    show s.tally sending i + 1 + (s.sessionArray i).io.countP Io.send ≤
      (if (s.sessionArray i).sendFlag then 1 else 0) + 1
    omega
  · intro hnot
    have : (s.sessionArray i).sendFlag = false := hnot
    rw [hflag] at this
    simp at this
  · intro io hio hyes
    rw [hsend io hio] at hyes
    simp at hyes
  · intro hnot
    have : (s.sessionArray i).live = 0 := hnot
    omega

/-- A step that leaves the box alone, and maybe the flag behind. -/
theorem Boxed.leave (h : Boxed s i) (frames : List Frame) (hsound : Sound cfg s)
    (hstack : s.threads[t]? = some (frame :: rest)) (hslot : frame.slot = some i)
    (hstaging : frame.staging = 0) (hdirty : frame.dirty = 0)
    (hnext : ∀ next ∈ frames, next.slot = some i ∧ next.light = true) :
    Boxed (s.start t (frames ++ rest)) i := by
  have htoken := h.token
  have hweights := fun next hn => light_weights (hnext next hn).2
  refine h.at_slot hsound hstack rfl hslot (fun next hn => (hnext next hn).1) rfl
    (Or.inl ⟨rfl, rfl, rfl⟩) (fun next hn => light_shaped (hnext next hn).2 _) ?_ h.idle h.whole
    ?_ ?_ h.conserved
  · rw [sum_map_zero fun next hn => (hweights next hn).1]
    omega
  · rw [sum_map_zero fun next hn => (hweights next hn).2.1, hstaging]
    exact h.based
  · rw [sum_map_zero fun next hn => (hweights next hn).2.2, hdirty]
    exact h.clean

/-- The flag is given back. -/
theorem Boxed.giveBack (h : Boxed s i) (frames : List Frame) (hsound : Sound cfg s)
    (hstack : s.threads[t]? = some (frame :: rest)) (hslot : frame.slot = some i)
    (hsending : frame.sending = 1) (hstaging : frame.staging = 0) (hdirty : frame.dirty = 0)
    (hzero : Shaped (s.sessionArray i) frame → (s.sessionArray i).count = 0)
    (hnext : ∀ next ∈ frames, next.slot = some i ∧ next.light = true) :
    Boxed ((s.setSendFlag i false).start t (frames ++ rest)) i := by
  have hpresent : Present s.threads frame := present_of_getElem? hstack (by simp)
  have hone := h.token_le_one
  have hweights := fun next hn => light_weights (hnext next hn).2
  refine h.at_slot hsound hstack rfl hslot (fun next hn => (hnext next hn).1) (s.modify_self i _)
    (Or.inl ⟨rfl, rfl, rfl⟩) (fun next hn => light_shaped (hnext next hn).2 _) ?_
    (fun _ => hzero (h.shaped frame hpresent hslot)) h.whole ?_ ?_ h.conserved
  · rw [sum_map_zero fun next hn => (hweights next hn).1, hsending]
    show s.tally sending i + 0 + (s.sessionArray i).io.countP Io.send ≤ 0 + 1
    omega
  · rw [sum_map_zero fun next hn => (hweights next hn).2.1, hstaging]
    exact fun hz => h.based hz
  · rw [sum_map_zero fun next hn => (hweights next hn).2.2, hdirty]
    exact fun hlive hz => h.clean hlive hz

/-- `WSASend` is called with the box. -/
theorem Boxed.wsaSend (h : Boxed s i) (hsound : Sound cfg s) {k : Nat}
    (hstack : s.threads[t]? = some (.sendPost i (.wsaSend k) :: rest)) (pending : Bool)
    (hframes : frames = [] ∨ frames = [.sendPost i .recheck]) :
    Boxed ((s.postIo i true ((List.range k).map (s.sessionArray i).sBufferArray) pending).start t
      (frames ++ rest)) i := by
  have hpresent : Present s.threads (.sendPost i (.wsaSend k)) :=
    present_of_getElem? hstack (by simp)
  have hcount : (s.sessionArray i).count = k := h.shaped _ hpresent rfl
  have htoken := h.token
  have hweights : ∀ w : Frame → Nat, w (.sendPost i .recheck) = 0 → (frames.map w).sum = 0 := by
    intro w hw
    rcases hframes with rfl | rfl
    · rfl
    · simp [hw]
  have hnext : ∀ next ∈ frames, next = .sendPost i .recheck := by
    rcases hframes with rfl | rfl <;> simp
  refine h.at_slot hsound hstack rfl rfl (fun next hn => by rw [hnext next hn]; rfl)
    (s.modify_self i _) (Or.inl ⟨rfl, rfl, rfl⟩) (fun next hn => by rw [hnext next hn]; trivial) ?_
    h.idle ?_ ?_ ?_ h.conserved
  · rw [hweights sending rfl, List.countP_cons_of_pos rfl]
    show s.tally sending i + 0 + ((s.sessionArray i).io.countP Io.send + 1) ≤
      (if (s.sessionArray i).sendFlag then 1 else 0) + 1
    omega
  · intro io hio hsend
    rcases List.mem_cons.mp hio with rfl | hold
    · show (List.range k).map (s.sessionArray i).sBufferArray =
        (s.sessionArray i).boxed (s.sessionArray i).count
      rw [hcount]
      rfl
    · exact h.whole io hold hsend
  · rw [hweights staging rfl]
    exact h.based
  · rw [hweights dirty rfl]
    exact h.clean

/-! ## Steps that drop them -/

/-- One buffer of the box is dropped, by `SendCompletion` or `Release`. -/
theorem Boxed.dropEntry (h : Boxed s i) (hsound : Sound cfg s) (next : Frame) {k : Nat}
    (hstack : s.threads[t]? = some (frame :: rest)) (hslot : frame.slot = some i)
    (hnext : next.slot = some i) (hoccupying : frame.occupying = 1)
    (hsending : next.sending = frame.sending) (hstaging : frame.staging = 1)
    (hstaging' : next.staging = 1)
    (hdirty : (s.sessionArray i).live = 0 → frame.dirty = 1 ∧ next.dirty = 1)
    (hshaped : Shaped (s.sessionArray i) frame →
      (s.sessionArray i).held.Perm ((s.sessionArray i).entries k (s.sessionArray i).count))
    (hshaped' : ∀ y : Session, y.held.Perm (y.entries (k + 1) y.count) → Shaped y next)
    (hk : k < (s.sessionArray i).count) :
    Boxed ((s.dropBuffer i ((s.sessionArray i).sBufferArray k)).start t ([next] ++ rest)) i := by
  have hpresent : Present s.threads frame := present_of_getElem? hstack (by simp)
  have hheld := hshaped (h.shaped frame hpresent hslot)
  rw [Session.entries_of_lt _ hk] at hheld
  have hmem : (s.sessionArray i).sBufferArray k ∈ (s.sessionArray i).held :=
    hheld.mem_iff.mpr (by simp)
  have htoken := h.token
  have hle := le_tally hpresent hslot staging
  have hled := le_tally hpresent hslot dirty
  refine h.at_slot hsound hstack rfl hslot (List.forall_mem_singleton.mpr hnext)
    (s.modify_self i _) (Or.inr ⟨hoccupying, Or.inr (Or.inl rfl)⟩)
    (List.forall_mem_singleton.mpr (hshaped' _ ?_)) ?_ h.idle h.whole ?_ ?_ ?_
  · have := hheld.erase ((s.sessionArray i).sBufferArray k)
    rwa [List.erase_cons_head] at this
  · simp only [List.map_cons, List.map_nil, List.sum_cons, List.sum_nil]
    omega
  · simp only [List.map_cons, List.map_nil, List.sum_cons, List.sum_nil]
    omega
  · intro hnot
    obtain ⟨hd, hd'⟩ := hdirty hnot
    simp only [List.map_cons, List.map_nil, List.sum_cons, List.sum_nil]
    omega
  · exact perm_drop hmem h.conserved

/-- Past the last entry of the box, nothing is held. -/
theorem entries_done {x : Session} {k : Nat} (h : x.held.Perm (x.entries k x.count))
    (hk : x.count ≤ k) : x.held = [] := by
  rw [Session.entries_of_le _ hk] at h
  exact h.eq_nil

/-- The box is emptied. -/
theorem Boxed.zero (h : Boxed s i) (hsound : Sound cfg s) (next : Frame)
    (hstack : s.threads[t]? = some (frame :: rest)) (hslot : frame.slot = some i)
    (hnext : next.slot = some i) (hoccupying : frame.occupying = 1)
    (hsending : next.sending = frame.sending)
    (hdirty : (s.sessionArray i).live = 0 → frame.dirty = 1 ∧ next.dirty = 1)
    (hshaped : Shaped (s.sessionArray i) frame → (s.sessionArray i).held = [])
    (hshaped' : ∀ y : Session, y.count = 0 → Shaped y next)
    (hsend : ∀ io ∈ (s.sessionArray i).io, io.send = false) :
    Boxed ((s.modify i fun x => { x with count := 0 }).start t ([next] ++ rest)) i := by
  have hpresent : Present s.threads frame := present_of_getElem? hstack (by simp)
  have hheld := hshaped (h.shaped frame hpresent hslot)
  have htoken := h.token
  have hled := le_tally hpresent hslot dirty
  refine h.at_slot hsound hstack rfl hslot (List.forall_mem_singleton.mpr hnext)
    (s.modify_self i _) (Or.inr ⟨hoccupying, Or.inr (Or.inr rfl)⟩)
    (List.forall_mem_singleton.mpr (hshaped' _ rfl)) ?_ (fun _ => rfl) ?_ ?_ ?_ h.conserved
  · simp only [List.map_cons, List.map_nil, List.sum_cons, List.sum_nil]
    omega
  · intro io hio hyes
    rw [hsend io hio] at hyes
    simp at hyes
  · intro _
    show (s.sessionArray i).held.Perm []
    rw [hheld]
  · intro hnot
    obtain ⟨hd, hd'⟩ := hdirty hnot
    simp only [List.map_cons, List.map_nil, List.sum_cons, List.sum_nil]
    omega

/-- The body of `Release` starts. -/
theorem Boxed.cas (h : Boxed s i) (hsound : Sound cfg s) (hlives : Lives s)
    (hstack : s.threads[t]? = some (.release i .cas :: rest)) (hzero : s.isZero i = true) :
    Boxed (((s.modify i fun x => { x with releaseFlag := true }).record
      (s.sessionArray i).sessionID .release).start t ([Frame.release i (.drop 0)] ++ rest)) i := by
  obtain ⟨hlive, _, _⟩ := hlives.accepted_of_isZero hsound hstack hzero
  simp only [ContentsServer.isZero, Bool.and_eq_true, beq_iff_eq] at hzero
  have hworking : s.tally working i = 0 := by
    have hle := tally_le_mul (s := s) working_le_holds i
    have := hsound.account i
    omega
  have hstaging := staging_zero hworking (hsound.owns_zero hlive)
  refine h.at_slot hsound hstack rfl rfl (by simp [slot])
    (y := { s.sessionArray i with releaseFlag := true })
    (by rw [ContentsServer.record_sessionArray, ContentsServer.modify_self])
    (Or.inl ⟨rfl, rfl, rfl⟩) (List.forall_mem_singleton.mpr ?_) h.token h.idle h.whole ?_ ?_
    h.conserved
  · show (s.sessionArray i).held.Perm (Session.entries _ 0 (s.sessionArray i).count)
    rw [Session.entries_zero]
    exact h.based hstaging
  · intro hmore
    have : s.tally staging i + 1 = 0 := hmore
    omega
  · intro _ hmore
    have : s.tally dirty i + 1 = 0 := hmore
    omega

/-- `Release` takes a buffer off the queue. -/
theorem Boxed.clear (h : Boxed s i) (hsound : Sound cfg s) {tag : Tag} {tags : List Tag}
    (hstack : s.threads[t]? = some (.release i .clearTake :: rest))
    (hqueue : (s.sessionArray i).sendQ = tag :: tags) :
    Boxed ((s.dequeued i tag tags).start t ([Frame.release i (.clearDrop tag)] ++ rest)) i := by
  have hpresent : Present s.threads (.release i .clearTake) :=
    present_of_getElem? hstack (by simp)
  have hzero : (s.sessionArray i).count = 0 := h.shaped _ hpresent rfl
  have hstaging : s.tally staging i = 0 := h.staging_of_occupying hsound hstack rfl rfl
  have hheld : (s.sessionArray i).held = [] := by
    have hbased := h.based hstaging
    rw [hzero] at hbased
    exact hbased.eq_nil
  have hdirty := le_tally hpresent rfl dirty
  refine h.at_slot hsound hstack rfl rfl (by simp [slot]) (s.modify_self i _)
    (Or.inr ⟨rfl, Or.inr (Or.inl rfl)⟩) (List.forall_mem_singleton.mpr ⟨hzero, ?_⟩) h.token h.idle
    h.whole ?_ ?_ ?_
  · show tag :: (s.sessionArray i).held = [tag]
    rw [hheld]
  · intro hmore
    have : s.tally staging i + 1 = 0 := hmore
    omega
  · intro _ hmore
    have hmore : s.tally dirty i + 1 = 1 := hmore
    have hdirty : 1 ≤ s.tally dirty i := hdirty
    omega
  · have hconserved := h.conserved
    rw [hqueue] at hconserved
    exact perm_dequeue hconserved

/-- It drops the buffer. -/
theorem Boxed.clearDrop (h : Boxed s i) (hsound : Sound cfg s) {tag : Tag}
    (hstack : s.threads[t]? = some (.release i (.clearDrop tag) :: rest)) :
    Boxed ((s.dropBuffer i tag).start t ([Frame.release i .clear] ++ rest)) i := by
  have hpresent : Present s.threads (.release i (.clearDrop tag)) :=
    present_of_getElem? hstack (by simp)
  obtain ⟨hzero, hheld⟩ := h.shaped _ hpresent rfl
  have hdirty := le_tally hpresent rfl dirty
  refine h.at_slot hsound hstack rfl rfl (by simp [slot]) (s.modify_self i _)
    (Or.inr ⟨rfl, Or.inr (Or.inl rfl)⟩) (List.forall_mem_singleton.mpr hzero) h.token h.idle
    h.whole ?_ ?_ ?_
  · intro _
    show ((s.sessionArray i).held.erase tag).Perm (Session.boxed _ (s.sessionArray i).count)
    rw [hheld, hzero, List.erase_cons_head]
    exact List.Perm.refl []
  · intro _ hmore
    have hmore : s.tally dirty i + 1 = 1 := hmore
    have hdirty : 1 ≤ s.tally dirty i := hdirty
    omega
  · exact perm_drop (by rw [hheld]; simp) h.conserved

/-- `Release` has found the queue empty. -/
theorem Boxed.cleared (h : Boxed s i) (hsound : Sound cfg s)
    (hstack : s.threads[t]? = some (.release i .clear :: rest))
    (hqueue : (s.sessionArray i).sendQ = []) :
    Boxed ((s.addSize i (-1)).start t ([Frame.release i .clearRestore] ++ rest)) i := by
  have hpresent : Present s.threads (.release i .clear) := present_of_getElem? hstack (by simp)
  have hzero : (s.sessionArray i).count = 0 := h.shaped _ hpresent rfl
  exact h.at_slot hsound hstack rfl rfl (by simp [slot]) (s.modify_self i _)
    (Or.inl ⟨rfl, rfl, rfl⟩) (by simp [Shaped]) h.token h.idle h.whole h.based
    (fun _ _ => ⟨hzero, hqueue⟩) h.conserved

/-! ## Steps of `AcceptThread` -/

/-- A slot that `AcceptThread` owns is empty. -/
theorem Boxed.empty_of_accept (h : Boxed s i) (hsound : Sound cfg s) {pc : AcceptPc}
    (hstack : s.threads[t]? = some (.accept i pc :: rest)) (howns : (Frame.accept i pc).owns = 1) :
    (s.sessionArray i).live = 0 ∧ (s.sessionArray i).count = 0 ∧
      (s.sessionArray i).sendQ = [] := by
  have hpresent : Present s.threads (.accept i pc) := present_of_getElem? hstack (by simp)
  obtain ⟨_, hone, hlive, _⟩ := hsound.owner hpresent howns rfl
  have hdirty : s.tally dirty i = 0 :=
    tally_of_owner dirty_le_owns hstack rfl (by rw [hone, howns])
  exact ⟨hlive, h.clean hlive hdirty⟩

/-- `AcceptThread` clears the flag, and nobody has won it. -/
theorem Boxed.clearFlag (h : Boxed s i) (hsound : Sound cfg s)
    (hstack : s.threads[t]? = some (.accept i .sendFlag :: rest))
    (hkept : ¬ Present s.threads (.sendPost i .inc)) :
    Boxed ((s.setSendFlag i false).start t ([Frame.accept i .inc] ++ rest)) i := by
  obtain ⟨hlive, hzero, _⟩ := h.empty_of_accept hsound hstack rfl
  have hsending : s.tally sending i = 0 := by
    refine total_eq_zero fun other hother => ?_
    unfold weightAt
    split
    · rename_i hslot
      by_contra hne
      have hidle : other.working = 0 := by
        by_contra hworking
        have := hsound.live_of_confirmed hother (working_confirmed hworking) hslot
        omega
      cases other with
      | sendPost j pc =>
          cases pc with
          | inc => exact hkept (Option.some.inj hslot ▸ hother)
          | _ => simp_all [working, sending]
      | sent j pc => simp [working, sending] at hidle
      | _ => simp [sending] at hne
    · rfl
  refine h.at_slot hsound hstack rfl rfl (by simp [slot]) (s.modify_self i _)
    (Or.inl ⟨rfl, rfl, rfl⟩) (by simp [Shaped]) ?_ (fun _ => hzero) h.whole h.based h.clean
    h.conserved
  show s.tally sending i + 0 + (s.sessionArray i).io.countP Io.send ≤ 0
  rw [hsending, hsound.io_nil hlive]
  simp

/-- The slot goes live. -/
theorem Boxed.arm (h : Boxed s i) (hsound : Sound cfg s)
    (hstack : s.threads[t]? = some (.accept i .and :: rest)) :
    Boxed ((s.modify i fun x => { x with releaseFlag := false, armed := true }).start t
      ([Frame.accept i .contentsNum] ++ rest)) i :=
  h.at_slot hsound hstack rfl rfl (by simp [slot]) (s.modify_self i _) (Or.inl ⟨rfl, rfl, rfl⟩)
    (by simp [Shaped]) h.token h.idle h.whole h.based (fun hnot => by simp [Session.live] at hnot)
    h.conserved

/-! ## Runs -/

/-- A step of a frame at one slot leaves the others alone. -/
theorem boxed_of_slot (h : ∀ i, Boxed s i) (hstack : s.threads[t]? = some (frame :: rest))
    (hat : Boxed (s'.start t (frames ++ rest)) i) (hthreads : s'.threads = s.threads)
    (hslot : frame.slot = some i) (hnext : ∀ next ∈ frames, next.slot = some i)
    (helse : ∀ k, k ≠ i → s'.sessionArray k = s.sessionArray k) (k : Nat) :
    Boxed (s'.start t (frames ++ rest)) k := by
  by_cases hk : k = i
  · exact hk ▸ hat
  · have hik : ¬ i = k := fun heq => hk heq.symm
    have htally : ∀ w, (s'.start t (frames ++ rest)).tally w k = s.tally w k := by
      intro w
      have := tally_run_slot hstack hthreads hslot hnext w k
      simpa only [hik, if_false, Nat.add_zero] using this
    refine (h k).same ?_ (htally sending) (htally staging) (htally dirty) ?_
    · show SameSend _ (s'.sessionArray k)
      rw [helse k hk]
      exact .refl _
    · intro other hother hother_slot
      have hother : Present (s.threads.set t (frames ++ rest)) other := by
        rw [← hthreads]
        exact hother
      rcases Present.of_set_cons hstack hother with hnew | ⟨hold, _⟩
      · have := (hnext other hnew).symm.trans hother_slot
        exact absurd (Option.some.inj this) hik
      · exact Or.inl hold

/-- A step of a plain frame. -/
theorem Boxed.plain (h : Boxed s i) (hstack : s.threads[t]? = some (frame :: rest))
    (hplain : frame.plain = true) (now : UInt64) (outcome : Outcome) :
    Boxed ((s.runFrame cfg now outcome frame).1.start t
      ((s.runFrame cfg now outcome frame).2 ++ rest)) i := by
  have hran : Ran cfg s frame _ _ := runFrame_ran now outcome frame
  have hthreads := hran.threads
  have hlight := fun next (hn : next ∈ (s.runFrame cfg now outcome frame).2) =>
    (runFrame_next hn).light hplain
  have hweights := fun next hn => light_weights (hlight next hn)
  have hframe : frame.sending = 0 ∧ frame.staging = 0 ∧ frame.dirty = 0 := by
    cases frame with
    | sendPost i pc => cases pc <;> first | contradiction | exact ⟨rfl, rfl, rfl⟩
    | sent i pc => contradiction
    | release i pc => cases pc <;> first | contradiction | exact ⟨rfl, rfl, rfl⟩
    | _ => exact ⟨rfl, rfl, rfl⟩
  refine h.same (plain_sameSend hplain now outcome i)
    (tally_run_zero hstack hthreads hframe.1 (fun next hn => (hweights next hn).1) i)
    (tally_run_zero hstack hthreads hframe.2.1 (fun next hn => (hweights next hn).2.1) i)
    (tally_run_zero hstack hthreads hframe.2.2 (fun next hn => (hweights next hn).2.2) i) ?_
  intro other hother _
  rw [ContentsServer.start, hthreads] at hother
  rcases Present.of_set_cons hstack hother with hnew | ⟨hold, _⟩
  · exact Or.inr (light_shaped (hlight other hnew))
  · exact Or.inl hold

/-- A step of `SendCompletion` and of what follows it. -/
theorem boxed_sent {j : Nat} {pc : SentPc} (h : ∀ i, Boxed s i) (hsound : Sound cfg s)
    (hstack : s.threads[t]? = some (.sent j pc :: rest)) (i : Nat) :
    Boxed ((s.sentStep j pc).1.start t ((s.sentStep j pc).2 ++ rest)) i := by
  have hpresent : Present s.threads (.sent j pc) := present_of_getElem? hstack (by simp)
  have hlive := hsound.live_of_confirmed hpresent rfl rfl
  cases pc with
  | drop k =>
      simp only [ContentsServer.sentStep]
      split
      · rename_i hk
        have hat := (h j).dropEntry hsound (.sent j (.drop (k + 1))) hstack rfl rfl rfl rfl rfl
          rfl (fun hnot => by omega) (fun hs => hs) (fun _ hs => hs) hk
        exact boxed_of_slot h hstack hat rfl rfl (by simp [slot])
          (fun k hk => s.modify_of_ne hk _) i
      · rename_i hk
        have hat := (h j).goto hsound (.sent j .zero) hstack rfl rfl (Nat.le_refl _) rfl rfl
          fun hs => entries_done hs (by omega)
        exact boxed_of_slot h hstack hat rfl rfl (by simp [slot]) (fun _ _ => rfl) i
  | zero =>
      have hat := (h j).zero hsound (.sent j .sendFlag) hstack rfl rfl rfl rfl
        (fun hnot => by omega) (fun hs => hs) (fun _ hs => hs) ((h j).no_send hpresent rfl rfl)
      exact boxed_of_slot h hstack hat rfl rfl (by simp [slot])
        (fun k hk => s.modify_of_ne hk _) i
  | sendFlag =>
      have hat := (h j).giveBack [.sendPost j .dFlag, .drop j false] hsound hstack
        rfl rfl rfl rfl (fun hs => hs) (by simp [slot, light, sending, dirty])
      exact boxed_of_slot h hstack hat rfl rfl (by simp [slot])
        (fun k hk => s.modify_of_ne hk _) i

/-- A step of `SendPost`. -/
theorem boxed_sendPost {j : Nat} {pc : SendPostPc} (h : ∀ i, Boxed s i) (hsound : Sound cfg s)
    (outcome : Outcome)
    (hstack : s.threads[t]? = some (.sendPost j pc :: rest))
    (hplain : ¬ (Frame.sendPost j pc).plain = true) (i : Nat) :
    Boxed ((s.sendPostStep j outcome pc).1.start t ((s.sendPostStep j outcome pc).2 ++ rest)) i := by
  have hpresent : Present s.threads (.sendPost j pc) := present_of_getElem? hstack (by simp)
  cases pc with
  | dFlag | size | resize | recheck | cancel => exact absurd rfl hplain
  | exchange =>
      refine boxed_of_slot h hstack ((h j).exchange hsound hstack) rfl rfl ?_
        (fun k hk => s.modify_of_ne hk _) i
      split <;> simp [slot]
  | inc =>
      refine boxed_of_slot h hstack ((h j).win hsound hstack) rfl rfl ?_
        (fun k hk => s.modify_of_ne hk _) i
      split <;> simp [slot]
  | dequeue k =>
      simp only [ContentsServer.sendPostStep]
      split
      · dsimp only
        split
        · have hat := (h j).addSize hsound (-1) (.sendPost j (.restore k)) hstack rfl rfl
            (Nat.le_refl _) rfl rfl fun hs => hs
          exact boxed_of_slot h hstack hat rfl rfl (by simp [slot])
            (fun k hk => s.modify_of_ne hk _) i
        · have hat := (h j).addSize hsound (-1) (.sendPost j (.take k)) hstack rfl rfl
            (Nat.le_refl _) rfl rfl fun hs => hs
          exact boxed_of_slot h hstack hat rfl rfl (by simp [slot])
            (fun k hk => s.modify_of_ne hk _) i
      · have hat := (h j).goto hsound (.sendPost j (.count k)) hstack rfl rfl (Nat.le_refl _) rfl
          rfl fun hs => hs
        exact boxed_of_slot h hstack hat rfl rfl (by simp [slot]) (fun _ _ => rfl) i
  | take k =>
      simp only [ContentsServer.sendPostStep]
      split
      · have hat := (h j).goto hsound (.sendPost j (.take k)) hstack rfl rfl (Nat.le_refl _) rfl
          rfl fun hs => hs
        exact boxed_of_slot h hstack hat rfl rfl (by simp [slot]) (fun _ _ => rfl) i
      · rename_i tag tags hqueue
        refine boxed_of_slot h hstack ((h j).dequeue hsound hstack hqueue) rfl rfl
          (by simp [slot]) (fun k hk => ?_) i
        rw [ContentsServer.modify_of_ne _ hk, ContentsServer.dequeued,
          ContentsServer.modify_of_ne _ hk]
  | restore k =>
      have hat := (h j).addSize hsound 1 (.sendPost j (.count k)) hstack rfl rfl (Nat.le_refl _)
        rfl rfl fun hs => hs
      exact boxed_of_slot h hstack hat rfl rfl (by simp [slot])
        (fun k hk => s.modify_of_ne hk _) i
  | count k =>
      refine boxed_of_slot h hstack ((h j).count hsound hstack) rfl rfl ?_
        (fun k hk => s.modify_of_ne hk _) i
      split <;> simp [slot]
  | reset =>
      have hat := (h j).giveBack [.sendPost j .resize] hsound hstack rfl rfl rfl
        rfl (fun hs => hs) (by simp [slot, light, sending, dirty])
      exact boxed_of_slot h hstack hat rfl rfl (by simp [slot])
        (fun k hk => s.modify_of_ne hk _) i
  | wsaSend k =>
      cases outcome with
      | done =>
          exact boxed_of_slot h hstack ((h j).wsaSend hsound hstack false (Or.inl rfl)) rfl rfl
            (by simp) (fun k hk => s.modify_of_ne hk _) i
      | pending =>
          exact boxed_of_slot h hstack ((h j).wsaSend hsound hstack true (Or.inr rfl)) rfl rfl
            (by simp [slot]) (fun k hk => s.modify_of_ne hk _) i
      | failed =>
          have hat := (h j).leave [.drop j true] hsound hstack rfl rfl rfl
            (by simp [slot, light, sending, dirty])
          exact boxed_of_slot h hstack hat rfl rfl (by simp [slot]) (fun _ _ => rfl) i

/-- A step of `Release`. -/
theorem boxed_release {j : Nat} {pc : ReleasePc} (h : ∀ i, Boxed s i)
    (hsized : ∀ i, Sized s i) (hsound : Sound cfg s) (hlives : Lives s)
    (hstack : s.threads[t]? = some (.release j pc :: rest))
    (hplain : ¬ (Frame.release j pc).plain = true) (i : Nat) :
    Boxed ((s.releaseStep j pc).1.start t ((s.releaseStep j pc).2 ++ rest)) i := by
  have hpresent : Present s.threads (.release j pc) := present_of_getElem? hstack (by simp)
  cases pc with
  | clearRestore | sessionCount | leave | onRelease | push => exact absurd rfl hplain
  | cas =>
      simp only [ContentsServer.releaseStep]
      split
      · rename_i hzero
        exact boxed_of_slot h hstack ((h j).cas hsound hlives hstack hzero) rfl rfl
          (by simp [slot])
          (fun k hk => by rw [ContentsServer.record_sessionArray, s.modify_of_ne hk]) i
      · have hat := (h j).leave [] hsound hstack rfl rfl rfl (by simp)
        exact boxed_of_slot h hstack hat rfl rfl (by simp) (fun _ _ => rfl) i
  | drop k =>
      simp only [ContentsServer.releaseStep]
      split
      · rename_i hk
        have hat := (h j).dropEntry hsound (.release j (.drop (k + 1))) hstack rfl rfl rfl rfl
          rfl rfl (fun _ => ⟨rfl, rfl⟩) (fun hs => hs) (fun _ hs => hs) hk
        exact boxed_of_slot h hstack hat rfl rfl (by simp [slot])
          (fun k hk => s.modify_of_ne hk _) i
      · rename_i hk
        have hat := (h j).goto hsound (.release j .zero) hstack rfl rfl (Nat.le_refl _) rfl rfl
          fun hs => entries_done hs (by omega)
        exact boxed_of_slot h hstack hat rfl rfl (by simp [slot]) (fun _ _ => rfl) i
  | zero =>
      have hio := hsound.io_nil (hsound.owner hpresent rfl rfl).2.2.1
      have hat := (h j).zero hsound (.release j .clear) hstack rfl rfl rfl rfl
        (fun _ => ⟨rfl, rfl⟩) (fun hs => hs) (fun _ hs => hs) (by simp [hio])
      exact boxed_of_slot h hstack hat rfl rfl (by simp [slot])
        (fun k hk => s.modify_of_ne hk _) i
  | clear =>
      have hsize := (hsized j).of_owner hsound hstack rfl rfl
      simp only [ContentsServer.releaseStep]
      split
      · rename_i hneg
        have hqueue : (s.sessionArray j).sendQ = [] := by
          rw [← List.length_eq_zero_iff]
          simp only [counting] at hsize
          omega
        exact boxed_of_slot h hstack ((h j).cleared hsound hstack hqueue) rfl rfl
          (by simp [slot]) (fun k hk => s.modify_of_ne hk _) i
      · have hat := (h j).addSize hsound (-1) (.release j .clearTake) hstack rfl rfl
          (Nat.le_refl _) rfl rfl fun hs => hs
        exact boxed_of_slot h hstack hat rfl rfl (by simp [slot])
          (fun k hk => s.modify_of_ne hk _) i
  | clearTake =>
      simp only [ContentsServer.releaseStep]
      split
      · have hat := (h j).goto hsound (.release j .clearTake) hstack rfl rfl (Nat.le_refl _) rfl
          rfl fun hs => hs
        exact boxed_of_slot h hstack hat rfl rfl (by simp [slot]) (fun _ _ => rfl) i
      · rename_i tag tags hqueue
        exact boxed_of_slot h hstack ((h j).clear hsound hstack hqueue) rfl rfl
          (by simp [slot]) (fun k hk => s.modify_of_ne hk _) i
  | clearDrop tag =>
      exact boxed_of_slot h hstack ((h j).clearDrop hsound hstack) rfl rfl (by simp [slot])
        (fun k hk => s.modify_of_ne hk _) i

/-- A step of `AcceptThread`. -/
theorem boxed_accept {j : Nat} {pc : AcceptPc} (h : ∀ i, Boxed s i)
    (hsized : ∀ i, Sized s i) (hsound : Sound cfg s) (now : UInt64) (outcome : Outcome)
    (hstack : s.threads[t]? = some (.accept j pc :: rest))
    (hplain : ¬ (Frame.accept j pc).plain = true)
    (hkept : pc = .sendFlag → ¬ Present s.threads (.sendPost j .inc)) (i : Nat) :
    Boxed ((s.acceptStep cfg j now outcome pc).1.start t
      ((s.acceptStep cfg j now outcome pc).2 ++ rest)) i := by
  have hpresent : Present s.threads (.accept j pc) := present_of_getElem? hstack (by simp)
  cases pc with
  | clear =>
      have hsize := (hsized j).of_owner hsound hstack rfl rfl
      rw [((h j).empty_of_accept hsound hstack rfl).2.2] at hsize
      simp only [ContentsServer.acceptStep]
      split
      · have hat := (h j).addSize hsound (-1) (.accept j .clearRestore) hstack rfl rfl
          (Nat.le_refl _) rfl rfl fun _ => trivial
        exact boxed_of_slot h hstack hat rfl rfl (by simp [slot])
          (fun k hk => s.modify_of_ne hk _) i
      · rename_i hnot
        simp only [counting, List.length_nil] at hsize
        omega
  | clearTake => exact False.elim ((h j).shaped _ hpresent rfl)
  | clearDrop tag => exact False.elim ((h j).shaped _ hpresent rfl)
  | sendFlag =>
      exact boxed_of_slot h hstack ((h j).clearFlag hsound hstack (hkept rfl)) rfl rfl
        (by simp [slot]) (fun k hk => s.modify_of_ne hk _) i
  | and =>
      exact boxed_of_slot h hstack ((h j).arm hsound hstack) rfl rfl (by simp [slot])
        (fun k hk => s.modify_of_ne hk _) i
  | _ => exact absurd rfl hplain

/-- One step of a frame. -/
theorem boxed_run (h : ∀ i, Boxed s i) (hsized : ∀ i, Sized s i) (hsound : Sound cfg s)
    (hlives : Lives s)
    (hstack : s.threads[t]? = some (frame :: rest)) (now : UInt64) (outcome : Outcome)
    (hkept : ∀ j, frame = .accept j .sendFlag → ¬ Present s.threads (.sendPost j .inc)) (i : Nat) :
    Boxed ((s.runFrame cfg now outcome frame).1.start t
      ((s.runFrame cfg now outcome frame).2 ++ rest)) i := by
  by_cases hplain : frame.plain = true
  · exact (h i).plain hstack hplain now outcome
  · cases frame with
    | sendPacket id pc =>
        cases pc with
        | enqueue =>
            simp only [ContentsServer.runFrame, ContentsServer.sendPacketStep]
            split
            · have hat := (h (findSession id)).leave
                [.disconnect id .inc, .drop (findSession id) false] hsound hstack rfl
                rfl rfl (by simp [slot, light, sending, dirty])
              exact boxed_of_slot h hstack hat rfl rfl (by simp [slot]) (fun _ _ => rfl) i
            · exact boxed_of_slot h hstack ((h _).enqueue hsound hstack rfl) rfl rfl
                (by simp [slot]) (fun k hk => s.modify_of_ne hk _) i
        | _ => exact absurd rfl hplain
    | sent j pc => exact boxed_sent h hsound hstack i
    | sendPost j pc => exact boxed_sendPost h hsound outcome hstack hplain i
    | release j pc => exact boxed_release h hsized hsound hlives hstack hplain i
    | accept j pc =>
        exact boxed_accept h hsized hsound now outcome hstack hplain
          (fun hpc => hkept j (by rw [hpc])) i
    | _ => exact absurd rfl hplain

/-- A frame that relies on nothing starts. -/
theorem Boxed.start (h : Boxed s i) {stack : List Frame} (hstack : s.threads[t]? = some stack)
    (hthreads : s'.threads = s.threads) (hlight : frame.light = true)
    (hsame : SameSend (s.sessionArray i) (s'.sessionArray i)) :
    Boxed (s'.start t (frame :: stack)) i := by
  obtain ⟨hsending, hstaging, hdirty⟩ := light_weights hlight
  refine h.same hsame (tally_start_zero hstack hthreads hsending i)
    (tally_start_zero hstack hthreads hstaging i) (tally_start_zero hstack hthreads hdirty i) ?_
  intro other hother _
  rw [ContentsServer.start, hthreads] at hother
  rcases Present.of_set_append [frame] hstack hother with hnew | hold
  · exact Or.inr (List.mem_singleton.mp hnew ▸ light_shaped hlight)
  · exact Or.inl hold

/-- A worker takes the completion of a send: the box is now its. -/
theorem Boxed.sent (h : Boxed s i) (hsound : Sound cfg s) {n : Nat} {io : Io}
    (hstack : s.threads[t]? = some []) (hio : (s.sessionArray i).io[n]? = some io)
    (hsend : io.send = true) :
    Boxed ((s.modify i fun x => { x with io := x.io.eraseIdx n }).start t
      [.sent i (.drop 0)]) i := by
  obtain ⟨hn, rfl⟩ := List.getElem?_eq_some_iff.mp hio
  have hmem := List.getElem_mem hn
  have hlive : (s.sessionArray i).live = 1 := hsound.posted i (List.ne_nil_of_mem hmem)
  have htoken := h.token
  have hone := h.token_le_one
  have hcount : ((s.sessionArray i).io.eraseIdx n).countP Io.send + 1 =
      (s.sessionArray i).io.countP Io.send := by
    rw [← List.countP_cons_of_pos (l := (s.sessionArray i).io.eraseIdx n) hsend]
    exact (List.getElem_cons_eraseIdx_perm hn).countP_eq _
  have hworking : s.tally working i = 0 := by
    have := tally_le_mul (s := s) working_le_sending i
    omega
  have hstaging := staging_zero hworking (hsound.owns_zero hlive)
  have htally : ∀ w : Frame → Nat, ((s.modify i fun x => { x with io := x.io.eraseIdx n }).start t
      [Frame.sent i (.drop 0)]).tally w i = s.tally w i + w (.sent i (.drop 0)) := by
    intro w
    have := tally_start (s.modify i fun x => { x with io := x.io.eraseIdx n })
      [.sent i (.drop 0)] hstack rfl w i
    simpa [weightAt, slot] using this
  have hself : ((s.modify i fun x => { x with io := x.io.eraseIdx n }).start t
      [Frame.sent i (.drop 0)]).sessionArray i =
        { s.sessionArray i with io := (s.sessionArray i).io.eraseIdx n } := by
    rw [ContentsServer.start_sessionArray, ContentsServer.modify_self]
  constructor
  · rw [htally, hself]
    show s.tally sending i + 1 + ((s.sessionArray i).io.eraseIdx n).countP Io.send ≤
      if (s.sessionArray i).sendFlag then 1 else 0
    omega
  · rw [hself]
    exact h.idle
  · rw [hself]
    exact fun other hother => h.whole other (List.mem_of_mem_eraseIdx hother)
  · rw [hself]
    intro other hother hslot
    rcases Present.of_set_append [Frame.sent i (.drop 0)] hstack hother with hnew | hold
    · rw [List.mem_singleton.mp hnew]
      show (s.sessionArray i).held.Perm ((s.sessionArray i).entries 0 (s.sessionArray i).count)
      rw [Session.entries_zero]
      exact h.based hstaging
    · have hsame : SameBox (s.sessionArray i)
          { s.sessionArray i with io := (s.sessionArray i).io.eraseIdx n } := ⟨rfl, rfl, rfl⟩
      exact hsame.shaped.mpr (h.shaped other hold hslot)
  · rw [htally]
    intro hzero
    have : s.tally staging i + 1 = 0 := hzero
    omega
  · rw [hself]
    intro hnot
    have : (s.sessionArray i).live = 0 := hnot
    omega
  · rw [hself]
    exact h.conserved

/-- A worker takes a completion. -/
theorem boxed_complete (h : ∀ i, Boxed s i) (hsound : Sound cfg s) {j n : Nat} {io : Io}
    (success : Bool) (hstack : s.threads[t]? = some [])
    (hio : (s.sessionArray j).io[n]? = some io) (i : Nat) :
    Boxed ((s.modify j fun x => { x with io := x.io.eraseIdx n }).start t
      [completionFrame j io success]) i := by
  have hsame : ∀ x : Session, SameSend x { x with io := x.io.eraseIdx n } := fun x =>
    { sBufferArray := rfl, count := rfl, held := rfl, sendFlag := rfl, sendQ := rfl, dropped := rfl,
      enqueued := rfl, live := rfl
      sends := (List.eraseIdx_sublist x.io n).countP_le
      buffers := fun io hmem hsend => ⟨io, List.mem_of_mem_eraseIdx hmem, hsend, rfl⟩ }
  cases hlight : (completionFrame j io success).light with
  | true => exact (h i).start hstack rfl hlight (s.modify_sameSend j hsame i)
  | false =>
      have hsent : io.send = true ∧ completionFrame j io success = .sent j (.drop 0) := by
        unfold completionFrame at hlight ⊢
        split at hlight
        · split at hlight
          · rename_i hsend
            simp_all
          · simp [light, sending, dirty] at hlight
        · simp [light, sending, dirty] at hlight
      rw [hsent.2]
      by_cases hij : i = j
      · subst hij
        exact (h i).sent hsound hstack hio hsent.1
      · have hji : ¬ j = i := fun heq => hij heq.symm
        have htally : ∀ w, ((s.modify j fun x => { x with io := x.io.eraseIdx n }).start t
            [Frame.sent j (.drop 0)]).tally w i = s.tally w i := by
          intro w
          have := tally_start (s.modify j fun x => { x with io := x.io.eraseIdx n })
            [.sent j (.drop 0)] hstack rfl w i
          simpa [weightAt, slot, hji] using this
        refine (h i).same (s.modify_sameSend j hsame i) (htally _) (htally _) (htally _) ?_
        intro other hother hslot
        rcases Present.of_set_append [Frame.sent j (.drop 0)] hstack hother with hnew | hold
        · rw [List.mem_singleton.mp hnew] at hslot
          exact absurd (Option.some.inj hslot) hji
        · exact Or.inl hold

/-- `AcceptThread` clears `_sendFlag` of a slot only when no worker that has won it is
still to count its reference. -/
def FlagKept (s : ContentsServer) : Step → Prop
  | .run t _ _ =>
      match s.threads[t]? with
      | some (.accept i .sendFlag :: _) => ¬ Present s.threads (.sendPost i .inc)
      | _ => True
  | _ => True

/-- The slot whose flag a frame is about to clear for the next client. -/
def Frame.clearing : Frame → Option Nat
  | accept i .sendFlag => some i
  | _ => none

theorem flagKept_iff {step : Step} : FlagKept s step ↔
    ∀ i ∈ (s.top step).bind Frame.clearing, ¬ Present s.threads (.sendPost i .inc) := by
  unfold FlagKept
  split
  · rename_i t now outcome
    split
    · rename_i hstack
      simp [ContentsServer.top, hstack, Frame.clearing]
    · rename_i hother
      simp only [true_iff]
      intro i hi
      simp only [ContentsServer.top, Option.mem_def, Option.bind_eq_some_iff] at hi
      obtain ⟨frame, ⟨stack, hstack, hframe⟩, hclearing⟩ := hi
      unfold Frame.clearing at hclearing
      split at hclearing
      · obtain ⟨rest, rfl⟩ := List.head?_eq_some_iff.mp hframe
        exact absurd hstack (hother _ _)
      · simp at hclearing
  · rename_i hother
    cases step with
    | run t now outcome => exact absurd rfl (hother t now outcome)
    | _ => simp [ContentsServer.top]

instance (s : ContentsServer) (step : Step) : Decidable (FlagKept s step) :=
  decidable_of_iff _ flagKept_iff.symm

/-- **A step keeps the box of every slot.** -/
theorem boxed_step {step : Step} (h : ∀ i, Boxed s i) (hsized : ∀ i, Sized s i)
    (hsound : Sound cfg s) (hlives : Lives s) (hkept : FlagKept s step)
    (hstep : Served cfg s step s') (i : Nat) : Boxed s' i := by
  cases hstep with
  | run t now outcome frame rest hstack =>
      refine boxed_run h hsized hsound hlives hstack now outcome ?_ i
      rintro j rfl
      simpa only [FlagKept, hstack] using hkept
  | accept hstack => exact (h i).start hstack rfl rfl (.refl _)
  | take t n message hstack hmessage =>
      cases message with
      | release j => exact (h i).start hstack rfl rfl (.refl _)
      | sendPost j => exact (h i).start hstack rfl rfl (.refl _)
  | complete t j n io success hstack hio => exact boxed_complete h hsound success hstack hio i
  | call t call stack hissued hstack =>
      cases call with
      | disconnect id => exact (h i).start hstack rfl rfl (.refl _)
      | sendPacket id => exact (h i).start hstack rfl rfl (.refl _)
      | tryMove id contentsNum => exact (h i).start hstack rfl rfl (.refl _)
  | kick t j rest hstack => exact (h i).start hstack rfl rfl (.refl _)
  | sweep regular now hstack => exact (h i).start hstack rfl rfl (.refl _)

/-- One send at a time, at one slot. -/
structure OneSend (s : ContentsServer) (i : Nat) : Prop where
  outstanding : (s.sessionArray i).io.countP Io.send ≤ 1
  /-- The box still holds what the send was given. -/
  kept : ∀ io ∈ (s.sessionArray i).io, io.send = true →
    io.buffers = (s.sessionArray i).boxed (s.sessionArray i).count
  /-- Every buffer enqueued is on the queue, taken off it or dropped: one of these, and
  once. -/
  conserved : ((s.sessionArray i).sendQ ++ (s.sessionArray i).held ++
    (s.sessionArray i).dropped).Perm (List.range (s.sessionArray i).enqueued)
  /-- On a free slot all of them have been dropped. -/
  free : i ∈ s.indexArray →
    (s.sessionArray i).dropped.Perm (List.range (s.sessionArray i).enqueued)

/-- **One send at a time**, in every run in which the flag of a slot is never cleared under
a worker that has won it. -/
theorem one_send_at_a_time (cfg : Config) (others : Nat) (steps : List Step) (s : ContentsServer)
    (hsteps : ∀ step ∈ steps, step.isSweep = false)
    (hok : Along (serverStep cfg) FlagKept (startedServer cfg others) steps)
    (h : exec (serverStep cfg) (startedServer cfg others) steps = some s) (i : Nat) :
    OneSend s i := by
  have hinvariant : Sound cfg s ∧ Lives s ∧ (∀ i, Sized s i) ∧ ∀ i, Boxed s i := by
    refine exec_invariant_along
      (I := fun s => Sound cfg s ∧ Lives s ∧ (∀ i, Sized s i) ∧ ∀ i, Boxed s i) ?_
      ⟨sound_started cfg others, lives_started cfg others, sized_started cfg others,
        boxed_started cfg others⟩
      ((unswept_along hsteps).and hok) h
    rintro s step s' ⟨hsound, hlives, hsized, hboxed⟩ ⟨hswept, hkept⟩ hstep
    have hserved := serverStep_served hstep
    exact ⟨hsound.step hswept hserved, hlives.step hsound hserved,
      fun i => (hsized i).step hserved, boxed_step hboxed hsized hsound hlives hkept hserved⟩
  obtain ⟨hsound, _, _, hboxed⟩ := hinvariant
  have hbox := hboxed i
  refine ⟨(Nat.le_add_left _ _).trans hbox.token_le_one, hbox.whole, hbox.conserved, fun hfree => ?_⟩
  have htoken := hsound.token i
  have hcount := List.count_pos_iff.mpr hfree
  have hlive : (s.sessionArray i).live = 0 := by split at htoken <;> omega
  have howns : s.tally owns i = 0 := by split at htoken <;> omega
  have hdirty : s.tally dirty i = 0 := by
    have := tally_le_mul (s := s) dirty_le_owns i
    omega
  obtain ⟨hzero, hqueue⟩ := hbox.clean hlive hdirty
  have hheld := hbox.based (staging_zero (hsound.working_zero hlive) howns)
  rw [hzero] at hheld
  have hconserved := hbox.conserved
  rwa [hqueue, hheld.eq_nil] at hconserved

/-- Worker 2 calls `SendPacket`. -/
def sends (id : SessionID) : List Step := .call 2 (.sendPacket id) :: runs 2 7

/-- One packet is sent to a client, and the client leaves. -/
def onePacket : List Step :=
  accepts ++ sends ⟨0, 1⟩ ++ .take 2 0 :: runs 2 11 ++ .complete 2 0 0 true :: runs 2 7 ++
    releases 9

theorem onePacket_dropped_once :
    ∃ s, exec (serverStep oneSlot) (startedServer oneSlot 1) onePacket = some s ∧
      (s.sessionArray 0).enqueued = 1 ∧ (s.sessionArray 0).dropped.Perm (List.range 1) := by
  have hrun : (∀ step ∈ onePacket, step.isSweep = false) ∧
      Along (serverStep oneSlot) FlagKept (startedServer oneSlot 1) onePacket ∧
      (exec (serverStep oneSlot) (startedServer oneSlot 1) onePacket).map
        (fun s => (s.indexArray, (s.sessionArray 0).enqueued)) = some ([0], 1) := by
    decide +kernel
  obtain ⟨s, hs, heq⟩ := Option.map_eq_some_iff.mp hrun.2.2
  rw [Prod.mk.injEq] at heq
  have honce := one_send_at_a_time oneSlot 1 onePacket s hrun.1 hrun.2.1 hs 0
  have hall := honce.free (by rw [heq.1]; decide)
  rw [heq.2] at hall
  exact ⟨s, hs, heq.2, hall⟩

/-- Worker 3 wins the flag for a client and stops before it counts its reference; the
client leaves, the next one is accepted in the slot, and both workers send to it. -/
def staleWinner : List Step :=
  accepts ++ sends ⟨0, 1⟩ ++ .take 3 0 :: runs 3 3 ++ releases 12 ++ accepts ++ sends ⟨0, 2⟩ ++
    .take 2 0 :: runs 2 11 ++ sends ⟨0, 2⟩ ++ runs 3 7

theorem staleWinner_sends_twice :
    (∀ step ∈ staleWinner, step.isSweep = false) ∧
      ∃ s, exec (serverStep oneSlot) (startedServer oneSlot 2) staleWinner = some s ∧
        (s.sessionArray 0).io.countP Io.send = 2 ∧
        ∃ io ∈ (s.sessionArray 0).io, io.send = true ∧
          io.buffers ≠ (s.sessionArray 0).boxed (s.sessionArray 0).count := by
  have hrun : (∀ step ∈ staleWinner, step.isSweep = false) ∧
      (exec (serverStep oneSlot) (startedServer oneSlot 2) staleWinner).map
        (fun s => ((s.sessionArray 0).io, (s.sessionArray 0).boxed (s.sessionArray 0).count)) =
          some ([⟨true, [2], true, false⟩, ⟨true, [1], true, false⟩, ⟨false, [], true, false⟩],
            [2]) := by
    decide +kernel
  obtain ⟨s, hs, heq⟩ := Option.map_eq_some_iff.mp hrun.2
  rw [Prod.mk.injEq] at heq
  refine ⟨hrun.1, s, hs, by rw [heq.1]; rfl, ⟨true, [1], true, false⟩, by rw [heq.1]; simp, rfl, ?_⟩
  rw [heq.2]
  decide

end SessionServer.ContentLib
