/-
  ContentLib/SendBox.lean --- who may touch `_packetBox`, and where a queued buffer is.

  Whoever wins `_sendFlag` owns the box of the slot until the flag is given back: the
  worker inside `SendPost`, then the send itself, then the worker that takes its
  completion.  A buffer is on `_sendQ`, held by the box, or dropped.  `Boxed` states both
  for one slot.
-/
import SessionServer.ContentLib.SendQ

set_option autoImplicit false

namespace SessionServer.ContentLib

open SessionServer.Foundation

/-! ## Frames -/

namespace Frame

/-- The frame has won `_sendFlag` and has not given it back. -/
def sending : Frame → Nat
  | sendPost _ .inc => 1
  | sendPost _ (.dequeue _) => 1
  | sendPost _ (.take _) => 1
  | sendPost _ (.restore _) => 1
  | sendPost _ (.count _) => 1
  | sendPost _ .reset => 1
  | sendPost _ (.wsaSend _) => 1
  | sent _ _ => 1
  | _ => 0

/-- It has, and counts in `_ioCount`. -/
def working : Frame → Nat
  | sendPost _ .inc => 0
  | frame => frame.sending

/-- The frame may write to the box. -/
def occupying (frame : Frame) : Nat := frame.working + frame.owns

/-- The buffers held are not the ones `_count` tells. -/
def staging : Frame → Nat
  | sendPost _ (.dequeue _) => 1
  | sendPost _ (.take _) => 1
  | sendPost _ (.restore _) => 1
  | sendPost _ (.count _) => 1
  | sent _ (.drop _) => 1
  | sent _ .zero => 1
  | release _ (.drop _) => 1
  | release _ .zero => 1
  | release _ (.clearDrop _) => 1
  | _ => 0

/-- `Release` before its `ClearSendQ` has found the queue empty. -/
def dirty : Frame → Nat
  | release _ (.drop _) => 1
  | release _ .zero => 1
  | release _ .clear => 1
  | release _ .clearTake => 1
  | release _ (.clearDrop _) => 1
  | _ => 0

/-- The frame relies on nothing about the box. -/
def light : Frame → Bool
  | accept _ .clearTake => false
  | accept _ (.clearDrop _) => false
  | frame => frame.sending == 0 && frame.dirty == 0

/-- The step of the frame writes nothing the sends of a slot depend on. -/
def plain : Frame → Bool
  | sendPacket _ .enqueue => false
  | sendPost _ .exchange => false
  | release _ .cas => false
  | accept _ .clear => false
  | accept _ .sendFlag => false
  | accept _ .and => false
  | frame => frame.light

theorem working_le_sending (frame : Frame) : frame.working ≤ 1 * frame.sending := by
  cases frame with
  | sendPost i pc => cases pc <;> simp [working, sending]
  | _ => simp [working]

theorem staging_le_occupying (frame : Frame) : frame.staging ≤ 1 * frame.occupying := by
  cases frame with
  | sendPost i pc => cases pc <;> simp [staging, occupying, working, sending, owns]
  | sent i pc => cases pc <;> simp [staging, occupying, working, sending, owns]
  | release i pc => cases pc <;> simp [staging, occupying, working, sending, owns]
  | _ => simp [staging]

theorem dirty_le_owns (frame : Frame) : frame.dirty ≤ 1 * frame.owns := by
  cases frame with
  | release i pc => cases pc <;> simp [dirty, owns]
  | _ => simp [dirty]

theorem working_le_holds (frame : Frame) : frame.working ≤ 1 * frame.holds := by
  cases frame with
  | sendPost i pc => cases pc <;> simp [working, sending, holds]
  | sent i pc => cases pc <;> simp [working, sending, holds]
  | _ => simp [working, sending]

theorem working_confirmed {frame : Frame} (h : frame.working ≠ 0) : frame.confirmed = true := by
  cases frame with
  | sendPost i pc => cases pc <;> simp_all [working, sending, confirmed, holds]
  | sent i pc => cases pc <;> simp_all [working, sending, confirmed, holds]
  | _ => simp [working, sending] at h

end Frame

open ContentLib.Frame

/-! ## The box -/

/-- The buffers in the box from one place to another. -/
def Session.entries (x : Session) (k n : Nat) : List Tag :=
  (List.range' k (n - k)).map x.sBufferArray

/-- The first buffers in the box. -/
def Session.boxed (x : Session) (n : Nat) : List Tag :=
  (List.range n).map x.sBufferArray

section

variable (x : Session) {k n : Nat}

@[simp] theorem Session.boxed_zero : x.boxed 0 = [] := rfl

theorem Session.entries_zero : x.entries 0 n = x.boxed n := by
  simp [Session.entries, Session.boxed, List.range_eq_range']

theorem Session.entries_of_lt (h : k < n) :
    x.entries k n = x.sBufferArray k :: x.entries (k + 1) n := by
  have hlen : n - k = (n - (k + 1)) + 1 := by omega
  rw [Session.entries, hlen, List.range'_succ, List.map_cons]
  rfl

theorem Session.entries_of_le (h : n ≤ k) : x.entries k n = [] := by
  simp [Session.entries, Nat.sub_eq_zero_of_le h]

/-- A buffer is put in the next place. -/
theorem Session.boxed_succ {y : Session} {tag : Tag}
    (h : y.sBufferArray = Function.update x.sBufferArray k tag) :
    y.boxed (k + 1) = x.boxed k ++ [tag] := by
  simp only [Session.boxed, List.range_succ, List.map_append, List.map_cons, List.map_nil, h,
    Function.update_self]
  congr 1
  refine List.map_congr_left fun j hj => ?_
  exact Function.update_of_ne (Nat.ne_of_lt (List.mem_range.mp hj)) _ _

end

/-- What a frame relies on about the box of its slot. -/
def Shaped (x : Session) : Frame → Prop
  | .sendPost _ .inc => x.count = 0
  | .sendPost _ (.dequeue k) => x.count = 0 ∧ x.held.Perm (x.boxed k)
  | .sendPost _ (.take k) => x.count = 0 ∧ x.held.Perm (x.boxed k)
  | .sendPost _ (.restore k) => x.count = 0 ∧ x.held.Perm (x.boxed k)
  | .sendPost _ (.count k) => x.count = 0 ∧ x.held.Perm (x.boxed k)
  | .sendPost _ .reset => x.count = 0
  | .sendPost _ (.wsaSend k) => x.count = k
  | .sent _ (.drop k) => x.held.Perm (x.entries k x.count)
  | .sent _ .zero => x.held = []
  | .sent _ .sendFlag => x.count = 0
  | .release _ (.drop k) => x.held.Perm (x.entries k x.count)
  | .release _ .zero => x.held = []
  | .release _ .clear => x.count = 0
  | .release _ .clearTake => x.count = 0
  | .release _ (.clearDrop tag) => x.count = 0 ∧ x.held = [tag]
  | .accept _ .clearTake => False
  | .accept _ (.clearDrop _) => False
  | _ => True

/-- **The sends of one slot.** -/
structure Boxed (s : ContentsServer) (i : Nat) : Prop where
  token : s.tally sending i + (s.sessionArray i).io.countP Io.send ≤
    if (s.sessionArray i).sendFlag then 1 else 0
  idle : (s.sessionArray i).sendFlag = false → (s.sessionArray i).count = 0
  whole : ∀ io ∈ (s.sessionArray i).io, io.send = true →
    io.buffers = (s.sessionArray i).boxed (s.sessionArray i).count
  shaped : ∀ frame, Present s.threads frame → frame.slot = some i →
    Shaped (s.sessionArray i) frame
  based : s.tally staging i = 0 →
    (s.sessionArray i).held.Perm ((s.sessionArray i).boxed (s.sessionArray i).count)
  clean : (s.sessionArray i).live = 0 → s.tally dirty i = 0 →
    (s.sessionArray i).count = 0 ∧ (s.sessionArray i).sendQ = []
  conserved : ((s.sessionArray i).sendQ ++ (s.sessionArray i).held ++
    (s.sessionArray i).dropped).Perm (List.range (s.sessionArray i).enqueued)

theorem light_weights {frame : Frame} (h : frame.light = true) :
    frame.sending = 0 ∧ frame.staging = 0 ∧ frame.dirty = 0 := by
  cases frame with
  | sendPost i pc => cases pc <;> first | exact ⟨rfl, rfl, rfl⟩ | simp [light, sending] at h
  | sent i pc => simp [light, sending] at h
  | release i pc => cases pc <;> first | exact ⟨rfl, rfl, rfl⟩ | simp [light, dirty] at h
  | _ => exact ⟨rfl, rfl, rfl⟩

theorem light_shaped {frame : Frame} (h : frame.light = true) (x : Session) :
    Shaped x frame := by
  cases frame with
  | sendPost i pc => cases pc <;> trivial
  | sent i pc => simp [light, sending] at h
  | release i pc => cases pc <;> trivial
  | accept i pc => cases pc <;> trivial
  | _ => trivial

theorem boxed_started (cfg : Config) (others i : Nat) : Boxed (startedServer cfg others) i where
  token := by simp [ContentsServer.tally, startedServer, total, emptySession]
  idle := fun _ => rfl
  whole := by simp [startedServer, emptySession]
  shaped := by
    exact fun frame hpresent => absurd hpresent (not_present_started cfg others frame)
  based := fun _ => List.Perm.refl []
  clean := fun _ _ => ⟨rfl, rfl⟩
  conserved := List.Perm.refl []

/-! ## Who touches it -/

variable {cfg : Config} {s s' : ContentsServer} {frame : Frame} {frames : List Frame} {i : Nat}

/-- Nobody works on the sends of a slot that is not live. -/
theorem Sound.working_zero (h : Sound cfg s) (hlive : (s.sessionArray i).live = 0) :
    s.tally working i = 0 := by
  refine total_eq_zero fun other hother => ?_
  unfold weightAt
  split
  · rename_i hslot
    by_contra hne
    have := h.live_of_confirmed hother (working_confirmed hne) hslot
    omega
  · rfl

theorem Sound.owns_zero (h : Sound cfg s) (hlive : (s.sessionArray i).live = 1) :
    s.tally owns i = 0 := by
  have htoken := h.token i
  split at htoken <;> omega

theorem Sound.owns_le_one (h : Sound cfg s) : s.tally owns i ≤ 1 := by
  have htoken := h.token i
  split at htoken <;> omega

theorem tally_occupying : s.tally occupying i = s.tally working i + s.tally owns i := by
  have hadd : weightAt occupying i =
      fun frame => weightAt working i frame + weightAt owns i frame := by
    funext frame
    unfold weightAt
    split <;> rfl
  rw [ContentsServer.tally, hadd, total_add]
  rfl

theorem Boxed.token_le_one (h : Boxed s i) :
    s.tally sending i + (s.sessionArray i).io.countP Io.send ≤ 1 := by
  have := h.token
  split at this <;> omega

/-- One frame at most may write to the box. -/
theorem Boxed.occupied (h : Boxed s i) (hsound : Sound cfg s) : s.tally occupying i ≤ 1 := by
  rw [tally_occupying]
  have hworking := tally_le_mul (s := s) working_le_sending i
  have htoken := h.token_le_one
  have howns := hsound.owns_le_one (i := i)
  rcases Nat.eq_zero_or_pos (s.sessionArray i).live with hlive | hlive
  · have := hsound.working_zero hlive
    omega
  · have := hsound.owns_zero (i := i) (Nat.le_antisymm (s.sessionArray i).live_le_one hlive)
    omega

/-- A frame that has won the flag is the only one, and no send is outstanding. -/
theorem Boxed.won (h : Boxed s i) (hpresent : Present s.threads frame)
    (hslot : frame.slot = some i) (hsending : frame.sending = 1) :
    s.tally sending i = 1 ∧ (s.sessionArray i).io.countP Io.send = 0 ∧
      (s.sessionArray i).sendFlag = true := by
  have hle := le_tally hpresent hslot sending
  have htoken := h.token
  cases hflag : (s.sessionArray i).sendFlag with
  | false =>
      rw [hflag] at htoken
      simp only [Bool.false_eq_true, if_false] at htoken
      omega
  | true =>
      rw [hflag, if_pos rfl] at htoken
      exact ⟨by omega, by omega, rfl⟩

/-- With the box to itself, a frame is the only one that stages buffers. -/
theorem Boxed.staging_of_occupying (h : Boxed s i) (hsound : Sound cfg s) {t : Nat}
    {rest : List Frame} (hstack : s.threads[t]? = some (frame :: rest))
    (hslot : frame.slot = some i) (hoccupying : frame.occupying = 1) :
    s.tally staging i = frame.staging := by
  have hpresent : Present s.threads frame := present_of_getElem? hstack (by simp)
  have hle := le_tally hpresent hslot occupying
  have hone := h.occupied hsound
  exact tally_of_owner staging_le_occupying hstack hslot (by omega)

/-- A slot without frames that write to the box stages nothing. -/
theorem staging_zero (hworking : s.tally working i = 0) (howns : s.tally owns i = 0) :
    s.tally staging i = 0 := by
  have hle := tally_le_mul (s := s) staging_le_occupying i
  have hsum := tally_occupying (s := s) (i := i)
  omega

/-- The buffers and the count of the box are the same. -/
structure SameBox (x y : Session) : Prop where
  sBufferArray : y.sBufferArray = x.sBufferArray
  count : y.count = x.count
  held : y.held = x.held

theorem SameBox.boxed {x y : Session} (h : SameBox x y) (n : Nat) : y.boxed n = x.boxed n := by
  rw [Session.boxed, Session.boxed, h.sBufferArray]

theorem SameBox.shaped {x y : Session} (h : SameBox x y) : Shaped y frame ↔ Shaped x frame := by
  have hboxed : ∀ n, y.boxed n = x.boxed n := h.boxed
  have hentries : ∀ k n, y.entries k n = x.entries k n := fun k n => by
    rw [Session.entries, Session.entries, h.sBufferArray]
  unfold Shaped
  split <;> simp only [h.count, h.held, hboxed, hentries]

/-- A frame that may not write to the box relies on nothing, unless it has won the flag. -/
theorem shaped_of_occupying (h : frame.occupying = 0) :
    (∃ j, frame = .sendPost j .inc) ∨ ∀ x, Shaped x frame := by
  cases frame with
  | sendPost j pc =>
      cases pc with
      | inc => exact Or.inl ⟨j, rfl⟩
      | _ => exact Or.inr fun x => by trivial
  | sent j pc => simp [occupying, working, sending] at h
  | release j pc =>
      refine Or.inr fun x => ?_
      cases pc <;> trivial
  | accept j pc =>
      refine Or.inr fun x => ?_
      cases pc <;> trivial
  | _ => exact Or.inr fun _ => trivial

/-- A step of a frame at its slot. -/
theorem Boxed.at_slot (h : Boxed s i) (hsound : Sound cfg s) {t : Nat} {rest : List Frame}
    (hstack : s.threads[t]? = some (frame :: rest)) (hthreads : s'.threads = s.threads)
    (hslot : frame.slot = some i) (hnext : ∀ next ∈ frames, next.slot = some i)
    {y : Session} (hy : s'.sessionArray i = y)
    (hbox : SameBox (s.sessionArray i) y ∨ frame.occupying = 1 ∧
      (frame.sending = 1 ∨ y.count = (s.sessionArray i).count ∨ y.count = 0))
    (hshaped : ∀ next ∈ frames, Shaped y next)
    (htoken : s.tally sending i + (frames.map sending).sum + y.io.countP Io.send ≤
      (if y.sendFlag then 1 else 0) + frame.sending)
    (hidle : y.sendFlag = false → y.count = 0)
    (hwhole : ∀ io ∈ y.io, io.send = true → io.buffers = y.boxed y.count)
    (hbased : s.tally staging i + (frames.map staging).sum = frame.staging →
      y.held.Perm (y.boxed y.count))
    (hclean : y.live = 0 → s.tally dirty i + (frames.map dirty).sum = frame.dirty →
      y.count = 0 ∧ y.sendQ = [])
    (hconserved : (y.sendQ ++ y.held ++ y.dropped).Perm (List.range y.enqueued)) :
    Boxed (s'.start t (frames ++ rest)) i := by
  subst hy
  have htally : ∀ w : Frame → Nat, (s'.start t (frames ++ rest)).tally w i + w frame =
      s.tally w i + (frames.map w).sum := by
    intro w
    have := tally_run frames hstack hthreads w i
    rwa [sum_weightAt hnext, if_pos rfl, weightAt, if_pos hslot] at this
  have hsending := htally sending
  have hstaging := htally staging
  have hdirty := htally dirty
  constructor
  · show _ + (s'.sessionArray i).io.countP Io.send ≤ if (s'.sessionArray i).sendFlag then 1 else 0
    omega
  · exact hidle
  · exact hwhole
  · intro other hother hother_slot
    have hother : Present (s.threads.set t (frames ++ rest)) other := by
      rw [← hthreads]
      exact hother
    show Shaped (s'.sessionArray i) other
    rcases Present.of_set_cons hstack hother with hnew | ⟨hold, hbeside⟩
    · exact hshaped other hnew
    · have hkept := h.shaped other hold hother_slot
      have hbeside : ∀ w : Frame → Nat, w frame + w other ≤ s.tally w i := by
        intro w
        have := hbeside (weightAt w i)
        rwa [weightAt, weightAt, if_pos hslot, if_pos hother_slot] at this
      rcases hbox with hsame | ⟨hoccupying, hcount⟩
      · exact hsame.shaped.mpr hkept
      · have hone := h.occupied hsound
        have := hbeside occupying
        have hother : other.occupying = 0 := by omega
        rcases shaped_of_occupying hother with ⟨j, rfl⟩ | hnothing
        · have hzero : (s.sessionArray i).count = 0 := hkept
          show (s'.sessionArray i).count = 0
          rcases hcount with hflag | hcount | hcount
          · have hboth : frame.sending + 1 ≤ s.tally sending i := hbeside sending
            have := h.token_le_one
            omega
          · rw [hcount, hzero]
          · exact hcount
        · exact hnothing _
  · intro hzero
    exact hbased (by omega)
  · intro hlive hzero
    exact hclean hlive (by omega)
  · exact hconserved

/-! ## Steps that do not -/

/-- The fields the sends depend on are the same; a send may have completed. -/
structure SameSend (x y : Session) : Prop extends SameBox x y where
  sendFlag : y.sendFlag = x.sendFlag
  sendQ : y.sendQ = x.sendQ
  dropped : y.dropped = x.dropped
  enqueued : y.enqueued = x.enqueued
  live : y.live = x.live
  sends : y.io.countP Io.send ≤ x.io.countP Io.send
  buffers : ∀ io ∈ y.io, io.send = true → ∃ old ∈ x.io, old.send = true ∧ io.buffers = old.buffers

theorem SameSend.of_io {x y : Session} (hbox : SameBox x y) (hflag : y.sendFlag = x.sendFlag)
    (hqueue : y.sendQ = x.sendQ) (hdropped : y.dropped = x.dropped)
    (henqueued : y.enqueued = x.enqueued) (hlive : y.live = x.live) (hio : y.io = x.io) :
    SameSend x y where
  toSameBox := hbox
  sendFlag := hflag
  sendQ := hqueue
  dropped := hdropped
  enqueued := henqueued
  live := hlive
  sends := by rw [hio]
  buffers := by
    rw [hio]
    exact fun io hmem hsend => ⟨io, hmem, hsend, rfl⟩

theorem SameSend.refl (x : Session) : SameSend x x :=
  .of_io ⟨rfl, rfl, rfl⟩ rfl rfl rfl rfl rfl rfl

/-- A write to other fields. -/
theorem ContentsServer.modify_sameSend (s : ContentsServer) (i : Nat) {write : Session → Session}
    (h : ∀ x, SameSend x (write x)) (j : Nat) :
    SameSend (s.sessionArray j) ((s.modify i write).sessionArray j) := by
  by_cases hij : j = i
  · subst hij
    rw [modify_self]
    exact h _
  · rw [s.modify_of_ne hij]
    exact .refl _

/-- A step that writes nothing the sends of the slot depend on. -/
theorem Boxed.same (h : Boxed s i) (hsame : SameSend (s.sessionArray i) (s'.sessionArray i))
    (hsending : s'.tally sending i = s.tally sending i)
    (hstaging : s'.tally staging i = s.tally staging i)
    (hdirty : s'.tally dirty i = s.tally dirty i)
    (hpresent : ∀ other, Present s'.threads other → other.slot = some i →
      Present s.threads other ∨ ∀ x, Shaped x other) : Boxed s' i where
  token := by
    have := h.token
    have := hsame.sends
    rw [hsending, hsame.sendFlag]
    omega
  idle := by
    rw [hsame.sendFlag, hsame.count]
    exact h.idle
  whole := by
    intro io hmem hsend
    obtain ⟨old, hold, holdSend, hbuffers⟩ := hsame.buffers io hmem hsend
    rw [hbuffers, hsame.boxed, hsame.count]
    exact h.whole old hold holdSend
  shaped := by
    intro other hother hslot
    rcases hpresent other hother hslot with hold | hnothing
    · exact hsame.shaped.mpr (h.shaped other hold hslot)
    · exact hnothing _
  based := by
    rw [hstaging, hsame.held, hsame.boxed, hsame.count]
    exact h.based
  clean := by
    rw [hsame.live, hdirty, hsame.count, hsame.sendQ]
    exact h.clean
  conserved := by
    rw [hsame.sendQ, hsame.held, hsame.dropped, hsame.enqueued]
    exact h.conserved

/-- A step of a plain frame leaves frames that rely on nothing. -/
theorem Next.light {next : Frame} (h : Next s frame next) (hplain : frame.plain = true) :
    next.light = true := by
  cases h <;> first | rfl | contradiction

theorem SameSend.postRecv (x : Session) (pending : Bool) :
    SameSend x { x with io := ⟨false, [], pending, false⟩ :: x.io } where
  sBufferArray := rfl
  count := rfl
  held := rfl
  sendFlag := rfl
  sendQ := rfl
  dropped := rfl
  enqueued := rfl
  live := rfl
  sends := by simp
  buffers := by
    intro io hmem hsend
    rcases List.mem_cons.mp hmem with rfl | hold
    · simp at hsend
    · exact ⟨io, hold, hsend, rfl⟩

theorem SameSend.cancelled (x : Session) :
    SameSend x { x with io := x.io.map fun io => { io with cancelled := true } } where
  sBufferArray := rfl
  count := rfl
  held := rfl
  sendFlag := rfl
  sendQ := rfl
  dropped := rfl
  enqueued := rfl
  live := rfl
  sends := by
    rw [List.countP_map]
    exact Nat.le_refl _
  buffers := by
    intro io hmem hsend
    obtain ⟨old, hold, rfl⟩ := List.mem_map.mp hmem
    exact ⟨old, hold, hsend, rfl⟩

/-- A step of a plain frame writes nothing the sends of a slot depend on. -/
theorem plain_sameSend (hplain : frame.plain = true) (now : UInt64) (outcome : Outcome) (j : Nat) :
    SameSend (s.sessionArray j) ((s.runFrame cfg now outcome frame).1.sessionArray j) := by
  obtain ⟨write, hupdated⟩ := runFrame_updated cfg s now outcome frame
  refine hupdated.rel SameSend .refl ?_ j
  cases hupdated.wrote <;> first
    | contradiction
    | exact .cancelled
    | exact fun x => .postRecv x _
    | exact fun _ => .of_io ⟨rfl, rfl, rfl⟩ rfl rfl rfl rfl rfl rfl

end SessionServer.ContentLib
