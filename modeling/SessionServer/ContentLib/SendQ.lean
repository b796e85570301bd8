/-
  ContentLib/SendQ.lean --- what `_size` of a send queue counts.

  `Enqueue` links its node before it counts it, and `Dequeue` counts before it unlinks or
  finds nothing.  `_size` falls short of the nodes linked by the frames that are between
  the two, so it can be 0 or less while nodes wait.
-/
import SessionServer.ContentLib.Slots

set_option autoImplicit false

namespace SessionServer.ContentLib

open SessionServer.Foundation

namespace Frame

/-- The frame is inside `Enqueue` or `Dequeue`, between a node and its count. -/
def counting : Frame → Nat
  | sendPacket _ .size => 1
  | sendPost _ (.take _) => 1
  | sendPost _ (.restore _) => 1
  | release _ .clearTake => 1
  | release _ .clearRestore => 1
  | accept _ .clearTake => 1
  | accept _ .clearRestore => 1
  | _ => 0

/-- The frame is inside an operation of the queue. -/
def queues : Frame → Bool
  | sendPacket _ .enqueue => true
  | sendPost _ (.dequeue _) => true
  | release _ .clear => true
  | accept _ .clear => true
  | frame => frame.counting == 1

end Frame

open ContentLib.Frame

/-- The queue is the same. -/
structure SameQueue (x y : Session) : Prop where
  sendQ : y.sendQ = x.sendQ
  size : y.size = x.size

theorem SameQueue.refl (x : Session) : SameQueue x x := ⟨rfl, rfl⟩

/-- **What `_size` counts.** -/
def Sized (s : ContentsServer) (i : Nat) : Prop :=
  (s.sessionArray i).size + s.tally counting i = (s.sessionArray i).sendQ.length

theorem sized_started (cfg : Config) (others i : Nat) : Sized (startedServer cfg others) i := by
  simp [Sized, ContentsServer.tally, startedServer, total, emptySession]

variable {cfg : Config} {s s' : ContentsServer} {frame : Frame} {frames : List Frame}
  {i t : Nat} {rest : List Frame}

/-- A step outside the operations of the queue leaves it alone. -/
theorem unqueued_sameQueue (cfg : Config) (s : ContentsServer) (hqueues : frame.queues = false)
    (now : UInt64) (outcome : Outcome) (j : Nat) :
    SameQueue (s.sessionArray j) ((s.runFrame cfg now outcome frame).1.sessionArray j) := by
  obtain ⟨write, hupdated⟩ := runFrame_updated cfg s now outcome frame
  refine hupdated.rel SameQueue .refl ?_ j
  cases hupdated.wrote <;> first | contradiction | exact fun _ => ⟨rfl, rfl⟩

/-- Nor does it end inside one. -/
theorem Next.unqueued {next : Frame} (h : Next s frame next) (hqueues : frame.queues = false) :
    next.counting = 0 := by
  cases h <;> first | rfl | contradiction

/-- A step of a frame at the slot. -/
theorem Sized.at_slot (h : Sized s i) (hstack : s.threads[t]? = some (frame :: rest))
    (hthreads : s'.threads = s.threads) (hslot : frame.slot = some i)
    (hnext : ∀ next ∈ frames, next.slot = some i)
    (heq : (s'.sessionArray i).size + (frames.map counting).sum +
      (s.sessionArray i).sendQ.length =
        (s.sessionArray i).size + frame.counting + (s'.sessionArray i).sendQ.length) :
    Sized (s'.start t (frames ++ rest)) i := by
  have htally := tally_run_slot hstack hthreads hslot hnext counting i
  simp only [if_true] at htally
  simp only [Sized] at h ⊢
  show (s'.sessionArray i).size + _ = ((s'.sessionArray i).sendQ.length : Int)
  omega

/-- What a step of a frame does to the queue of its slot and to the frames inside the
operations of the queue. -/
theorem runFrame_counting (now : UInt64) (outcome : Outcome) (hqueues : frame.queues = true)
    (hslot : frame.slot = some i) :
    let out := s.runFrame cfg now outcome frame
    (out.1.sessionArray i).size + (out.2.map counting).sum + (s.sessionArray i).sendQ.length =
      (s.sessionArray i).size + frame.counting + (out.1.sessionArray i).sendQ.length := by
  have hsize : ∀ n : Int, ((s.addSize i n).sessionArray i).size = (s.sessionArray i).size + n ∧
      ((s.addSize i n).sessionArray i).sendQ = (s.sessionArray i).sendQ := fun n => by
    simp [ContentsServer.addSize]
  have hdequeued : ∀ (tag : Tag) (tags : List Tag),
      ((s.dequeued i tag tags).sessionArray i).size = (s.sessionArray i).size ∧
      ((s.dequeued i tag tags).sessionArray i).sendQ = tags := fun tag tags => by
    simp [ContentsServer.dequeued]
  cases frame with
  | sendPacket id pc =>
      obtain rfl : findSession id = i := Option.some.inj hslot
      cases pc with
      | enqueue =>
          simp only [ContentsServer.runFrame, ContentsServer.sendPacketStep]
          split
          · simp [counting]
          · simp only [ContentsServer.modify_self, List.map_cons, List.map_nil, counting,
              List.length_append, List.length_cons, List.length_nil]
            simp
            omega
      | size =>
          simp only [ContentsServer.runFrame, ContentsServer.sendPacketStep, hsize]
          simp [counting]
      | _ => contradiction
  | sendPost j pc =>
      obtain rfl : j = i := Option.some.inj hslot
      cases pc with
      | dequeue k =>
          simp only [ContentsServer.runFrame, ContentsServer.sendPostStep]
          split
          · simp only [hsize]
            split <;> simp [counting]
          · simp [counting]
      | take k =>
          simp only [ContentsServer.runFrame, ContentsServer.sendPostStep]
          split
          · simp [counting]
          · rename_i hqueue
            simp [ContentsServer.dequeued, counting, hqueue]
            omega
      | restore k =>
          simp only [ContentsServer.runFrame, ContentsServer.sendPostStep, hsize]
          simp [counting]
      | _ => contradiction
  | release j pc =>
      obtain rfl : j = i := Option.some.inj hslot
      cases pc with
      | clear =>
          simp only [ContentsServer.runFrame, ContentsServer.releaseStep, hsize]
          split <;> simp [counting]
      | clearTake =>
          simp only [ContentsServer.runFrame, ContentsServer.releaseStep]
          split
          · simp [counting]
          · rename_i hqueue
            simp [hdequeued, counting, hqueue]
            omega
      | clearRestore =>
          simp only [ContentsServer.runFrame, ContentsServer.releaseStep, hsize]
          simp [counting]
      | _ => contradiction
  | accept j pc =>
      obtain rfl : j = i := Option.some.inj hslot
      cases pc with
      | clear =>
          simp only [ContentsServer.runFrame, ContentsServer.acceptStep, hsize]
          split <;> simp [counting]
      | clearTake =>
          simp only [ContentsServer.runFrame, ContentsServer.acceptStep]
          split
          · simp [counting]
          · rename_i hqueue
            simp [hdequeued, counting, hqueue]
            omega
      | clearRestore =>
          simp only [ContentsServer.runFrame, ContentsServer.acceptStep, hsize]
          simp [counting]
      | _ => contradiction
  | _ => contradiction

/-- A step of a frame keeps the count. -/
theorem Sized.run (h : Sized s i) (hstack : s.threads[t]? = some (frame :: rest)) (now : UInt64)
    (outcome : Outcome) :
    Sized ((s.runFrame cfg now outcome frame).1.start t
      ((s.runFrame cfg now outcome frame).2 ++ rest)) i := by
  have hran : Ran cfg s frame _ _ := runFrame_ran now outcome frame
  have hthreads := hran.threads
  obtain ⟨write, hupdated⟩ := runFrame_updated cfg s now outcome frame
  by_cases hslot : frame.slot = some i
  · have hnext : ∀ next ∈ (s.runFrame cfg now outcome frame).2, next.slot = some i :=
      runFrame_slot hslot
    refine h.at_slot hstack hthreads hslot hnext ?_
    cases hqueues : frame.queues with
    | true => exact runFrame_counting now outcome hqueues hslot
    | false =>
        have hsame := unqueued_sameQueue cfg s hqueues now outcome i
        have hframe : frame.counting = 0 := by
          cases frame <;> first | rfl | (rename_i pc; cases pc <;> first | rfl | contradiction)
        rw [hsame.size, hsame.sendQ, hframe,
          sum_map_zero fun next hn => (runFrame_next hn).unqueued hqueues]
  · have hsame : (s.runFrame cfg now outcome frame).1.sessionArray i = s.sessionArray i :=
      hupdated.there i hslot
    have hnext : ∀ next ∈ (s.runFrame cfg now outcome frame).2, weightAt counting i next = 0 := by
      intro next hn
      have hnext := runFrame_next hn
      unfold weightAt
      split
      · rename_i hat
        by_cases hnone : frame.slot = none
        · exact hnext.unqueued (by cases frame <;> first | rfl | simp [slot] at hnone)
        · exact absurd ((hnext.slot_eq hnone).symm.trans hat) hslot
      · rfl
    have htally := tally_run (s.runFrame cfg now outcome frame).2 hstack hthreads counting i
    rw [sum_map_zero hnext, weightAt, if_neg hslot, Nat.add_zero, Nat.add_zero] at htally
    simp only [Sized, htally, ContentsServer.start_sessionArray, hsame]
    exact h

/-- **A step of the server keeps the count of every queue.** -/
theorem Sized.step {step : Step} (h : Sized s i) (hstep : Served cfg s step s') : Sized s' i := by
  have hstart : ∀ {u : ContentsServer} {t : Nat} {stack : List Frame} (first : Frame),
      s.threads[t]? = some stack → u.threads = s.threads → first.counting = 0 →
      SameQueue (s.sessionArray i) (u.sessionArray i) → Sized (u.start t (first :: stack)) i := by
    intro u t stack first hstack hthreads hfirst hsame
    have htally := tally_start_zero hstack hthreads hfirst i
    simp only [Sized, htally, ContentsServer.start_sessionArray, hsame.size, hsame.sendQ]
    exact h
  cases hstep with
  | run t now outcome frame rest hstack => exact h.run hstack now outcome
  | accept hstack => exact hstart .pop hstack rfl rfl (.refl _)
  | take t n message hstack hmessage =>
      cases message <;> exact hstart _ hstack rfl rfl (.refl _)
  | complete t j n io success hstack hio =>
      refine hstart _ hstack rfl ?_ ⟨?_, ?_⟩
      · exact completionFrame_cases j io success rfl rfl rfl
      · exact s.modify_field Session.sendQ j (fun _ => by rfl) i
      · exact s.modify_field Session.size j (fun _ => by rfl) i
  | call t call stack hissued hstack => cases call <;> exact hstart _ hstack rfl rfl (.refl _)
  | kick t j rest hstack => exact hstart _ hstack rfl rfl (.refl _)
  | sweep regular now hstack => exact hstart _ hstack rfl rfl (.refl _)

/-! ## The owner of a slot -/

/-- Inside an operation of the queue, a frame owns its slot or counts in `_ioCount`. -/
theorem counting_or (frame : Frame) :
    frame.counting = 0 ∨ frame.owns = 1 ∨ frame.confirmed = true := by
  cases frame with
  | sendPacket id pc => cases pc <;> first | exact Or.inl rfl | exact Or.inr (Or.inr rfl)
  | sendPost i pc => cases pc <;> first | exact Or.inl rfl | exact Or.inr (Or.inr rfl)
  | release i pc => cases pc <;> first | exact Or.inl rfl | exact Or.inr (Or.inl rfl)
  | accept i pc => cases pc <;> first | exact Or.inl rfl | exact Or.inr (Or.inl rfl)
  | _ => exact Or.inl rfl

/-- Nothing is outstanding on a slot that is not live. -/
theorem Sound.io_nil (h : Sound cfg s) (hlive : (s.sessionArray i).live = 0) :
    (s.sessionArray i).io = [] := by
  by_contra hio
  have := h.posted i hio
  omega

/-- To a frame that owns the slot, `_size` is off by its own operation only. -/
theorem Sized.of_owner (h : Sized s i) (hsound : Sound cfg s)
    (hstack : s.threads[t]? = some (frame :: rest)) (hslot : frame.slot = some i)
    (howns : frame.owns = 1) :
    (s.sessionArray i).size + frame.counting = (s.sessionArray i).sendQ.length := by
  have hpresent : Present s.threads frame := present_of_getElem? hstack (by simp)
  obtain ⟨_, hone, hlive, _⟩ := hsound.owner hpresent howns hslot
  have hle : ∀ other : Frame, other.counting * other.owns ≤ 1 * other.owns := by
    intro other
    have hcounting : other.counting ≤ 1 := by
      unfold counting
      split <;> omega
    exact Nat.mul_le_mul_right _ hcounting
  have htally : s.tally counting i = s.tally (fun other => other.counting * other.owns) i := by
    refine total_congr fun other hother => ?_
    simp only [weightAt]
    split
    · rename_i hat
      rcases counting_or other with hzero | hone' | hconfirmed
      · rw [hzero, Nat.zero_mul]
      · rw [hone', Nat.mul_one]
      · have := hsound.live_of_confirmed hother hconfirmed hat
        omega
    · rfl
  have hall := tally_of_owner hle hstack hslot (by rw [hone, howns])
  rw [howns, Nat.mul_one] at hall
  rw [Sized, htally, hall] at h
  exact h

end SessionServer.ContentLib
