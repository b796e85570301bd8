/-
  ContentLib/Reclaim.lean --- every slot comes back.

  Whoever counts `_ioCount` down to 0 has the slot released, by a message or a call, and a
  `Release` whose compare-exchange fails has met a reference that is still to be counted
  down.  So a live slot that nobody refers to has its release on the way, and a slot at
  rest is free or its session has I/O outstanding.
-/
import SessionServer.ContentLib.SlotRun

set_option autoImplicit false

namespace SessionServer.ContentLib

open SessionServer.Foundation ContentLib.Frame

/-! ## Releases on the way -/

/-- The frame leads to the compare-exchange of `Release`, or to a message that does. -/
def Frame.ending : Frame → Nat
  | dead _ _ => 1
  | postRelease _ => 1
  | release _ .cas => 1
  | _ => 0

/-- The step of the frame counts a reference down, or ends or begins a life of the slot. -/
def Frame.turning : Frame → Bool
  | drop _ _ => true
  | release _ .cas => true
  | accept _ .and => true
  | _ => false

/-- The release of a live slot without references is on the way. -/
def Reclaiming (s : ContentsServer) (i : Nat) : Prop :=
  (s.sessionArray i).live = 1 → (s.sessionArray i).ioCount = 0 →
    0 < s.tally ending i + s.queue.count (.release i)

theorem reclaiming_started (cfg : Config) (others i : Nat) :
    Reclaiming (startedServer cfg others) i := by
  intro hlive
  simp [startedServer, emptySession, Session.live] at hlive

variable {cfg : Config} {s s' : ContentsServer} {frame : Frame} {frames : List Frame}
  {i t : Nat} {rest : List Frame}

/-- A step that takes no release back, opens no slot and drops no reference. -/
theorem Reclaiming.of_le (h : Reclaiming s i)
    (hlive : (s'.sessionArray i).live = (s.sessionArray i).live)
    (hcount : (s.sessionArray i).ioCount ≤ (s'.sessionArray i).ioCount)
    (hle : s.tally ending i + s.queue.count (.release i) ≤
      s'.tally ending i + s'.queue.count (.release i)) : Reclaiming s' i := by
  intro hlive' hzero
  have hpos := h (hlive.symm.trans hlive') (by omega)
  omega

/-! ## Steps -/

theorem Wrote.refers {write : Session → Session} (h : Wrote frame write)
    (hturning : frame.turning = false) (x : Session) :
    (write x).live = x.live ∧ x.ioCount ≤ (write x).ioCount := by
  cases h with
  | increment => exact ⟨rfl, Nat.le_succ _⟩
  | _ => first | contradiction | exact ⟨rfl, Nat.le_refl _⟩

/-- A step of a frame takes no message. -/
theorem releases_kept (cfg : Config) (s : ContentsServer) (i : Nat) (frame : Frame) (now : UInt64)
    (outcome : Outcome) :
    s.queue.count (.release i) ≤
      (s.runFrame cfg now outcome frame).1.queue.count (.release i) := by
  rcases runFrame_queue cfg s now outcome frame with hsame | ⟨j, _, hposted⟩ | ⟨id, _, hposted⟩
  · rw [hsame]
  · rw [hposted, List.count_append]
    exact Nat.le_add_right _ _
  · rw [hposted, List.count_append]
    exact Nat.le_add_right _ _

/-- A release on the way is handed on. -/
theorem ending_kept (cfg : Config) (s : ContentsServer) (hslot : frame.slot = some i)
    (hturning : frame.turning = false) (now : UInt64) (outcome : Outcome) :
    frame.ending + s.queue.count (.release i) ≤
      ((s.runFrame cfg now outcome frame).2.map ending).sum +
        (s.runFrame cfg now outcome frame).1.queue.count (.release i) := by
  have hqueue := releases_kept cfg s i frame now outcome
  have hnone : frame.ending = 0 → frame.ending + s.queue.count (.release i) ≤
      ((s.runFrame cfg now outcome frame).2.map ending).sum +
        (s.runFrame cfg now outcome frame).1.queue.count (.release i) := by
    intro hzero
    omega
  cases frame with
  | dead j direct =>
      cases direct with
      | true => exact Nat.add_le_add_left hqueue 1
      | false => exact Nat.add_le_add_left hqueue 1
  | postRelease j =>
      obtain rfl : j = i := Option.some.inj hslot
      show 1 + _ ≤ 0 + (s.queue ++ [Message.release j]).count (.release j)
      rw [List.count_append, List.count_singleton_self]
      omega
  | release j pc =>
      cases pc with
      | cas => contradiction
      | _ => exact hnone rfl
  | _ => exact hnone rfl

/-- A step of a frame at another slot. -/
theorem Reclaiming.elsewhere (h : Reclaiming s i) (hstack : s.threads[t]? = some (frame :: rest))
    (hslot : frame.slot ≠ some i) (now : UInt64) (outcome : Outcome) :
    Reclaiming ((s.runFrame cfg now outcome frame).1.start t
      ((s.runFrame cfg now outcome frame).2 ++ rest)) i := by
  obtain ⟨write, hupdated⟩ := runFrame_updated cfg s now outcome frame
  have hran : Ran cfg s frame _ _ := runFrame_ran now outcome frame
  have hself := hupdated.there i hslot
  refine h.of_le ?_ ?_ ?_
  · rw [ContentsServer.start_sessionArray, hself]
  · rw [ContentsServer.start_sessionArray, hself]
  · have htally := tally_run (s.runFrame cfg now outcome frame).2 hstack hran.threads ending i
    rw [weightAt, if_neg hslot] at htally
    have hqueue := releases_kept cfg s i frame now outcome
    show _ ≤ _ + (s.runFrame cfg now outcome frame).1.queue.count (.release i)
    omega

/-- A step at the slot that neither drops a reference nor turns it over. -/
theorem Reclaiming.run (h : Reclaiming s i) (hstack : s.threads[t]? = some (frame :: rest))
    (hslot : frame.slot = some i) (hturning : frame.turning = false) (now : UInt64)
    (outcome : Outcome) :
    Reclaiming ((s.runFrame cfg now outcome frame).1.start t
      ((s.runFrame cfg now outcome frame).2 ++ rest)) i := by
  obtain ⟨write, hupdated⟩ := runFrame_updated cfg s now outcome frame
  have hran : Ran cfg s frame _ _ := runFrame_ran now outcome frame
  have hself := hupdated.here i hslot
  obtain ⟨hlive, hcount⟩ := hupdated.wrote.refers hturning (s.sessionArray i)
  refine h.of_le ?_ ?_ ?_
  · rw [ContentsServer.start_sessionArray, hself, hlive]
  · rw [ContentsServer.start_sessionArray, hself]
    exact hcount
  · have hnext : ∀ next ∈ (s.runFrame cfg now outcome frame).2, next.slot = some i :=
      runFrame_slot hslot
    have htally := tally_run_slot hstack hran.threads hslot hnext ending i
    rw [if_pos rfl, if_pos rfl] at htally
    have hkept := ending_kept cfg s hslot hturning now outcome
    show _ ≤ _ + (s.runFrame cfg now outcome frame).1.queue.count (.release i)
    omega

/-- A reference is dropped: the last one leaves a release behind. -/
theorem reclaiming_drop {direct : Bool} (hstack : s.threads[t]? = some (.drop i direct :: rest)) :
    Reclaiming ((s.decrement i).start t
      ((if (s.decrement i).isZero i then [.dead i direct] else []) ++ rest)) i := by
  intro hlive hzero
  have hlive : ((s.decrement i).sessionArray i).live = 1 := hlive
  have hzero : ((s.decrement i).sessionArray i).ioCount = 0 := hzero
  have hflag := (Session.live_eq_one.mp hlive).2
  have hisZero : (s.decrement i).isZero i = true := by
    simp [ContentsServer.isZero, hflag, hzero]
  rw [if_pos hisZero]
  have hthreads : (s.decrement i).threads = s.threads := rfl
  have htally := tally_run [.dead i direct] hstack hthreads ending i
  have hdead : ([Frame.dead i direct].map (weightAt ending i)).sum = 1 := by
    simp [weightAt, slot, ending]
  have hdrop : weightAt ending i (.drop i direct) = 0 := by simp [weightAt, ending]
  omega

/-- The compare-exchange fails only where somebody holds a reference. -/
theorem reclaiming_cas (t : Nat) (rest : List Frame) (now : UInt64) (outcome : Outcome) :
    Reclaiming ((s.runFrame cfg now outcome (.release i .cas)).1.start t
      ((s.runFrame cfg now outcome (.release i .cas)).2 ++ rest)) i := by
  intro hlive hzero
  rw [ContentsServer.start_sessionArray] at hlive hzero
  simp only [ContentsServer.runFrame, ContentsServer.releaseStep] at hlive hzero
  split at hlive
  · rw [ContentsServer.record_sessionArray, ContentsServer.modify_self] at hlive
    simp [Session.live] at hlive
  · rename_i hnot
    rw [if_neg hnot] at hzero
    have hflag : (s.sessionArray i).releaseFlag = false := (Session.live_eq_one.mp hlive).2
    have hcount : (s.sessionArray i).ioCount = 0 := hzero
    exact absurd (by simp [ContentsServer.isZero, hflag, hcount]) hnot

/-- The slot is opened by somebody who holds a reference. -/
theorem reclaiming_arm (hsound : Sound cfg s)
    (hstack : s.threads[t]? = some (.accept i .and :: rest)) (now : UInt64) (outcome : Outcome) :
    Reclaiming ((s.runFrame cfg now outcome (.accept i .and)).1.start t
      ((s.runFrame cfg now outcome (.accept i .and)).2 ++ rest)) i := by
  intro _ hzero
  have hpresent : Present s.threads (.accept i .and) := present_of_getElem? hstack (by simp)
  have haccount := hsound.account i
  have hle : 1 ≤ s.tally holds i := le_tally hpresent rfl holds
  rw [ContentsServer.start_sessionArray, ContentsServer.runFrame, ContentsServer.acceptStep,
    ContentsServer.modify_self] at hzero
  have hcount : (s.sessionArray i).ioCount = 0 := hzero
  omega

/-- A function starts; what it takes off the queue it leads to itself. -/
theorem Reclaiming.start (h : Reclaiming s i) {first : Frame} {stack : List Frame}
    (hstack : s.threads[t]? = some stack) (hthreads : s'.threads = s.threads)
    (hself : ∃ io, io.Sublist (s.sessionArray i).io ∧
      s'.sessionArray i = { s.sessionArray i with io := io })
    (hqueue : s.queue.count (.release i) ≤
      weightAt ending i first + s'.queue.count (.release i)) :
    Reclaiming (s'.start t (first :: stack)) i := by
  obtain ⟨io, _, heq⟩ := hself
  refine h.of_le ?_ ?_ ?_
  · rw [ContentsServer.start_sessionArray, heq]
    rfl
  · rw [ContentsServer.start_sessionArray, heq]
  · have htally := tally_start s' [first] hstack hthreads ending i
    have hfirst : ([first].map (weightAt ending i)).sum = weightAt ending i first := by simp
    show _ ≤ (s'.start t ([first] ++ stack)).tally ending i + s'.queue.count (.release i)
    omega

/-- **A release on the way is not forgotten.** -/
theorem Reclaiming.step {step : Step} (h : Reclaiming s i) (hsound : Sound cfg s)
    (hserved : Served cfg s step s') : Reclaiming s' i := by
  have hsame : ∃ io, io.Sublist (s.sessionArray i).io ∧
      s.sessionArray i = { s.sessionArray i with io := io } := ⟨_, List.Sublist.refl _, rfl⟩
  cases hserved with
  | run t now outcome frame rest hstack =>
      by_cases hslot : frame.slot = some i
      · cases hturning : frame.turning with
        | false => exact h.run hstack hslot hturning now outcome
        | true =>
            cases frame with
            | drop j direct =>
                obtain rfl : j = i := Option.some.inj hslot
                exact reclaiming_drop hstack
            | release j pc =>
                obtain rfl : j = i := Option.some.inj hslot
                cases pc with
                | cas => exact reclaiming_cas t rest now outcome
                | _ => contradiction
            | accept j pc =>
                obtain rfl : j = i := Option.some.inj hslot
                cases pc with
                | and => exact reclaiming_arm hsound hstack now outcome
                | _ => contradiction
            | _ => contradiction
      · exact h.elsewhere hstack hslot now outcome
  | accept hstack => exact h.start hstack rfl hsame (Nat.le_add_left _ _)
  | take t n message hstack hmessage =>
      refine h.start hstack rfl hsame ?_
      obtain ⟨hn, rfl⟩ := List.getElem?_eq_some_iff.mp hmessage
      have hcount := (List.getElem_cons_eraseIdx_perm hn).count_eq (.release i)
      rw [List.count_cons] at hcount
      -- The message of this slot is the one whose frame leads to its compare-exchange.
      have hframe : (if s.queue[n] == .release i then 1 else 0) ≤
          weightAt ending i s.queue[n].frame := by
        cases hmessage : s.queue[n] with
        | release j =>
            by_cases hij : j = i
            · simp [hij, Message.frame, weightAt, slot, ending]
            · simp [hij]
        | sendPost j => simp
      show _ ≤ _ + (s.queue.eraseIdx n).count (.release i)
      omega
  | complete t j n io success hstack hio =>
      exact h.start hstack rfl (eraseIo_session s i j n) (Nat.le_add_left _ _)
  | call t call stack hissued hstack htop => exact h.start hstack rfl hsame (Nat.le_add_left _ _)
  | kick t j rest hstack => exact h.start hstack rfl hsame (Nat.le_add_left _ _)
  | sweep regular now hstack => exact h.start hstack rfl hsame (Nat.le_add_left _ _)

/-! ## At rest -/

/-- Nothing is under way at a slot: no call, and no release in the IOCP queue. -/
structure Rests (s : ContentsServer) (i : Nat) : Prop where
  frames : ∀ frame, Present s.threads frame → frame.slot ≠ some i
  queue : Message.release i ∉ s.queue

theorem Rests.tally (h : Rests s i) (w : Frame → Nat) : s.tally w i = 0 := by
  refine total_eq_zero fun frame hpresent => ?_
  rw [weightAt, if_neg (h.frames frame hpresent)]

/-- A live slot at rest has I/O outstanding. -/
theorem Reclaiming.live (h : Reclaiming s i) (hsound : Sound cfg s) (hrests : Rests s i)
    (hlive : (s.sessionArray i).live = 1) :
    (s.sessionArray i).io ≠ [] ∧ (s.sessionArray i).ioCount = (s.sessionArray i).io.length := by
  have haccount := hsound.account i
  rw [hrests.tally, Nat.add_zero] at haccount
  refine ⟨fun hnil => ?_, haccount⟩
  rw [hnil] at haccount
  have hpos := h hlive haccount
  rw [hrests.tally, List.count_eq_zero.mpr hrests.queue] at hpos
  exact Nat.lt_irrefl 0 hpos

/-- A slot at rest that is not live is free. -/
theorem Rests.free (h : Rests s i) (hsound : Sound cfg s) (hlive : (s.sessionArray i).live = 0) :
    s.indexArray.count i = if i < cfg.maxUser then 1 else 0 := by
  have htoken := hsound.token i
  rwa [h.tally, hlive] at htoken

/-- A slot at rest is free, or its session has I/O outstanding. -/
theorem Reclaiming.free_or_live (h : Reclaiming s i) (hsound : Sound cfg s) (hrests : Rests s i)
    (hi : i < cfg.maxUser) : i ∈ s.indexArray ∨
      ((s.sessionArray i).io ≠ [] ∧ (s.sessionArray i).ioCount = (s.sessionArray i).io.length) := by
  rcases Nat.le_one_iff_eq_zero_or_eq_one.mp (s.sessionArray i).live_le_one with hlive | hlive
  · have hcount := hrests.free hsound hlive
    rw [if_pos hi] at hcount
    exact Or.inl (List.count_pos_iff.mp (by omega))
  · exact Or.inr (h.live hsound hrests hlive)

/-- A slot at rest without I/O is not live. -/
theorem Reclaiming.not_live (h : Reclaiming s i) (hsound : Sound cfg s) (hrests : Rests s i)
    (hio : i < cfg.maxUser → (s.sessionArray i).io = []) : (s.sessionArray i).live = 0 := by
  by_contra hnot
  have hlive : (s.sessionArray i).live = 1 := by
    have hle := (s.sessionArray i).live_le_one
    omega
  have hi : i < cfg.maxUser := by
    by_contra hout
    have htoken := hsound.token i
    rw [if_neg hout] at htoken
    omega
  exact (h.live hsound hrests hlive).1 (hio hi)

/-- Where no session is live, the stack holds every index once. -/
theorem Sound.all_free (hsound : Sound cfg s) (hrests : ∀ i, Rests s i)
    (hlive : ∀ i, (s.sessionArray i).live = 0) : s.indexArray.Perm (List.range cfg.maxUser) := by
  apply List.perm_iff_count.mpr
  intro i
  rw [(hrests i).free hsound (hlive i), List.nodup_range.count]
  simp only [List.mem_range]

/-- Where no session is live, none is in use. -/
theorem Lives.nobody (h : Lives s) (hrests : ∀ i, Rests s i)
    (hlive : ∀ i, (s.sessionArray i).live = 0) : s.sessionCount = 0 := by
  have hcounted : total counted s.threads = 0 := by
    refine total_eq_zero fun frame hpresent => ?_
    cases hat : frame.slot with
    | none => cases frame <;> first | rfl | simp [slot] at hat
    | some i => exact absurd hat ((hrests i).frames frame hpresent)
  have hnone : s.unreleased = [] := by
    rw [List.eq_nil_iff_forall_not_mem]
    intro id hid
    have hone := h.mem_unreleased.mp hid
    have hsome : s.history id ≠ [] := by simp [hone]
    have hcurrent := h.current id.index (h.fresh id hsome).1
    have hin_use := h.in_use hsome (by simp [hone, lifeCycle])
    rw [← hin_use, hone, (hrests _).tally, (hrests _).tally, hlive] at hcurrent
    simp only [List.length_singleton] at hcurrent
    omega
  rw [h.sessionCount_eq, hnone, hcounted]
  rfl

/-- **No slot is leaked.**  In every run, a slot at which nothing is under way is free, or its
session has I/O outstanding, one reference for each; and where nothing is under way or outstanding
at any slot, the stack holds every index once and no session is counted. -/
theorem slots_reclaimed (cfg : Config) (others : Nat) (steps : List Step) (s : ContentsServer)
    (hsweeps : Along (serverStep cfg) (SweepsAccepted cfg) (startedServer cfg others) steps)
    (hrun : exec (serverStep cfg) (startedServer cfg others) steps = some s) :
    (∀ i < cfg.maxUser, Rests s i → i ∈ s.indexArray ∨
      ((s.sessionArray i).io ≠ [] ∧ (s.sessionArray i).ioCount = (s.sessionArray i).io.length)) ∧
    ((∀ i, Rests s i) → (∀ i < cfg.maxUser, (s.sessionArray i).io = []) →
      s.indexArray.Perm (List.range cfg.maxUser) ∧ s.sessionCount = 0) := by
  have hinv : (Sound cfg s ∧ Lives s) ∧ ∀ i, Reclaiming s i := by
    refine exec_invariant_along (I := fun s => (Sound cfg s ∧ Lives s) ∧ ∀ i, Reclaiming s i)
      ?_ ⟨⟨sound_started cfg others, lives_started cfg others⟩, reclaiming_started cfg others⟩
      hsweeps hrun
    rintro s step s' ⟨⟨hsound, hlives⟩, hreclaiming⟩ hswept hstep
    have hserved := serverStep_served hstep
    exact ⟨⟨hsound.step hswept hserved, hlives.step hsound hserved⟩,
      fun i => (hreclaiming i).step hsound hserved⟩
  obtain ⟨⟨hsound, hlives⟩, hreclaiming⟩ := hinv
  refine ⟨fun i hi hrests => (hreclaiming i).free_or_live hsound hrests hi, fun hrests hio => ?_⟩
  have hlive : ∀ i, (s.sessionArray i).live = 0 :=
    fun i => (hreclaiming i).not_live hsound (hrests i) (hio i)
  exact ⟨hsound.all_free hrests hlive, hlives.nobody hrests hlive⟩

theorem oneLife_reclaimed :
    ∃ s, exec (serverStep oneSlot) (startedServer oneSlot 1) oneLife = some s ∧
      s.indexArray.Perm (List.range 1) ∧ s.sessionCount = 0 := by
  have hrun : Along (serverStep oneSlot) (SweepsAccepted oneSlot) (startedServer oneSlot 1)
        oneLife ∧
      (exec (serverStep oneSlot) (startedServer oneSlot 1) oneLife).map
        (fun s => (s.threads, s.queue, (s.sessionArray 0).io)) = some ([[], [], []], [], []) := by
    decide +kernel
  obtain ⟨s, hs, heq⟩ := Option.map_eq_some_iff.mp hrun.2
  simp only [Prod.mk.injEq] at heq
  obtain ⟨hthreads, hqueue, hio⟩ := heq
  have hrests : ∀ i, Rests s i := by
    refine fun i => ⟨fun frame hpresent => ?_, by simp [hqueue]⟩
    obtain ⟨stack, hstack, hframe⟩ := hpresent
    simp only [hthreads, List.mem_cons, List.not_mem_nil, or_false, or_self] at hstack
    simp [hstack] at hframe
  refine ⟨s, hs, (slots_reclaimed oneSlot 1 oneLife s hrun.1 hs).2 hrests fun i hi => ?_⟩
  obtain rfl : i = 0 := Nat.lt_one_iff.mp hi
  exact hio

end SessionServer.ContentLib
