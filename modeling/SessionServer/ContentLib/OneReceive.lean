/-
  ContentLib/OneReceive.lean --- a session listens once.

  `AcceptThread` posts the first receive of a session, and the worker that takes a completed
  receive posts the next one behind `RecvCompletion`.  Whoever may post a receive has the turn
  to listen, and a receive outstanding has it, so there is never a second one: `_recvQ` has no
  lock and needs none.
-/
import SessionServer.ContentLib.WakeRun

set_option autoImplicit false

namespace SessionServer.ContentLib

open SessionServer.Foundation ContentLib.Frame

/-! ## The turn to listen -/

/-- The frame has taken a receive, or the slot, and has not posted a receive since. -/
def Frame.listening : Frame → Nat
  | recv _ _ => 1
  | recvPost _ .dFlag => 1
  | recvPost _ .inc => 1
  | recvPost _ .wsaRecv => 1
  | accept _ _ => 1
  | _ => 0

/-- The receives outstanding on a slot. -/
def Session.receives (x : Session) : Nat := x.io.countP fun io => !io.send

/-- Everybody who may post a receive, and the receives outstanding. -/
def ContentsServer.turns (s : ContentsServer) (i : Nat) : Nat :=
  s.tally listening i + (s.sessionArray i).receives

variable {cfg : Config} {s s' : ContentsServer} {frame : Frame} {i t : Nat} {rest : List Frame}

theorem receives_cancelled (x : Session) :
    ({ x with io := x.io.map fun io => { io with cancelled := true } } : Session).receives =
      x.receives := by
  simp only [Session.receives, List.countP_map]
  rfl

theorem receives_erased {x : Session} {n : Nat} {io : Io} (h : x.io[n]? = some io) :
    ({ x with io := x.io.eraseIdx n } : Session).receives + (if io.send then 0 else 1) =
      x.receives := by
  have hcount := countP_eraseIdx (fun io : Io => !io.send) h
  cases hsend : io.send with
  | false => simpa [Session.receives, hsend] using hcount
  | true => simpa [Session.receives, hsend] using hcount

theorem turns_started (cfg : Config) (others i : Nat) : (startedServer cfg others).turns i = 0 := by
  have htally : (startedServer cfg others).tally listening i = 0 := total_replicate_nil _
  rw [ContentsServer.turns, htally]
  rfl

theorem owns_or_confirmed (h : frame.listening ≠ 0) :
    frame.owns = 1 ∨ frame.confirmed = true := by
  cases frame with
  | recv j pc => exact Or.inr rfl
  | recvPost j pc => cases pc <;> exact Or.inr rfl
  | accept j pc => cases pc <;> first | exact Or.inl rfl | exact Or.inr rfl
  | _ => contradiction

/-- Nobody listens on a free slot. -/
theorem Sound.turns_free (h : Sound cfg s) (hfree : i ∈ s.indexArray) : s.turns i = 0 := by
  have hcount : 0 < s.indexArray.count i := List.count_pos_iff.mpr hfree
  have htoken := h.token i
  have hone : (if i < cfg.maxUser then 1 else 0) ≤ 1 := by split <;> omega
  have hlive : (s.sessionArray i).live = 0 := by omega
  have howns : s.tally owns i = 0 := by omega
  have htally : s.tally listening i = 0 := by
    refine total_eq_zero fun frame hpresent => ?_
    unfold weightAt
    split
    · rename_i hslot
      by_contra hne
      rcases owns_or_confirmed hne with howner | hconfirmed
      · have hle := le_tally hpresent hslot owns
        omega
      · have hopen := h.live_of_confirmed hpresent hconfirmed hslot
        omega
    · rfl
  have hio : (s.sessionArray i).io = [] := by
    by_contra hne
    have hopen := h.posted i hne
    omega
  rw [ContentsServer.turns, htally, Session.receives, hio]
  rfl

/-! ## Steps -/

theorem Wrote.receives {write : Session → Session} (h : Wrote frame write)
    (hlistening : frame.listening = 0) (x : Session) : (write x).receives = x.receives := by
  cases h with
  | cancel => exact receives_cancelled x
  | wsaSend => simp [Session.receives]
  | _ => first | contradiction | rfl

theorem Next.listening {next : Frame} (h : Next s frame next) (hpop : frame ≠ .pop)
    (hlistening : frame.listening = 0) : next.listening = 0 := by
  cases h with
  | pop => exact absurd rfl hpop
  | _ => first | rfl | contradiction

/-- Who has the turn keeps it, gives it to the receive it posts, or lets it go. -/
theorem turn_handed_on (cfg : Config) (s : ContentsServer) (hslot : frame.slot = some i)
    (hlistening : frame.listening ≠ 0) (now : UInt64) (outcome : Outcome) :
    ((s.runFrame cfg now outcome frame).2.map listening).sum +
        ((s.runFrame cfg now outcome frame).1.sessionArray i).receives ≤
      frame.listening + (s.sessionArray i).receives := by
  cases frame with
  | recv j pc =>
      obtain rfl : j = i := Option.some.inj hslot
      cases pc <;>
        simp [ContentsServer.runFrame, ContentsServer.recvStep, listening, Session.receives]
  | recvPost j pc =>
      obtain rfl : j = i := Option.some.inj hslot
      unfold ContentsServer.runFrame ContentsServer.recvPostStep
      cases pc with
      | dFlag =>
          dsimp only
          split <;> simp [listening]
      | inc => simp [ContentsServer.increment, listening, Session.receives]
      | wsaRecv =>
          cases outcome <;> simp [ContentsServer.postIo, listening, Session.receives]
      | recheck | cancel => contradiction
  | accept j pc =>
      obtain rfl : j = i := Option.some.inj hslot
      unfold ContentsServer.runFrame ContentsServer.acceptStep
      cases pc with
      | wsaRecv =>
          cases outcome <;> simp [ContentsServer.postIo, listening, Session.receives]
      | clear =>
          dsimp only
          split <;> simp [ContentsServer.addSize, listening, Session.receives]
      | clearTake =>
          dsimp only
          split <;> simp [ContentsServer.dequeued, listening, Session.receives]
      | _ =>
          simp [ContentsServer.dropBuffer, ContentsServer.addSize, ContentsServer.setSendFlag,
            ContentsServer.increment, ContentsServer.setDFlag, ContentsServer.record, listening,
            Session.receives]
  | _ => contradiction

/-- A frame of a slot steps. -/
theorem turns_run (hstack : s.threads[t]? = some (frame :: rest)) (hslot : frame.slot = some i)
    (now : UInt64) (outcome : Outcome) :
    ((s.runFrame cfg now outcome frame).1.start t
      ((s.runFrame cfg now outcome frame).2 ++ rest)).turns i ≤ s.turns i := by
  obtain ⟨write, hupdated⟩ := runFrame_updated cfg s now outcome frame
  have hran : Ran cfg s frame _ _ := runFrame_ran now outcome frame
  have hframes : ∀ next ∈ (s.runFrame cfg now outcome frame).2, next.slot = some i :=
    runFrame_slot hslot
  have htally := tally_run_slot hstack hran.threads hslot hframes listening i
  rw [if_pos rfl, if_pos rfl] at htally
  unfold ContentsServer.turns
  rw [ContentsServer.start_sessionArray]
  by_cases hlistening : frame.listening = 0
  · have hpop : frame ≠ .pop := by
      rintro rfl
      contradiction
    have hnext : ((s.runFrame cfg now outcome frame).2.map listening).sum = 0 :=
      sum_map_zero fun next hn => (runFrame_next hn).listening hpop hlistening
    rw [hupdated.here i hslot, hupdated.wrote.receives hlistening]
    omega
  · have hturn := turn_handed_on cfg s hslot hlistening now outcome
    omega

/-- `pop` gives the turn to the slot on top of the stack. -/
theorem weight_popped (cfg : Config) (s : ContentsServer) (i : Nat) (now : UInt64)
    (outcome : Outcome) :
    ((s.runFrame cfg now outcome .pop).2.map (weightAt listening i)).sum ≤
      if s.indexArray.head? = some i then 1 else 0 := by
  unfold ContentsServer.runFrame ContentsServer.popStep
  dsimp only
  split
  · exact Nat.zero_le _
  · rename_i j indexes hindexes
    rw [hindexes]
    by_cases hij : j = i
    · simp [weightAt, slot, listening, hij]
    · simp [weightAt, slot, hij]

theorem turns_pop (hsound : Sound cfg s) (hstack : s.threads[t]? = some (.pop :: rest))
    (now : UInt64) (outcome : Outcome) (h : s.turns i ≤ 1) :
    ((s.runFrame cfg now outcome .pop).1.start t
      ((s.runFrame cfg now outcome .pop).2 ++ rest)).turns i ≤ 1 := by
  obtain ⟨write, hupdated⟩ := runFrame_updated cfg s now outcome .pop
  have hran : Ran cfg s .pop _ _ := runFrame_ran now outcome .pop
  have htally := tally_run (s.runFrame cfg now outcome .pop).2 hstack hran.threads listening i
  have hweight : weightAt listening i .pop = 0 := rfl
  have hpopped := weight_popped cfg s i now outcome
  unfold ContentsServer.turns at h ⊢
  rw [ContentsServer.start_sessionArray, hupdated.there i nofun]
  by_cases htop : s.indexArray.head? = some i
  · -- Nobody had the turn while the slot was free.
    have hfree := hsound.turns_free (List.mem_of_head? htop)
    unfold ContentsServer.turns at hfree
    rw [if_pos htop] at hpopped
    omega
  · rw [if_neg htop] at hpopped
    omega

/-- A frame that is not at the slot steps; only `pop` comes to it. -/
theorem turns_elsewhere (hsound : Sound cfg s) (hstack : s.threads[t]? = some (frame :: rest))
    (hslot : frame.slot ≠ some i) (now : UInt64) (outcome : Outcome) (h : s.turns i ≤ 1) :
    ((s.runFrame cfg now outcome frame).1.start t
      ((s.runFrame cfg now outcome frame).2 ++ rest)).turns i ≤ 1 := by
  by_cases hpop : frame = .pop
  · subst hpop
    exact turns_pop hsound hstack now outcome h
  · obtain ⟨write, hupdated⟩ := runFrame_updated cfg s now outcome frame
    have hbegins : frame.slot = none → ∀ next, Next s frame next → next.listening = 0 := by
      intro hnone next hnext
      apply hnext.listening hpop
      cases frame <;> first | rfl | simp [slot] at hnone
    unfold ContentsServer.turns at h ⊢
    rw [ContentsServer.start_sessionArray, hupdated.there i hslot,
      tally_elsewhere hstack hslot hbegins now outcome]
    exact h

/-- A function starts that has no turn. -/
theorem turns_start {first : Frame} {stack : List Frame} (hstack : s.threads[t]? = some stack)
    (hthreads : s'.threads = s.threads) (hfirst : first.listening = 0)
    (hself : s'.sessionArray i = s.sessionArray i) :
    (s'.start t (first :: stack)).turns i = s.turns i := by
  unfold ContentsServer.turns
  rw [tally_start_zero hstack hthreads hfirst i, ContentsServer.start_sessionArray, hself]

/-- A receive that completes gives its turn to the worker. -/
theorem turns_complete {j n : Nat} {io : Io} (success : Bool) (hstack : s.threads[t]? = some [])
    (hio : (s.sessionArray j).io[n]? = some io) :
    ((s.modify j fun x => { x with io := x.io.eraseIdx n }).start t
      [completionFrame j io success]).turns i ≤ s.turns i := by
  have hthreads : (s.modify j fun x => { x with io := x.io.eraseIdx n }).threads = s.threads := rfl
  have htally := tally_start (s.modify j fun x => { x with io := x.io.eraseIdx n })
    [completionFrame j io success] hstack hthreads listening i
  simp only [List.map_cons, List.map_nil, List.sum_cons, List.sum_nil, Nat.add_zero,
    List.append_nil] at htally
  have hslot := completionFrame_slot j io success
  unfold ContentsServer.turns
  rw [htally, ContentsServer.start_sessionArray]
  by_cases hij : j = i
  · subst hij
    have hcount := receives_erased hio
    have hfirst : (completionFrame j io success).listening ≤ if io.send then 0 else 1 := by
      unfold completionFrame
      cases hsend : io.send <;> cases success <;> simp [listening]
    rw [weightAt, if_pos hslot, ContentsServer.modify_self]
    omega
  · have hne : (completionFrame j io success).slot ≠ some i := by
      rw [hslot]
      exact fun heq => hij (Option.some.inj heq)
    rw [weightAt, if_neg hne, Nat.add_zero, ContentsServer.modify_of_ne]
    exact fun heq => hij heq.symm

/-- **At most one has the turn**, and every step keeps that. -/
theorem turns_step {step : Step} (h : s.turns i ≤ 1) (hsound : Sound cfg s)
    (hserved : Served cfg s step s') : s'.turns i ≤ 1 := by
  cases hserved with
  | run t now outcome frame rest hstack =>
      by_cases hslot : frame.slot = some i
      · exact (turns_run hstack hslot now outcome).trans h
      · exact turns_elsewhere hsound hstack hslot now outcome h
  | accept hstack => exact (turns_start hstack rfl rfl rfl).trans_le h
  | take t n message hstack hmessage =>
      cases message <;> exact (turns_start hstack rfl rfl rfl).trans_le h
  | complete t j n io success hstack hio => exact (turns_complete success hstack hio).trans h
  | call t call stack hissued hstack htop =>
      cases call <;> exact (turns_start hstack rfl rfl rfl).trans_le h
  | kick t j rest hstack => exact (turns_start hstack rfl rfl rfl).trans_le h
  | sweep regular now hstack => exact (turns_start hstack rfl rfl rfl).trans_le h

/-! ## Runs -/

/-- **A session listens once.**  In every run there is at most one receive outstanding on a slot,
counting whoever is to post one; and while somebody works on `_recvQ` (`AcceptThread`, or the
worker between a completion and the next `WSARecv`), none is outstanding and no other thread
works on it. -/
theorem one_receive (cfg : Config) (others : Nat) (steps : List Step) (s : ContentsServer)
    (hsweeps : Along (serverStep cfg) (SweepsAccepted cfg) (startedServer cfg others) steps)
    (hrun : exec (serverStep cfg) (startedServer cfg others) steps = some s) (i : Nat) :
    s.turns i ≤ 1 ∧
      ∀ frame, Present s.threads frame → frame.slot = some i → frame.listening = 1 →
        (s.sessionArray i).receives = 0 ∧ s.tally listening i = 1 := by
  have hinv : Sound cfg s ∧ s.turns i ≤ 1 := by
    refine exec_invariant_along (I := fun s => Sound cfg s ∧ s.turns i ≤ 1)
      ?_ ⟨sound_started cfg others, (turns_started cfg others i).trans_le (Nat.zero_le 1)⟩
      hsweeps hrun
    rintro s step s' ⟨hsound, hturns⟩ hswept hstep
    have hserved := serverStep_served hstep
    exact ⟨hsound.step hswept hserved, turns_step hturns hsound hserved⟩
  refine ⟨hinv.2, fun frame hpresent hslot hlistening => ?_⟩
  have hone := le_tally hpresent hslot listening
  have hturns := hinv.2
  unfold ContentsServer.turns at hturns
  omega

/-- A worker is inside `RecvCompletion` with the first bytes of a client. -/
def firstBytes : List Step := accepts ++ .complete 2 0 0 true :: runs 2 2

theorem firstBytes_unheard :
    ∃ s, exec (serverStep oneSlot) (startedServer oneSlot 1) firstBytes = some s ∧
      Present s.threads (.recv 0 .user) ∧ (s.sessionArray 0).receives = 0 := by
  have hrun : Along (serverStep oneSlot) (SweepsAccepted oneSlot) (startedServer oneSlot 1)
        firstBytes ∧
      (exec (serverStep oneSlot) (startedServer oneSlot 1) firstBytes).map (·.threads) =
        some [[], [], [.recv 0 .user]] := by decide +kernel
  obtain ⟨s, hs, hthreads⟩ := Option.map_eq_some_iff.mp hrun.2
  have hpresent : Present s.threads (.recv 0 .user) := by
    rw [hthreads]
    exact ⟨_, List.mem_of_getElem? (i := 2) rfl, List.mem_cons_self⟩
  refine ⟨s, hs, hpresent, ?_⟩
  exact ((one_receive oneSlot 1 firstBytes s hrun.1 hs 0).2 _ hpresent rfl rfl).1

end SessionServer.ContentLib
