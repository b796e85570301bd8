/-
  ContentLib/TimeOut.lean --- which sessions a sweep of the timeout thread disconnects.

  A sweep takes the clock once and compares it with `_time` of every slot.  The workers and
  `AcceptThread` go on storing the clock there: a time stored after the sweep has taken its
  own lies ahead of it, and the unsigned difference of the two is then all but the largest
  there is.
-/
import SessionServer.ContentLib.SlotRun

set_option autoImplicit false

namespace SessionServer.ContentLib

open SessionServer.Foundation ContentsServer

/-! ## Sessions on the clock -/

/-- The limit of a sweep, in milliseconds. -/
def Config.timeOut (cfg : Config) (regular : Bool) : UInt64 :=
  (if regular then cfg.regularTime else cfg.initialTime) * 1000

/-- The clock at a step. -/
def Step.clock : Step → Option UInt64
  | .run _ now _ => some now
  | .sweep _ now => some now
  | _ => none

/-- The server, and for each slot the clock at the last receive of its session, or at its
accept; nothing from the step that stores the session ID until the accept has taken the
time. -/
structure Watch where
  server : ContentsServer
  active : Nat → Option UInt64

namespace Watch

/-- What a step of a frame changes in `active`. -/
def noted (w : Watch) (now : UInt64) : Frame → Nat → Option UInt64
  | .accept i .sessionID => Function.update w.active i none
  | .accept i .time => Function.update w.active i (some now)
  | .recv i .time => Function.update w.active i (some now)
  | _ => w.active

/-- The slot holds the session, and `AcceptThread` has accepted it. -/
def Live (w : Watch) (i : Nat) (session : SessionID) : Prop :=
  (w.server.sessionArray i).sessionID = session ∧ (w.active i).isSome

/-- More than the limit of the sweep has passed at `time` since the session was last
active. -/
def Idle (cfg : Config) (w : Watch) (regular : Bool) (i : Nat) (session : SessionID)
    (time : UInt64) : Prop :=
  (w.server.sessionArray i).sessionID = session ∧
    ∃ last ∈ w.active i, last.toNat + (cfg.timeOut regular).toNat < time.toNat

instance (w : Watch) (i : Nat) (session : SessionID) : Decidable (w.Live i session) :=
  inferInstanceAs (Decidable (_ ∧ _))

instance (cfg : Config) (w : Watch) (regular : Bool) (i : Nat) (session : SessionID)
    (time : UInt64) : Decidable (w.Idle cfg regular i session time) :=
  inferInstanceAs (Decidable (_ ∧ ∃ last ∈ w.active i, _))

end Watch

def watchStep (cfg : Config) (w : Watch) (step : Step) : Option Watch :=
  (serverStep cfg w.server step).map fun server =>
    ⟨server, match w.server.top step with
      | none => w.active
      | some frame => w.noted (step.clock.getD 0) frame⟩

def startedWatch (cfg : Config) (others : Nat) : Watch := ⟨startedServer cfg others, fun _ => none⟩

/-- The states of a run, each with the clock at the step taken from it. -/
def moments (cfg : Config) : Watch → List Step → List (Watch × UInt64)
  | _, [] => []
  | w, step :: steps =>
      (step.clock.map fun time => (w, time)).toList ++
        match watchStep cfg w step with
        | none => []
        | some next => moments cfg next steps

/-- **Only idle sessions time out.**  If the step is a call of `Disconnect` by a sweep that
has taken the clock at `now`, and the session is live, then at some moment since `now` it
has been idle for longer than the limit. -/
def TimesOutIdle (cfg : Config) (others : Nat) (before : List Step) (step : Step) (w : Watch) :
    Prop :=
  ∀ regular now i session, w.server.top step = some (.sweep regular now i (.time session)) →
    .disconnect session .inc ∈ (sweepStep cfg w.server regular now i (.time session)).2 →
    w.Live i session →
    ∃ moment ∈ moments cfg (startedWatch cfg others) (before ++ [step]),
      now ≤ moment.2 ∧ moment.1.Idle cfg regular i session moment.2

/-- Where a sweep compares the time of a live session with its own, that time is not
later. -/
def StoredBefore (w : Watch) (step : Step) : Prop :=
  match w.server.top step with
  | some (.sweep _ now i (.time session)) =>
      w.Live i session → (w.server.sessionArray i).time ≤ now
  | _ => True

instance (w : Watch) (step : Step) : Decidable (StoredBefore w step) := by
  unfold StoredBefore
  split <;> infer_instance

/-! ## The times of the slots -/

variable {cfg : Config} {frame : Frame} {w next : Watch}

/-- A write that is not one of the two of the time leaves it alone. -/
theorem Wrote.time_kept {write : Session → Session} (h : Wrote frame write) (x : Session) :
    (write x).time = x.time ∨ (∃ i, frame = .recv i .time) ∨ ∃ i, frame = .accept i .time := by
  cases h with
  | time i now => exact Or.inr (Or.inl ⟨i, rfl⟩)
  | acceptTime i now => exact Or.inr (Or.inr ⟨i, rfl⟩)
  | _ => exact Or.inl rfl

/-- What is known of the time of a slot is what is stored there. -/
def Watch.Stored (w : Watch) : Prop :=
  ∀ i, ∀ last ∈ w.active i, (w.server.sessionArray i).time = last

/-- The clock is stored in a slot, and noted. -/
theorem Watch.Stored.store (h : w.Stored) (now : UInt64) (i : Nat) :
    ∀ j, ∀ last ∈ Function.update w.active i (some now) j,
      ((w.server.modify i fun x => { x with time := now }).sessionArray j).time = last := by
  intro j
  by_cases hij : j = i
  · subst hij
    simp
  · rw [w.server.modify_of_ne hij, Function.update_of_ne hij]
    exact h j

theorem Watch.Stored.run (h : w.Stored) (now : UInt64) (outcome : Outcome) (frame : Frame) :
    ∀ i, ∀ last ∈ w.noted now frame i,
      ((w.server.runFrame cfg now outcome frame).1.sessionArray i).time = last := by
  by_cases hstores : (∃ i, frame = .recv i .time) ∨ ∃ i, frame = .accept i .time
  · rcases hstores with ⟨i, rfl⟩ | ⟨i, rfl⟩
    · exact h.store now i
    · exact h.store now i
  · obtain ⟨write, hupdated⟩ := runFrame_updated cfg w.server now outcome frame
    have hsame := hupdated.rel (fun x y => y.time = x.time) (fun _ => rfl)
      fun x => (hupdated.wrote.time_kept x).resolve_right hstores
    rw [not_or, not_exists, not_exists] at hstores
    intro i last hlast
    rw [hsame i]
    refine h i last ?_
    unfold noted at hlast
    split at hlast
    · rename_i j
      by_cases hij : i = j
      · subst hij
        simp at hlast
      · rwa [Function.update_of_ne hij] at hlast
    · exact absurd rfl (hstores.2 _)
    · exact absurd rfl (hstores.1 _)
    · exact hlast

/-- **The time of a slot is that of the last receive or accept.** -/
theorem Watch.Stored.step {step : Step} (h : w.Stored)
    (hstep : watchStep cfg w step = some next) : next.Stored := by
  obtain ⟨server, hserver, rfl⟩ := Option.map_eq_some_iff.mp hstep
  refine (serverStep_served hserver).cases_run (P := fun server => Watch.Stored ⟨server, _⟩) ?_ ?_
  · rintro t now outcome frame rest rfl hstack
    have htop : w.server.top (.run t now outcome) = some frame := by
      rw [ContentsServer.top, hstack]
      rfl
    simp only [Watch.Stored, htop]
    exact h.run now outcome frame
  · intro t stack first u hnot hstack hcallback hbegan i last hlast
    have htop : w.server.top step = none := by
      cases step with
      | run t now outcome => exact absurd rfl (hnot t now outcome)
      | _ => rfl
    rw [htop] at hlast
    obtain ⟨io, _, hsession⟩ := hbegan.session i
    show (u.sessionArray i).time = last
    rw [hsession]
    exact h i last hlast

/-! ## The clock of a sweep -/

/-- The clock of a sweep under way is one the run has had. -/
def SweepsSampled (before : List Step) (s : ContentsServer) : Prop :=
  ∀ regular now i pc, Present s.threads (.sweep regular now i pc) →
    now ∈ before.filterMap Step.clock

theorem SweepsSampled.step {s s' : ContentsServer} {before : List Step} {step : Step}
    (h : SweepsSampled before s) (hstep : Served cfg s step s') :
    SweepsSampled (before ++ [step]) s' := by
  intro regular now i pc hpresent
  rw [List.filterMap_append]
  rcases hstep.sweep_present hpresent with rfl | ⟨j, pc', hold⟩
  · exact List.mem_append_right _ (by simp [Step.clock])
  · exact List.mem_append_left _ (h regular now j pc' hold)

/-! ## Every run -/

theorem watch_run {others : Nat} {before : List Step}
    (hrun : exec (watchStep cfg) (startedWatch cfg others) before = some w) :
    w.Stored ∧ SweepsSampled before w.server := by
  refine exec_history (I := fun before w => w.Stored ∧ SweepsSampled before w.server) ⟨?_, ?_⟩ ?_
    along_true hrun
  · exact fun i last hlast => by simp [startedWatch] at hlast
  · exact fun regular now i pc hpresent =>
      absurd hpresent (not_present_started cfg others _)
  · rintro before w step next - - ⟨hstored, hsampled⟩ - hstep
    refine ⟨hstored.step hstep, ?_⟩
    obtain ⟨server, hserver, rfl⟩ := Option.map_eq_some_iff.mp hstep
    exact hsampled.step (serverStep_served hserver)

/-- The last state of a run is among its moments. -/
theorem mem_moments {step : Step} {time : UInt64} (htime : step.clock = some time)
    {before : List Step} {start : Watch} (hrun : exec (watchStep cfg) start before = some w) :
    (w, time) ∈ moments cfg start (before ++ [step]) := by
  induction before generalizing start with
  | nil =>
      rw [exec_nil, Option.some.injEq] at hrun
      subst hrun
      simp [moments, htime]
  | cons first before ih =>
      obtain ⟨middle, hmiddle, hrest⟩ := exec_cons_eq_some.mp hrun
      simp only [List.cons_append, moments, hmiddle]
      exact List.mem_append_right _ (ih hrest)

/-- The test of a sweep, where the time of the slot is not later than its own. -/
theorem expired_spec {s : ContentsServer} {regular : Bool} {now : UInt64} {i : Nat}
    (hle : (s.sessionArray i).time ≤ now) :
    s.expired cfg regular now i = true ↔
      (s.sessionArray i).time.toNat + (cfg.timeOut regular).toNat < now.toNat := by
  have hnat := UInt64.le_iff_toNat_le.mp hle
  rw [expired, decide_eq_true_eq, ← Config.timeOut, gt_iff_lt, UInt64.lt_iff_toNat_lt,
    UInt64.toNat_sub_of_le _ _ hle]
  omega

/-- A thread runs for a number of steps at one time. -/
def runsAt (t : Nat) (now : UInt64) (n : Nat) : List Step := List.replicate n (.run t now .pending)

/-- A client connects and never sends; a sweep is about to compare its time. -/
def silentClient : List Step :=
  .accept :: runsAt 0 1000 16 ++ .sweep false 100000 :: runsAt 1 100000 3

/-- A client connects and sends, and sends again after a sweep has taken the clock. -/
def sendsDuringSweep : List Step :=
  .accept :: runsAt 0 100000 16 ++ .complete 2 0 0 true :: runsAt 2 100005 8 ++
    .sweep true 100100 :: runsAt 1 100100 3 ++ .complete 2 0 0 true :: runsAt 2 100101 2

end SessionServer.ContentLib
