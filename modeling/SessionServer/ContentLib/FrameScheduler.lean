/-
  ContentLib/FrameScheduler.lean --- when the contents are updated.

  `FrameScheduler` wakes every 10 ms, counts milliseconds and posts an update for every contents
  whose `_frame` divides the count.  Where it comes too late it starts anew from the time it
  reads, so that updates are left out and not made up for.
-/
import SessionServer.Foundation.Run
import SessionServer.Foundation.Ticker

set_option autoImplicit false

namespace SessionServer.ContentLib

open SessionServer.Foundation

/-! ## The thread -/

/-- `_contentsMap` in the order of an iteration, each contents with its `_frame`. -/
abbrev ContentsMap := { entries : List (Int × Int) // (entries.map Prod.fst).Nodup }

/-- What one pass of the loop finds: the time `sleep_until` returns, `_frameSchedulerStop`, the
map, and the time it reads after its posts. -/
structure Pass where
  wakeAt : Nat
  stop : Bool
  contentsMap : ContentsMap
  now : Nat

/-- The locals of `FrameScheduler`; times are those of the steady clock, in nanoseconds.  `posts`
and `beats` are recorded for the statements. -/
structure FrameScheduler where
  nextWakeAt : Nat
  frameCount : UInt64
  running : Bool
  /-- the last reading of the clock -/
  clock : Nat
  /-- the numbers posted with `103` -/
  posts : List Int
  /-- when the passes were due and when they began -/
  beats : List Beat

def schedulerTick : Nat := 10 * 1000000

namespace FrameScheduler

/-- The test for an update; a positive `_frame` is the same number as an `unsigned long long`. -/
def Due (frameCount : UInt64) (frame : Int) : Prop :=
  0 < frame ∧ frameCount.toNat % frame.toNat = 0

instance (frameCount : UInt64) (frame : Int) : Decidable (Due frameCount frame) :=
  inferInstanceAs (Decidable (_ ∧ _))

/-- `contentsNumList`. -/
def contentsNumList (frameCount : UInt64) (contentsMap : ContentsMap) : List Int :=
  (contentsMap.1.filter fun entry => Due frameCount entry.2).map Prod.fst

/-- One pass.  `sleep_until` does not return early, and the clock does not go back. -/
def step (s : FrameScheduler) (pass : Pass) : Option FrameScheduler :=
  if s.running = true ∧ s.nextWakeAt + schedulerTick ≤ pass.wakeAt ∧ s.clock ≤ pass.wakeAt ∧
      pass.wakeAt ≤ pass.now then
    let nextWakeAt := s.nextWakeAt + schedulerTick
    let beats := s.beats ++ [⟨nextWakeAt, pass.wakeAt⟩]
    if pass.stop then
      some { s with nextWakeAt, running := false, clock := pass.wakeAt, beats }
    else
      let frameCount := s.frameCount + 10
      some
        { nextWakeAt := if pass.now - nextWakeAt ≥ schedulerTick then pass.now else nextWakeAt
          frameCount := frameCount
          running := true
          clock := pass.now
          posts := s.posts ++ contentsNumList frameCount pass.contentsMap
          beats := beats }
  else none

/-- The thread as it starts. -/
def started (now : Nat) : FrameScheduler where
  nextWakeAt := now
  frameCount := 0
  running := true
  clock := now
  posts := []
  beats := []

variable {s s' : FrameScheduler} {pass : Pass}

/-- **What a pass does.** -/
theorem step_spec (h : s.step pass = some s') :
    s.running = true ∧ s.nextWakeAt + schedulerTick ≤ pass.wakeAt ∧ s.clock ≤ pass.wakeAt ∧
      pass.wakeAt ≤ pass.now ∧
      s'.beats = s.beats ++ [⟨s.nextWakeAt + schedulerTick, pass.wakeAt⟩] ∧
      ((pass.stop = true ∧ s'.running = false ∧ s'.posts = s.posts) ∨
        (pass.stop = false ∧ s'.running = true ∧ s'.clock = pass.now ∧
          s'.frameCount = s.frameCount + 10 ∧
          s'.nextWakeAt = (if pass.now - (s.nextWakeAt + schedulerTick) ≥ schedulerTick then pass.now
            else s.nextWakeAt + schedulerTick) ∧
          s'.posts = s.posts ++ contentsNumList (s.frameCount + 10) pass.contentsMap)) := by
  simp only [step, Option.ite_none_right_eq_some] at h
  obtain ⟨⟨hrunning, hdue, hclock, hnow⟩, h⟩ := h
  refine ⟨hrunning, hdue, hclock, hnow, ?_⟩
  cases hstop : pass.stop with
  | true =>
      rw [hstop, if_pos rfl, Option.some.injEq] at h
      subst h
      exact ⟨rfl, Or.inl ⟨rfl, rfl, rfl⟩⟩
  | false =>
      rw [hstop, if_neg Bool.false_ne_true, Option.some.injEq] at h
      subst h
      refine ⟨rfl, Or.inr ⟨rfl, rfl, rfl, rfl, ?_, rfl⟩⟩
      dsimp only

/-! ## Updates -/

/-- A registered contents is posted once, where it is due. -/
theorem count_contentsNumList (frameCount : UInt64) {contentsMap : ContentsMap} {num frame : Int}
    (h : (num, frame) ∈ contentsMap.1) :
    (contentsNumList frameCount contentsMap).count num = if Due frameCount frame then 1 else 0 := by
  have hnodup : (contentsNumList frameCount contentsMap).Nodup :=
    contentsMap.2.sublist (List.filter_sublist.map Prod.fst)
  have hmem : num ∈ contentsNumList frameCount contentsMap ↔ Due frameCount frame := by
    rw [contentsNumList, List.mem_map]
    constructor
    · rintro ⟨⟨other, rate⟩, hother, rfl⟩
      obtain ⟨hin, hdue⟩ := List.mem_filter.mp hother
      -- The number has one entry.
      have hsame := List.inj_on_of_nodup_map contentsMap.2 hin h rfl
      rw [Prod.mk.injEq] at hsame
      simpa [hsame.2] using hdue
    · intro hdue
      exact ⟨(num, frame), List.mem_filter.mpr ⟨h, by simpa using hdue⟩, rfl⟩
  rw [hnodup.count]
  exact if_congr hmem rfl rfl

/-- A pass that is not the last one. -/
theorem step_goes_on (h : s.step pass = some s') (hstop : pass.stop = false) :
    s'.frameCount = s.frameCount + 10 ∧
      s'.posts = s.posts ++ contentsNumList (s.frameCount + 10) pass.contentsMap := by
  obtain ⟨_, _, _, _, _, ⟨hlast, _⟩ | ⟨_, _, _, hcount, _, hposts⟩⟩ := step_spec h
  · rw [hstop] at hlast
    contradiction
  · exact ⟨hcount, hposts⟩

/-- The count of a run. -/
theorem frameCount_run : ∀ {passes : List Pass} {s s' : FrameScheduler},
    (∀ pass ∈ passes, pass.stop = false) → exec step s passes = some s' →
      s'.frameCount.toNat = (s.frameCount.toNat + 10 * passes.length) % 18446744073709551616 := by
  intro passes
  induction passes with
  | nil =>
      intro s s' _ h
      rw [exec_nil, Option.some.injEq] at h
      subst h
      exact (Nat.mod_eq_of_lt s.frameCount.toNat_lt).symm
  | cons pass passes ih =>
      intro s s' hgo h
      obtain ⟨mid, hstep, hrest⟩ := exec_cons_eq_some.mp h
      obtain ⟨hcount, _⟩ := step_goes_on hstep (hgo pass List.mem_cons_self)
      have hrun := ih (fun other hother => hgo other (List.mem_cons_of_mem _ hother)) hrest
      rw [hrun, hcount, UInt64.toNat_add, List.length_cons]
      show ((s.frameCount.toNat + 10) % 18446744073709551616 + _) % _ = _
      omega

/-- The multiples of `m` up to a tick later. -/
theorem due_iff {frame : Int} (hframe : 0 < frame) {k : Nat} {frameCount : UInt64}
    (hcount : frameCount.toNat = 10 * k) :
    Due frameCount frame ↔ Nat.lcm 10 frame.toNat / 10 ∣ k := by
  have hlcm : 10 * (Nat.lcm 10 frame.toNat / 10) = Nat.lcm 10 frame.toNat :=
    Nat.mul_div_cancel' (Nat.dvd_lcm_left _ _)
  have hperiod : Nat.lcm 10 frame.toNat / 10 ∣ k ↔ frame.toNat ∣ 10 * k := by
    rw [← Nat.mul_dvd_mul_iff_left (show 0 < 10 by decide), hlcm, Nat.lcm_dvd_iff]
    exact and_iff_right (Nat.dvd_mul_right 10 k)
  rw [hperiod, Due, hcount, Nat.dvd_iff_mod_eq_zero]
  exact and_iff_right hframe

/-- The updates of a contents during a run. -/
theorem count_run {num frame : Int} (hframe : 0 < frame) :
    ∀ {during : List Pass} {mid s : FrameScheduler} {a : Nat}, mid.frameCount.toNat = 10 * a →
      10 * (a + during.length) < 18446744073709551616 →
      (∀ pass ∈ during, pass.stop = false ∧ (num, frame) ∈ pass.contentsMap.1) →
      exec step mid during = some s →
      s.posts.count num + a / (Nat.lcm 10 frame.toNat / 10) =
        mid.posts.count num + (a + during.length) / (Nat.lcm 10 frame.toNat / 10) := by
  intro during
  induction during with
  | nil =>
      intro mid s a _ _ _ h
      rw [exec_nil, Option.some.injEq] at h
      subst h
      rfl
  | cons pass during ih =>
      intro mid s a hcount hlaps hduring h
      obtain ⟨next, hstep, hrest⟩ := exec_cons_eq_some.mp h
      obtain ⟨hgo, hregistered⟩ := hduring pass List.mem_cons_self
      obtain ⟨hframeCount, hposts⟩ := step_goes_on hstep hgo
      rw [List.length_cons] at hlaps
      have hnext : (mid.frameCount + 10).toNat = 10 * (a + 1) := by
        rw [UInt64.toNat_add, hcount]
        show (10 * a + 10) % 18446744073709551616 = _
        omega
      have hone := count_contentsNumList (mid.frameCount + 10) hregistered
      have hdue := due_iff hframe hnext
      have hrun := ih (a := a + 1) (by rw [hframeCount, hnext]) (by omega)
        (fun other hother => hduring other (List.mem_cons_of_mem _ hother)) hrest
      have hsucc := Nat.succ_div (a := a) (b := Nat.lcm 10 frame.toNat / 10)
      have hsame : (if Due (mid.frameCount + 10) frame then 1 else 0) =
          if Nat.lcm 10 frame.toNat / 10 ∣ a + 1 then 1 else 0 := if_congr hdue rfl rfl
      rw [hposts, List.count_append, hone, hsame] at hrun
      rw [List.length_cons, show a + (during.length + 1) = a + 1 + during.length by omega]
      omega

/-- **How often a contents is updated.**  A contents with a frame of `frame` ms that stays
registered is updated once every `lcm 10 frame` ms of passes: from pass `a` to pass `b`, as often
as that period ends. -/
theorem updates_posted (now : Nat) (before during : List Pass) (mid s : FrameScheduler)
    {num frame : Int} (hframe : 0 < frame)
    (hbefore : exec step (started now) before = some mid) (hduring : exec step mid during = some s)
    (hstop : ∀ pass ∈ before ++ during, pass.stop = false)
    (hregistered : ∀ pass ∈ during, (num, frame) ∈ pass.contentsMap.1)
    (hlaps : 10 * (before ++ during).length < 18446744073709551616) :
    s.posts.count num = mid.posts.count num +
      (10 * (before ++ during).length / Nat.lcm 10 frame.toNat -
        10 * before.length / Nat.lcm 10 frame.toNat) := by
  rw [List.length_append] at hlaps ⊢
  have hcount := frameCount_run (fun pass hpass => hstop pass (List.mem_append_left _ hpass)) hbefore
  have hzero : (started now).frameCount.toNat = 0 := rfl
  rw [hzero, Nat.zero_add, Nat.mod_eq_of_lt (by omega)] at hcount
  have hrun := count_run hframe hcount hlaps
    (fun pass hpass => ⟨hstop pass (List.mem_append_right _ hpass), hregistered pass hpass⟩) hduring
  have hlcm : Nat.lcm 10 frame.toNat = 10 * (Nat.lcm 10 frame.toNat / 10) :=
    (Nat.mul_div_cancel' (Nat.dvd_lcm_left _ _)).symm
  have hdiv : ∀ n, 10 * n / Nat.lcm 10 frame.toNat = n / (Nat.lcm 10 frame.toNat / 10) := by
    intro n
    rw [hlcm, Nat.mul_div_mul_left _ _ (by decide), Nat.mul_div_cancel_left _ (by decide)]
  have hle : before.length / (Nat.lcm 10 frame.toNat / 10) ≤
      (before.length + during.length) / (Nat.lcm 10 frame.toNat / 10) :=
    Nat.div_le_div_right (Nat.le_add_right _ _)
  rw [hdiv, hdiv]
  omega

/-- Four passes, the second of which is late; another contents is registered before it. -/
def latePass : List Pass :=
  let both : ContentsMap := ⟨[(3, 20), (4, 25)], by decide⟩
  [⟨10000000, false, ⟨[(3, 20)], by decide⟩, 10000100⟩, ⟨41000000, false, both, 41000200⟩,
    ⟨51000200, false, both, 51000300⟩, ⟨61000300, false, both, 61000400⟩]

theorem latePass_posted :
    ∃ mid s, exec step (started 0) (latePass.take 1) = some mid ∧
      exec step mid (latePass.drop 1) = some s ∧ s.posts.count 3 = mid.posts.count 3 + 2 := by
  have hruns : (exec step (started 0) (latePass.take 1)).isSome = true ∧
      ∀ mid ∈ exec step (started 0) (latePass.take 1),
        (exec step mid (latePass.drop 1)).isSome = true := by decide +kernel
  obtain ⟨mid, hmid⟩ := Option.isSome_iff_exists.mp hruns.1
  obtain ⟨s, hs⟩ := Option.isSome_iff_exists.mp (hruns.2 mid hmid)
  have hregistered : ∀ pass ∈ latePass.drop 1, ((3, 20) : Int × Int) ∈ pass.contentsMap.1 := by
    decide
  have hposted := updates_posted 0 (latePass.take 1) (latePass.drop 1) mid s (by decide) hmid hs
    (by decide) hregistered (by decide)
  exact ⟨mid, s, hmid, hs, hposted⟩

/-! ## Time -/

/-- The passes are a ticker, and the next one is due behind the last. -/
structure Ticking (s : FrameScheduler) : Prop where
  beats : Beats schedulerTick s.beats
  last : s.running = true → ∀ beat ∈ s.beats.getLast?,
    beat.deadline ≤ s.nextWakeAt ∧ beat.wakeAt < s.nextWakeAt + schedulerTick

theorem ticking_started (now : Nat) : Ticking (started now) where
  beats := ⟨.nil, fun _ hbeat => absurd hbeat List.not_mem_nil⟩
  last := fun _ _ hbeat => nomatch hbeat

/-- **A pass keeps the ticker**, however late it is. -/
theorem Ticking.step (h : Ticking s) (hstep : s.step pass = some s') : Ticking s' := by
  obtain ⟨hrunning, hdue, _, hnow, hbeats, hrest⟩ := step_spec hstep
  have htick : 0 < schedulerTick := by decide
  have hlast := h.last hrunning
  constructor
  · rw [hbeats]
    refine h.beats.concat (fun beat hbeat => ?_) hdue
    obtain ⟨hdeadline, hwake⟩ := hlast beat hbeat
    exact ⟨Nat.add_le_add_right hdeadline _, hwake⟩
  · intro hgo beat hbeat
    rw [hbeats, List.getLast?_concat, Option.mem_some_iff] at hbeat
    subst hbeat
    rcases hrest with ⟨_, hstopped, _⟩ | ⟨_, _, _, _, hnext, _⟩
    · rw [hstopped] at hgo
      exact absurd hgo Bool.false_ne_true
    · rw [hnext]
      split
      · exact ⟨hdue.trans hnow, Nat.lt_of_le_of_lt hnow (Nat.lt_add_of_pos_right htick)⟩
      · rename_i hlate
        constructor
        · exact Nat.le_refl _
        · show pass.wakeAt < s.nextWakeAt + schedulerTick + schedulerTick
          omega

/-- A pass is done within a tick of the time it was due. -/
def Punctual (s : FrameScheduler) (pass : Pass) : Prop :=
  pass.now - (s.nextWakeAt + schedulerTick) < schedulerTick

instance (s : FrameScheduler) (pass : Pass) : Decidable (Punctual s pass) :=
  inferInstanceAs (Decidable (_ < _))

/-- Deadlines at a fixed rate. -/
structure OnTime (now : Nat) (s : FrameScheduler) : Prop where
  deadlines : s.beats.map Beat.deadline =
    (List.range s.beats.length).map fun i => now + schedulerTick * (i + 1)
  next : s.running = true → s.nextWakeAt = now + schedulerTick * s.beats.length

theorem OnTime.step {now : Nat} (h : OnTime now s) (hpunctual : Punctual s pass)
    (hstep : s.step pass = some s') : OnTime now s' := by
  obtain ⟨hrunning, _, _, _, hbeats, hrest⟩ := step_spec hstep
  have hnext := h.next hrunning
  have hdue : s.nextWakeAt + schedulerTick = now + schedulerTick * (s.beats.length + 1) := by
    rw [hnext, Nat.mul_succ, Nat.add_assoc]
  constructor
  · rw [hbeats, List.map_append, List.length_append, List.length_singleton, List.range_succ,
      List.map_append, h.deadlines]
    simp only [List.map_cons, List.map_nil, hdue]
  · intro hgo
    rcases hrest with ⟨_, hstopped, _⟩ | ⟨_, _, _, _, hnextWakeAt, _⟩
    · rw [hstopped] at hgo
      exact absurd hgo Bool.false_ne_true
    · rw [hnextWakeAt, if_neg (Nat.not_le.mpr hpunctual), hbeats, List.length_append,
        List.length_singleton, hdue]

/-- **The scheduler does not catch up, and does not drift.**  However late its passes are, any
window sees at most one pass more than it has ticks of 10 ms; and where each pass is done within
a tick of the time it was due, pass `k` is due `k` ticks after the start, whatever the delays
within a tick. -/
theorem no_bursts_no_drift (now : Nat) (passes : List Pass) (s : FrameScheduler)
    (hrun : exec step (started now) passes = some s) :
    (∀ x length, (beatsIn x length s.beats).length ≤
        (length + schedulerTick - 1) / schedulerTick + 1) ∧
      (Along step Punctual (started now) passes →
        s.beats.map Beat.deadline =
          (List.range s.beats.length).map fun k => now + schedulerTick * (k + 1)) := by
  constructor
  · intro x length
    have hticking : Ticking s :=
      exec_invariant (fun _ _ _ h hstep => h.step hstep) (ticking_started now) hrun
    exact hticking.beats.window (by decide) x length
  · intro hpunctual
    have hontime : OnTime now s :=
      exec_invariant_along (fun _ _ _ h hok hstep => h.step hok hstep) ⟨rfl, fun _ => rfl⟩
        hpunctual hrun
    exact hontime.deadlines

/-- Three passes that are up to 9 ms late. -/
def delayedPass : List Pass :=
  let registered : ContentsMap := ⟨[(3, 20)], by decide⟩
  [⟨10000700, false, registered, 10000900⟩, ⟨20003000, false, registered, 29000000⟩,
    ⟨30000000, false, registered, 30000100⟩]

theorem latePass_beats :
    (∃ s, exec step (started 0) latePass = some s ∧
      s.beats.map Beat.wakeAt = [10000000, 41000000, 51000200, 61000300] ∧
      (beatsIn 41000000 10000200 s.beats).length ≤ 3) ∧
    ∃ s, exec step (started 0) delayedPass = some s ∧
      s.beats.map Beat.wakeAt = [10000700, 20003000, 30000000] ∧
      s.beats.map Beat.deadline = [10000000, 20000000, 30000000] := by
  have hlate : (exec step (started 0) latePass).map (fun s => s.beats.map Beat.wakeAt) =
      some [10000000, 41000000, 51000200, 61000300] := by decide +kernel
  have hdelayed : (exec step (started 0) delayedPass).map (fun s => s.beats.map Beat.wakeAt) =
      some [10000700, 20003000, 30000000] := by decide +kernel
  obtain ⟨s, hs, hbeats⟩ := Option.map_eq_some_iff.mp hlate
  obtain ⟨t, ht, htbeats⟩ := Option.map_eq_some_iff.mp hdelayed
  have hpunctual : Along step Punctual (started 0) delayedPass := by decide +kernel
  have hdeadlines := (no_bursts_no_drift 0 delayedPass t ht).2 hpunctual
  have hlength : t.beats.length = 3 := by
    rw [← List.length_map (f := Beat.wakeAt), htbeats]
    rfl
  rw [hlength] at hdeadlines
  exact ⟨⟨s, hs, hbeats, (no_bursts_no_drift 0 latePass s hs).1 41000000 10000200⟩,
    t, ht, htbeats, hdeadlines⟩

end FrameScheduler

end SessionServer.ContentLib
