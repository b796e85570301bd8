/-
  ContentLib/CancelRun.lean --- what a disconnect cancels.

  `Disconnect` sets `_dFlag` and cancels the I/O outstanding at that moment.  An I/O that
  is posted later is cancelled by whoever posts it: `RecvPost` and `SendPost` look at the
  flag again once the call has returned, and `AcceptThread` does not.
-/
import SessionServer.ContentLib.SlotRun

set_option autoImplicit false

namespace SessionServer.ContentLib

open SessionServer.Foundation ContentLib.Frame

/-! ## Frames -/

namespace Frame

/-- `AcceptThread` with a client. -/
def accepting : Frame → Nat
  | pop => 1
  | accept _ _ => 1
  | _ => 0

/-- `AcceptThread` between storing a session ID and the increment of `_sessionKey`. -/
def naming : Frame → Bool
  | accept _ .time => true
  | accept _ .firstRecv => true
  | accept _ .sendFlag => true
  | accept _ .inc => true
  | accept _ .and => true
  | accept _ .contentsNum => true
  | accept _ .dFlag => true
  | accept _ .sessionKey => true
  | _ => false

/-- The slot on which the frame is about to cancel what is outstanding, or to look at
`_dFlag` for that. -/
def watches : Frame → Option Nat
  | disconnect id .cancel => some (findSession id)
  | recvPost i .recheck => some i
  | recvPost i .cancel => some i
  | sendPost i .recheck => some i
  | sendPost i .cancel => some i
  | _ => none

/-- The slot on which the frame posts an I/O, or a `Disconnect` is about to cancel. -/
def posts : Frame → Option Nat
  | disconnect id .cancel => some (findSession id)
  | recvPost i _ => some i
  | sendPost i _ => some i
  | accept i _ => some i
  | _ => none

theorem watches_posts {frame : Frame} {i : Nat} (h : frame.watches = some i) :
    frame.posts = some i := by
  unfold watches at h
  split at h <;> first
    | exact h
    | simp at h

end Frame

/-! ## Disconnected sessions -/

/-- The server, and the sessions whose `Disconnect` has set `_dFlag`. -/
structure Marking where
  server : ContentsServer
  marked : List SessionID

/-- The session a step marks. -/
def ContentsServer.marks (s : ContentsServer) (step : Step) : Option SessionID :=
  match s.top step with
  | some (.disconnect id .mark) => some id
  | _ => none

def markingStep (cfg : Config) (m : Marking) (step : Step) : Option Marking :=
  (serverStep cfg m.server step).map fun server =>
    ⟨server, (m.server.marks step).toList ++ m.marked⟩

def startedMarking (cfg : Config) (others : Nat) : Marking := ⟨startedServer cfg others, []⟩

namespace Marking

/-- Nobody is posting on the slot, and no `Disconnect` has still to cancel there. -/
def Settled (m : Marking) (i : Nat) : Prop :=
  ∀ frame, Present m.server.threads frame → frame.posts ≠ some i

/-- **No disconnect is lost**: once a `Disconnect` has set `_dFlag` of a session and every
posting step has completed, each I/O outstanding for the session has been cancelled after
it was posted. -/
def NothingLost (m : Marking) : Prop :=
  ∀ id ∈ m.marked, (m.server.sessionArray (findSession id)).sessionID = id →
    m.Settled (findSession id) →
    ∀ io ∈ (m.server.sessionArray (findSession id)).io, io.pending = true → io.cancelled = true

/-- What `AcceptThread` may do with the session of a slot: it does not reset `_dFlag` after
a `Disconnect` of the session has set it, and it leaves no receive outstanding then, unless
a `Disconnect` has still to cancel on the slot. -/
def Rechecked (m : Marking) : Step → Prop
  | .run t _ outcome =>
      match m.server.threads[t]? with
      | some (.accept i .dFlag :: _) => (m.server.sessionArray i).sessionID ∉ m.marked
      | some (.accept i .wsaRecv :: _) =>
          outcome = .pending → (m.server.sessionArray i).sessionID ∈ m.marked →
            Present m.server.threads (.disconnect (m.server.sessionArray i).sessionID .cancel)
      | _ => True
  | _ => True

/-- The slot whose mark a frame is about to clear for the next client. -/
def reopening : Frame → Option Nat
  | .accept i .dFlag => some i
  | _ => none

/-- The slot whose first receive a frame is about to post. -/
def receiving : Frame → Option Nat
  | .accept i .wsaRecv => some i
  | _ => none

theorem rechecked_run_iff {m : Marking} {t : Nat} {now : UInt64} {outcome : Outcome} :
    m.Rechecked (.run t now outcome) ↔
      (∀ i ∈ (m.server.threads[t]?.bind List.head?).bind reopening,
        (m.server.sessionArray i).sessionID ∉ m.marked) ∧
      ∀ i ∈ (m.server.threads[t]?.bind List.head?).bind receiving,
        outcome = .pending → (m.server.sessionArray i).sessionID ∈ m.marked →
          Present m.server.threads (.disconnect (m.server.sessionArray i).sessionID .cancel) := by
  simp only [Rechecked]
  split
  · rename_i hstack
    simp [hstack, reopening, receiving]
  · rename_i hstack
    simp [hstack, reopening, receiving]
  · rename_i hclear hpost
    cases hstack : m.server.threads[t]? with
    | none => simp
    | some stack =>
        cases stack with
        | nil => simp
        | cons frame rest =>
            have hreopening : reopening frame = none := by
              unfold reopening
              split
              · exact absurd hstack (hclear _ _)
              · rfl
            have hreceiving : receiving frame = none := by
              unfold receiving
              split
              · exact absurd hstack (hpost _ _)
              · rfl
            simp [hreopening, hreceiving]

instance (m : Marking) : (step : Step) → Decidable (m.Rechecked step)
  | .run _ _ _ => decidable_of_iff _ rechecked_run_iff.symm
  | .accept => instDecidableTrue
  | .take _ _ => instDecidableTrue
  | .complete _ _ _ _ => instDecidableTrue
  | .call _ _ => instDecidableTrue
  | .kick _ => instDecidableTrue
  | .sweep _ _ => instDecidableTrue

end Marking

variable {cfg : Config} {s s' : ContentsServer} {frame : Frame} {i t : Nat} {rest : List Frame}

/-! ## One accept at a time -/

/-- `AcceptThread` is thread 0, and has one client at a time. -/
def Single (s : ContentsServer) : Prop :=
  ∀ t stack, s.threads[t]? = some stack → (stack.map accepting).sum ≤ if t = 0 then 1 else 0

theorem Next.accepting {next : Frame} (h : Next s frame next) (hzero : frame.accepting = 0) :
    next.accepting = 0 := by
  cases h with
  | pop => simp [Frame.accepting] at hzero
  | _ => first | rfl | exact hzero

theorem runFrame_accepting (now : UInt64) (outcome : Outcome) (frame : Frame) :
    ((s.runFrame cfg now outcome frame).2.map accepting).sum ≤ frame.accepting := by
  have hother : frame.accepting = 0 →
      ((s.runFrame cfg now outcome frame).2.map accepting).sum ≤ frame.accepting := by
    intro hzero
    rw [hzero, Nat.le_zero]
    exact sum_map_zero fun next hnext => (runFrame_next hnext).accepting hzero
  cases frame with
  | pop =>
      simp only [ContentsServer.runFrame, ContentsServer.popStep]
      split <;> simp [accepting]
  | accept i pc =>
      cases pc <;> simp only [ContentsServer.runFrame, ContentsServer.acceptStep] <;> try split
      all_goals simp [accepting]
  | _ => exact hother rfl

theorem single_started (cfg : Config) (others : Nat) : Single (startedServer cfg others) := by
  intro t stack hstack
  simp only [startedServer] at hstack
  rw [(List.mem_replicate.mp (List.mem_of_getElem? hstack)).2]
  simp

theorem Single.step {step : Step} (h : Single s) (hstep : Served cfg s step s') : Single s' := by
  have hset : ∀ {t : Nat} {old new : List Frame}, s.threads[t]? = some old →
      (new.map accepting).sum ≤ (old.map accepting).sum →
      ∀ k stack, (s.threads.set t new)[k]? = some stack →
        (stack.map accepting).sum ≤ if k = 0 then 1 else 0 := by
    intro t old new hold hle k stack hk
    rcases getElem?_set_cases hk with ⟨rfl, rfl⟩ | ⟨_, hkeep⟩
    · exact Nat.le_trans hle (h k old hold)
    · exact h k stack hkeep
  cases hstep with
  | run t now outcome frame rest hstack =>
      have hran : Ran cfg s frame _ _ := runFrame_ran now outcome frame
      have hframes := @runFrame_accepting cfg s now outcome frame
      intro k stack hk
      rw [ContentsServer.start, hran.threads] at hk
      refine hset hstack ?_ k stack hk
      simp only [List.map_append, List.sum_append, List.map_cons, List.sum_cons]
      omega
  | accept hstack =>
      intro k stack hk
      rcases getElem?_set_cases hk with ⟨rfl, rfl⟩ | ⟨_, hkeep⟩
      · simp [accepting]
      · exact h k stack hkeep
  | take t n message hstack hmessage =>
      refine hset hstack ?_
      cases message <;> simp [Message.frame, accepting]
  | complete t i n io success hstack hio =>
      refine hset hstack ?_
      refine completionFrame_cases i io success ?_ ?_ ?_ <;> simp [accepting]
  | call t call stack hissued hstack htop =>
      refine hset hstack ?_
      cases call <;> simp [Call.frame, accepting]
  | kick t i rest hstack => exact hset hstack (by simp [accepting])
  | sweep regular now hstack => exact hset hstack (by simp [accepting])

/-- No other frame names a session while one is accepted. -/
theorem Single.only (h : Single s) (hstack : s.threads[t]? = some (frame :: rest))
    (hframe : frame.accepting = 1) {other : Frame} (hother : Present s.threads other)
    (haccepting : other.accepting = 1) : other = frame := by
  obtain ⟨stack, hmem, hin⟩ := hother
  obtain ⟨k, hk⟩ := List.getElem?_of_mem hmem
  have hone := h t _ hstack
  have hle := h k _ hk
  have hweight := le_sum_of_mem (w := accepting) hin
  simp only [List.map_cons, List.sum_cons, hframe] at hone
  rw [haccepting] at hweight
  have ht : t = 0 := by
    by_contra hne
    rw [if_neg hne] at hone
    omega
  have hk0 : k = 0 := by
    by_contra hne
    rw [if_neg hne] at hle
    omega
  subst ht hk0
  rw [hstack, Option.some.injEq] at hk
  rw [← hk] at hin
  rcases List.mem_cons.mp hin with rfl | hrest
  · rfl
  · have := le_sum_of_mem (w := accepting) hrest
    rw [haccepting] at this
    rw [if_pos rfl] at hone
    omega

theorem naming_accepting (h : frame.naming = true) : frame.accepting = 1 := by
  unfold naming at h
  split at h <;> first | rfl | simp at h

/-! ## Session keys -/

/-- The key of the ID has been used: it is below `_sessionKey`, or `AcceptThread` has
stored it and is about to increment. -/
def GivenOut (s : ContentsServer) (id : SessionID) : Prop :=
  id.key < s.sessionKey ∨
    id.key = s.sessionKey ∧ ∃ frame, Present s.threads frame ∧ frame.naming = true

/-- A frame that names a session goes on doing so until the increment. -/
theorem naming_goes_on (now : UInt64) (outcome : Outcome) (h : frame.naming = true) :
    (∃ next ∈ (s.runFrame cfg now outcome frame).2, next.naming = true) ∨
      (s.runFrame cfg now outcome frame).1.sessionKey = s.sessionKey + 1 := by
  cases frame with
  | accept i pc =>
      cases pc with
      | sessionKey => exact Or.inr rfl
      | time | firstRecv | sendFlag | inc | and | contentsNum | dFlag =>
          exact Or.inl ⟨_, List.mem_singleton.mpr rfl, rfl⟩
      | _ => simp [naming] at h
  | _ => simp [naming] at h

theorem GivenOut.run {id : SessionID} (h : GivenOut s id)
    (hstack : s.threads[t]? = some (frame :: rest)) (now : UInt64) (outcome : Outcome) :
    GivenOut ((s.runFrame cfg now outcome frame).1.start t
      ((s.runFrame cfg now outcome frame).2 ++ rest)) id := by
  have hran : Ran cfg s frame _ _ := runFrame_ran now outcome frame
  have hkey := hran.sessionKey
  rcases h with hlt | ⟨heq, other, hother, hnaming⟩
  · exact Or.inl (Nat.lt_of_lt_of_le hlt hkey)
  · rcases Nat.lt_or_eq_of_le hkey with hlt | hsame
    · exact Or.inl (heq ▸ hlt)
    · refine Or.inr ⟨heq.trans hsame, ?_⟩
      simp only [ContentsServer.start, hran.threads]
      rcases hother.kept (s.runFrame cfg now outcome frame).2 hstack with rfl | hkept
      · rcases @naming_goes_on cfg s other now outcome hnaming with
          ⟨next, hnext, hnextNaming⟩ | hnextKey
        · exact ⟨next, Present.added hstack (List.mem_append_left _ hnext), hnextNaming⟩
        · omega
      · exact ⟨other, hkept, hnaming⟩

/-- The IDs that are known anywhere have been given out. -/
structure Keyed (m : Marking) : Prop where
  slots : ∀ i, GivenOut m.server (m.server.sessionArray i).sessionID
  calls : ∀ id, Present m.server.threads (.disconnect id .mark) → GivenOut m.server id
  marked : ∀ id ∈ m.marked, GivenOut m.server id

theorem keyed_started (cfg : Config) (others : Nat) : Keyed (startedMarking cfg others) where
  slots _ := Or.inl Nat.zero_lt_one
  calls := by
    exact fun id hpresent => absurd hpresent (not_present_started cfg others _)
  marked := by simp [startedMarking]

/-- The ID that `AcceptThread` is about to store is not known. -/
theorem Single.fresh {m : Marking} (h : Single m.server) (hkeyed : Keyed m)
    (hstack : m.server.threads[t]? = some (.accept i .sessionID :: rest)) :
    (⟨i, m.server.sessionKey⟩ : SessionID) ∉ m.marked := by
  intro hmem
  rcases hkeyed.marked _ hmem with hlt | ⟨_, other, hother, hnaming⟩
  · exact Nat.lt_irrefl _ hlt
  · rw [h.only hstack rfl hother (naming_accepting hnaming)] at hnaming
    simp [naming] at hnaming

theorem marks_run (hstack : s.threads[t]? = some (frame :: rest)) (now : UInt64)
    (outcome : Outcome) {id : SessionID} :
    s.marks (.run t now outcome) = some id ↔ frame = .disconnect id .mark := by
  simp only [ContentsServer.marks, ContentsServer.top, hstack, Option.bind_some, List.head?_cons]
  split
  · rename_i id' heq
    rw [Option.some.injEq] at heq
    subst heq
    simp
  · rename_i hnot
    constructor
    · simp
    · rintro rfl
      exact absurd rfl (hnot id)

theorem marks_start {step : Step} (h : ∀ t now outcome, step ≠ .run t now outcome) :
    s.marks step = none := by
  cases step with
  | run t now outcome => exact absurd rfl (h t now outcome)
  | _ => rfl

theorem Began.givenOut {first : Frame} {stack : List Frame} {id : SessionID}
    (h : Began s s' first) (hkey : s'.sessionKey = s.sessionKey)
    (hstack : s.threads[t]? = some stack) (hid : GivenOut s id) :
    GivenOut (s'.start t (first :: stack)) id := by
  rcases hid with hlt | ⟨heq, other, hother, hnaming⟩
  · exact Or.inl (by rw [ContentsServer.start, hkey]; exact hlt)
  · refine Or.inr ⟨heq.trans hkey.symm, other, ?_, hnaming⟩
    rw [ContentsServer.start, h.threads]
    exact hother.under [first] hstack

theorem Served.sessionKey {step : Step} (h : Served cfg s step s')
    (hstart : ∀ t now outcome, step ≠ .run t now outcome) : s'.sessionKey = s.sessionKey := by
  cases h with
  | run t now outcome frame rest hstack => exact absurd rfl (hstart t now outcome)
  | _ => rfl

/-- What the server becomes, with the session the step has marked. -/
def Marking.next (m : Marking) (step : Step) (server : ContentsServer) : Marking :=
  ⟨server, (m.server.marks step).toList ++ m.marked⟩

theorem Keyed.step {m : Marking} {step : Step} (h : Keyed m)
    (hstep : Served cfg m.server step s') : Keyed (m.next step s') := by
  have hkey := hstep.sessionKey
  revert hkey
  refine hstep.cases_run (P := fun s' => ((∀ t now outcome, step ≠ .run t now outcome) →
    s'.sessionKey = m.server.sessionKey) → Keyed (m.next step s')) ?_ ?_
  · rintro t now outcome frame rest rfl hstack -
    have hran : Ran cfg m.server frame _ _ := runFrame_ran now outcome frame
    refine ⟨fun i => ?_, fun id hcall => ?_, fun id hid => ?_⟩
    · rcases hran.sessionID i with hsame | ⟨rfl, hnew, hframes⟩
      · simp only [Marking.next, ContentsServer.start]
        rw [hsame]
        exact (h.slots i).run hstack now outcome
      · refine Or.inr ⟨?_, .accept i .time, ?_, rfl⟩
        · simp only [Marking.next, ContentsServer.start]
          rw [hnew]
          rfl
        · simp only [Marking.next, ContentsServer.start, hran.threads, hframes]
          exact Present.added hstack (List.mem_cons_self)
    · simp only [Marking.next, ContentsServer.start, hran.threads] at hcall
      refine GivenOut.run ?_ hstack now outcome
      rcases Present.of_set_cons hstack hcall with hnew | ⟨hold, _⟩
      · cases runFrame_next hnew with
        | disconnectMark _ hid => exact hid ▸ h.slots (findSession id)
      · exact h.calls id hold
    · refine GivenOut.run ?_ hstack now outcome
      rcases List.mem_append.mp hid with hnew | hold
      · rw [Option.mem_toList, marks_run hstack] at hnew
        exact h.calls id (hnew ▸ present_of_getElem? hstack List.mem_cons_self)
      · exact h.marked id hold
  · intro t stack first u hnot hstack _ hbegan hkey
    have hsame : u.sessionKey = m.server.sessionKey := hkey hnot
    refine ⟨fun i => ?_, fun id hcall => ?_, fun id hid => ?_⟩
    · simp only [Marking.next, ContentsServer.start]
      obtain ⟨io, _, heq⟩ := hbegan.session i
      rw [heq]
      exact hbegan.givenOut hsame hstack (h.slots i)
    · simp only [Marking.next, ContentsServer.start, hbegan.threads] at hcall
      refine hbegan.givenOut hsame hstack ?_
      rcases Present.of_set_append [first] hstack hcall with hnew | hold
      · have hfirst := hbegan.begins
        rw [← List.mem_singleton.mp hnew] at hfirst
        simp [Frame.begins] at hfirst
      · exact h.calls id hold
    · refine hbegan.givenOut hsame hstack ?_
      rw [Marking.next, marks_start hnot] at hid
      exact h.marked id hid

/-! ## Flags and I/O -/

/-- Only `AcceptThread` clears `_dFlag`. -/
theorem Wrote.dFlag {write : Session → Session} (h : Wrote frame write) {x : Session}
    (hflag : x.dFlag = true) : (write x).dFlag = true ∨ ∃ i, frame = .accept i .dFlag := by
  cases h with
  | acceptDFlag i => exact Or.inr ⟨i, rfl⟩
  | mark | dead => exact Or.inl rfl
  | _ => exact Or.inl hflag

theorem runFrame_dFlag (cfg : Config) (now : UInt64) (outcome : Outcome)
    (hflag : (s.sessionArray i).dFlag = true) (hframe : frame ≠ .accept i .dFlag) :
    ((s.runFrame cfg now outcome frame).1.sessionArray i).dFlag = true := by
  obtain ⟨write, hupdated⟩ := runFrame_updated cfg s now outcome frame
  by_cases hslot : frame.slot = some i
  · rw [hupdated.here i hslot]
    rcases hupdated.wrote.dFlag hflag with hkept | ⟨j, rfl⟩
    · exact hkept
    · obtain rfl : j = i := Option.some.inj hslot
      exact absurd rfl hframe
  · rw [hupdated.there i hslot]
    exact hflag

/-- An I/O is outstanding after a post: it was, or it is the one posted. -/
theorem mem_postIo {j : Nat} {send pending : Bool} {buffers : List Tag} {io : Io}
    (h : io ∈ ((s.postIo j send buffers pending).sessionArray i).io) :
    io ∈ (s.sessionArray i).io ∨ (i = j ∧ io = ⟨send, buffers, pending, false⟩) := by
  by_cases hij : i = j
  · subst hij
    rw [ContentsServer.postIo, ContentsServer.modify_self] at h
    exact (List.mem_cons.mp h).symm.imp id fun heq => ⟨rfl, heq⟩
  · rw [ContentsServer.postIo, s.modify_of_ne hij] at h
    exact Or.inl h

/-- The I/O of a session is written by the cancels and by the three calls that post. -/
theorem Wrote.io {write : Session → Session} (h : Wrote frame write) (x : Session) :
    (write x).io = x.io ∨ (∀ io ∈ (write x).io, io.cancelled = true) ∨
      (∃ j, frame = .recvPost j .wsaRecv) ∨ (∃ j k, frame = .sendPost j (.wsaSend k)) ∨
      ∃ j, frame = .accept j .wsaRecv := by
  cases h with
  | cancel frame hcancel =>
      refine Or.inr (Or.inl fun io hio => ?_)
      obtain ⟨old, _, rfl⟩ := List.mem_map.mp hio
      rfl
  | wsaRecv j pending => exact Or.inr (Or.inr (Or.inl ⟨j, rfl⟩))
  | wsaSend j k buffers pending => exact Or.inr (Or.inr (Or.inr (Or.inl ⟨j, k, rfl⟩)))
  | acceptWsaRecv j pending => exact Or.inr (Or.inr (Or.inr (Or.inr ⟨j, rfl⟩)))
  | _ => exact Or.inl rfl

/-- **Where an I/O that is pending and not cancelled comes from**: it was outstanding, or
whoever has posted it looks at `_dFlag` next, or it is the first receive. -/
theorem runFrame_io {now : UInt64} {outcome : Outcome} {io : Io}
    (hio : io ∈ ((s.runFrame cfg now outcome frame).1.sessionArray i).io)
    (hpending : io.pending = true) (hcancelled : io.cancelled = false) :
    io ∈ (s.sessionArray i).io ∨
      (∃ next ∈ (s.runFrame cfg now outcome frame).2, next.watches = some i) ∨
      (frame = .accept i .wsaRecv ∧ outcome = .pending) := by
  obtain ⟨write, hupdated⟩ := runFrame_updated cfg s now outcome frame
  by_cases hslot : frame.slot = some i
  · have hwritten := hupdated.wrote.io (s.sessionArray i)
    rw [← hupdated.here i hslot] at hwritten
    rcases hwritten with hsame | hall | ⟨j, rfl⟩ | ⟨j, k, rfl⟩ | ⟨j, rfl⟩
    · exact Or.inl (hsame ▸ hio)
    · rw [hall io hio] at hcancelled
      simp at hcancelled
    · cases outcome with
      | done => exact (mem_postIo hio).imp id fun ⟨_, heq⟩ => by simp [heq] at hpending
      | pending =>
          refine (mem_postIo hio).imp id fun ⟨heq, _⟩ => Or.inl ?_
          exact ⟨.recvPost j .recheck, List.mem_singleton.mpr rfl, by rw [heq]; rfl⟩
      | failed => exact Or.inl hio
    · cases outcome with
      | done => exact (mem_postIo hio).imp id fun ⟨_, heq⟩ => by simp [heq] at hpending
      | pending =>
          refine (mem_postIo hio).imp id fun ⟨heq, _⟩ => Or.inl ?_
          exact ⟨.sendPost j .recheck, List.mem_singleton.mpr rfl, by rw [heq]; rfl⟩
      | failed => exact Or.inl hio
    · cases outcome with
      | done => exact (mem_postIo hio).imp id fun ⟨_, heq⟩ => by simp [heq] at hpending
      | pending => exact (mem_postIo hio).imp id fun ⟨heq, _⟩ => Or.inr ⟨heq ▸ rfl, rfl⟩
      | failed => exact Or.inl hio
  · rw [hupdated.there i hslot] at hio
    exact Or.inl hio

/-- A frame that watches a slot whose `_dFlag` is set cancels there, now or next. -/
theorem watches_goes_on (cfg : Config) (now : UInt64) (outcome : Outcome)
    (h : frame.watches = some i) (hflag : (s.sessionArray i).dFlag = true) :
    (∀ io ∈ ((s.runFrame cfg now outcome frame).1.sessionArray i).io, io.cancelled = true) ∨
      ∃ next ∈ (s.runFrame cfg now outcome frame).2, next.watches = some i := by
  have hcancel : ∀ io ∈ ((s.cancelIoEx i).sessionArray i).io, io.cancelled = true := by
    intro io hio
    rw [ContentsServer.cancelIoEx, ContentsServer.modify_self] at hio
    obtain ⟨old, _, rfl⟩ := List.mem_map.mp hio
    rfl
  unfold watches at h
  split at h <;> simp only [Option.some.injEq, reduceCtorEq] at h <;> subst h
  · exact Or.inl hcancel
  · refine Or.inr ⟨.recvPost _ .cancel, ?_, rfl⟩
    simp only [ContentsServer.runFrame, ContentsServer.recvPostStep, hflag, if_true,
      List.mem_singleton]
  · exact Or.inl hcancel
  · refine Or.inr ⟨.sendPost _ .cancel, ?_, rfl⟩
    simp only [ContentsServer.runFrame, ContentsServer.sendPostStep, hflag, if_true,
      List.mem_singleton]
  · exact Or.inl hcancel

/-! ## The run -/

/-- The flag of a marked session stays set, and somebody watches each I/O of it that is
pending and not cancelled. -/
structure Watched (m : Marking) (id : SessionID) : Prop where
  dFlag : (m.server.sessionArray (findSession id)).dFlag = true
  io : ∀ io ∈ (m.server.sessionArray (findSession id)).io, io.pending = true →
    io.cancelled = false →
    ∃ frame, Present m.server.threads frame ∧ frame.watches = some (findSession id)

def AllWatched (m : Marking) : Prop :=
  ∀ id ∈ m.marked, (m.server.sessionArray (findSession id)).sessionID = id → Watched m id

/-- Who watches a slot whose flag is set is there after a step, or everything is
cancelled. -/
theorem watcher_kept {other : Frame} (hstack : s.threads[t]? = some (frame :: rest))
    (now : UInt64) (outcome : Outcome) (hother : Present s.threads other)
    (hwatches : other.watches = some i) (hflag : (s.sessionArray i).dFlag = true) :
    (∀ io ∈ ((s.runFrame cfg now outcome frame).1.sessionArray i).io, io.cancelled = true) ∨
      ∃ frame', Present (s.threads.set t ((s.runFrame cfg now outcome frame).2 ++ rest)) frame' ∧
        frame'.watches = some i := by
  rcases hother.kept (s.runFrame cfg now outcome frame).2 hstack with rfl | hkept
  · refine (watches_goes_on cfg now outcome hwatches hflag).imp id ?_
    rintro ⟨next, hnext, hnextWatches⟩
    exact ⟨next, Present.added hstack (List.mem_append_left _ hnext), hnextWatches⟩
  · exact Or.inr ⟨other, hkept, hwatches⟩

theorem AllWatched.run {m : Marking} (h : AllWatched m) (hsingle : Single m.server)
    (hkeyed : Keyed m) (hstack : m.server.threads[t]? = some (frame :: rest)) (now : UInt64)
    (outcome : Outcome) (hok : m.Rechecked (.run t now outcome)) :
    AllWatched (m.next (.run t now outcome)
      ((m.server.runFrame cfg now outcome frame).1.start t
        ((m.server.runFrame cfg now outcome frame).2 ++ rest))) := by
  have hran : Ran cfg m.server frame _ _ := runFrame_ran now outcome frame
  intro id hid hsession
  simp only [Marking.next, ContentsServer.start] at hsession
  by_cases hmark : frame = .disconnect id .mark
  · subst hmark
    refine ⟨?_, fun _ _ _ _ => ⟨.disconnect id .cancel, ?_, rfl⟩⟩
    · simp [Marking.next, ContentsServer.start, ContentsServer.runFrame,
        ContentsServer.disconnectStep, ContentsServer.setDFlag, ContentsServer.modify_self]
    · exact Present.added hstack (List.mem_cons_self)
  · have hold : id ∈ m.marked := by
      rcases List.mem_append.mp hid with hnew | hold
      · rw [Option.mem_toList, marks_run hstack] at hnew
        exact absurd hnew hmark
      · exact hold
    have hsame : (m.server.sessionArray (findSession id)).sessionID = id := by
      rcases hran.sessionID (findSession id) with hsame | ⟨rfl, hnew, _⟩
      · exact hsame ▸ hsession
      · rw [hsession] at hnew
        exact absurd (hnew ▸ hold) (hsingle.fresh hkeyed hstack)
    have hwatched := h id hold hsame
    refine ⟨runFrame_dFlag cfg now outcome hwatched.dFlag ?_, ?_⟩
    · rintro rfl
      simp only [Marking.Rechecked, hstack, hsame] at hok
      exact hok hold
    · intro io hio hpending hcancelled
      simp only [Marking.next, ContentsServer.start, hran.threads] at hio ⊢
      have hkept : ∀ other, Present m.server.threads other →
          other.watches = some (findSession id) →
          ∃ frame', Present (m.server.threads.set t
            ((m.server.runFrame cfg now outcome frame).2 ++ rest)) frame' ∧
            frame'.watches = some (findSession id) := by
        intro other hother hwatches
        rcases @watcher_kept cfg _ _ _ _ _ _ hstack now outcome hother hwatches hwatched.dFlag with
          hall | hsome
        · rw [hall io hio] at hcancelled
          simp at hcancelled
        · exact hsome
      rcases runFrame_io hio hpending hcancelled with hold' | ⟨next, hnext, hwatches⟩ | ⟨rfl, rfl⟩
      · obtain ⟨other, hother, hwatches⟩ := hwatched.io io hold' hpending hcancelled
        exact hkept other hother hwatches
      · exact ⟨next, Present.added hstack (List.mem_append_left _ hnext), hwatches⟩
      · simp only [Marking.Rechecked, hstack, hsame] at hok
        exact hkept _ (hok trivial hold) rfl

theorem AllWatched.step {m : Marking} {step : Step} (h : AllWatched m) (hsingle : Single m.server)
    (hkeyed : Keyed m) (hok : m.Rechecked step) (hstep : Served cfg m.server step s') :
    AllWatched (m.next step s') := by
  refine hstep.cases_run (P := fun s' => AllWatched (m.next step s')) ?_ ?_
  · rintro t now outcome frame rest rfl hstack
    exact h.run hsingle hkeyed hstack now outcome hok
  · intro t stack first u hnot hstack _ hbegan id hid hsession
    rw [Marking.next, marks_start hnot] at hid
    obtain ⟨io, hsub, heq⟩ := hbegan.session (findSession id)
    simp only [Marking.next, ContentsServer.start, heq] at hsession
    obtain ⟨hflag, hio⟩ := h id hid hsession
    refine ⟨?_, fun one hone hpending hcancelled => ?_⟩
    · simpa only [Marking.next, ContentsServer.start, heq] using hflag
    · simp only [Marking.next, ContentsServer.start, heq] at hone
      obtain ⟨other, hother, hwatches⟩ := hio one (hsub.subset hone) hpending hcancelled
      refine ⟨other, ?_, hwatches⟩
      simp only [Marking.next, ContentsServer.start, hbegan.threads]
      exact hother.under [first] hstack

/-- **No disconnect is lost** in a run in which `AcceptThread` neither resets `_dFlag` nor
posts its receive after a `Disconnect` of its session. -/
theorem disconnects_not_lost (cfg : Config) (others : Nat) (steps : List Step) (m : Marking)
    (hok : Along (markingStep cfg) Marking.Rechecked (startedMarking cfg others) steps)
    (h : exec (markingStep cfg) (startedMarking cfg others) steps = some m) : m.NothingLost := by
  have hinv : Single m.server ∧ Keyed m ∧ AllWatched m := by
    refine exec_invariant_along (I := fun m => Single m.server ∧ Keyed m ∧ AllWatched m) ?_
      ⟨single_started cfg others, keyed_started cfg others, by simp [AllWatched, startedMarking]⟩
      hok h
    rintro m step m' ⟨hsingle, hkeyed, hwatched⟩ hok hstep
    obtain ⟨server, hserver, rfl⟩ := Option.map_eq_some_iff.mp hstep
    have hserved := serverStep_served hserver
    exact ⟨hsingle.step hserved, hkeyed.step hserved, hwatched.step hsingle hkeyed hok hserved⟩
  intro id hid hsession hsettled io hio hpending
  by_contra hcancelled
  obtain ⟨frame, hframe, hwatches⟩ :=
    (hinv.2.2 id hid hsession).io io hio hpending (by simpa using hcancelled)
  exact hsettled frame hframe (watches_posts hwatches)

/-- A client is disconnected while a worker is about to post its next receive. -/
def disconnectedMidway : List Step :=
  accepts ++ .complete 2 0 0 true :: runs 2 5 ++ .call 3 (.disconnect ⟨0, 1⟩) :: runs 3 5 ++
    runs 2 4

theorem disconnectedMidway_cancelled :
    ∃ m, exec (markingStep oneSlot) (startedMarking oneSlot 2) disconnectedMidway = some m ∧
      m.NothingLost ∧ m.marked = [⟨0, 1⟩] ∧
      (m.server.sessionArray 0).io = [⟨false, [], true, true⟩] := by
  have hrun : Along (markingStep oneSlot) Marking.Rechecked (startedMarking oneSlot 2)
        disconnectedMidway ∧
      (exec (markingStep oneSlot) (startedMarking oneSlot 2) disconnectedMidway).map
        (fun m => (m.marked, (m.server.sessionArray 0).io)) =
          some ([⟨0, 1⟩], [⟨false, [], true, true⟩]) := by
    decide +kernel
  obtain ⟨m, hm, heq⟩ := Option.map_eq_some_iff.mp hrun.2
  rw [Prod.mk.injEq] at heq
  exact ⟨m, hm, disconnects_not_lost oneSlot 2 disconnectedMidway m hrun.1 hm, heq.1, heq.2⟩

/-- A sweep whose clock was read before the client's comes between `OnEnter` and the first
receive: the difference of the two readings wraps. -/
def sweptAccept : List Step :=
  .accept :: List.replicate 15 (.run 0 5 .pending) ++ .sweep false 4 :: runs 1 10 ++
    [.run 0 5 .pending]

/-- The client has been disconnected, and its receive stays outstanding. -/
theorem sweptAccept_loses :
    ∃ m, exec (markingStep oneSlot) (startedMarking oneSlot 0) sweptAccept = some m ∧
      ¬ m.NothingLost := by
  have hrun : (exec (markingStep oneSlot) (startedMarking oneSlot 0) sweptAccept).map
      (fun m => (m.marked, m.server.threads, (m.server.sessionArray 0).sessionID,
        (m.server.sessionArray 0).io)) =
          some ([⟨0, 1⟩], [[], []], ⟨0, 1⟩, [⟨false, [], true, false⟩]) := by
    decide +kernel
  obtain ⟨m, hm, heq⟩ := Option.map_eq_some_iff.mp hrun
  simp only [Prod.mk.injEq] at heq
  obtain ⟨hmarked, hthreads, hid, hio⟩ := heq
  refine ⟨m, hm, fun hlost => ?_⟩
  have hsettled : m.Settled 0 := by
    rintro frame ⟨stack, hstack, hframe⟩
    rw [hthreads] at hstack
    simp only [List.mem_cons, List.not_mem_nil, or_false, or_self] at hstack
    rw [hstack] at hframe
    simp at hframe
  have := hlost ⟨0, 1⟩ (by rw [hmarked]; simp) hid hsettled ⟨false, [], true, false⟩
    (by rw [show findSession ⟨0, 1⟩ = 0 from rfl, hio]; simp) rfl
  simp at this

end SessionServer.ContentLib
