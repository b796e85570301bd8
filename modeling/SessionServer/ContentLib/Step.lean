/-
  ContentLib/Step.lean --- what one step of a frame can do.

  Most steps touch nothing that decides who owns a slot.  `Ran` lists the others, with
  how the frames that take the place of the stepping one compare with it.  The run
  results about slots never unfold `runFrame` again.
-/
import SessionServer.ContentLib.Writes
import SessionServer.Foundation.Stacks

set_option autoImplicit false

namespace SessionServer.ContentLib

open SessionServer.Foundation

/-! ## Frames -/

namespace Frame

/-- The references on `_ioCount` a frame holds. -/
def holds : Frame → Nat
  | disconnect _ .inc => 0
  | disconnect _ _ => 1
  | sendPacket _ .inc => 0
  | sendPacket _ _ => 1
  | tryMove _ _ .inc => 0
  | tryMove _ _ _ => 1
  | drop _ _ => 1
  | dead _ _ => 0
  | postRelease _ => 0
  | recv _ _ => 1
  | recvPost _ .wsaRecv => 2
  | recvPost _ _ => 1
  | sent _ _ => 1
  | sendPost _ (.dequeue _) => 1
  | sendPost _ (.take _) => 1
  | sendPost _ (.restore _) => 1
  | sendPost _ (.count _) => 1
  | sendPost _ .reset => 1
  | sendPost _ .resize => 1
  | sendPost _ (.wsaSend _) => 1
  | sendPost _ _ => 0
  | release _ _ => 0
  | pop => 0
  | accept _ .and => 1
  | accept _ .contentsNum => 1
  | accept _ .dFlag => 1
  | accept _ .sessionKey => 1
  | accept _ .onAccept => 1
  | accept _ .enter => 1
  | accept _ .wsaRecv => 1
  | accept _ _ => 0
  | sweep _ _ _ _ => 0

/-- The frame has a slot to itself: the body of `Release`, or `AcceptThread` before it
clears `RELEASEFLAG`. -/
def owns : Frame → Nat
  | release _ .cas => 0
  | release _ _ => 1
  | accept _ .sessionCount => 1
  | accept _ .clear => 1
  | accept _ .clearTake => 1
  | accept _ (.clearDrop _) => 1
  | accept _ .clearRestore => 1
  | accept _ .sessionID => 1
  | accept _ .time => 1
  | accept _ .firstRecv => 1
  | accept _ .sendFlag => 1
  | accept _ .inc => 1
  | accept _ .and => 1
  | _ => 0

/-- `AcceptThread` with a live slot, before `OnAccept`. -/
def entering : Frame → Nat
  | accept _ .contentsNum => 1
  | accept _ .dFlag => 1
  | accept _ .sessionKey => 1
  | accept _ .onAccept => 1
  | _ => 0

/-- The events recorded for the session ID of the slot a frame owns. -/
def progress : Frame → Nat
  | release _ .cas => 0
  | release _ .push => 3
  | release _ _ => 2
  | accept _ .sessionCount => 4
  | accept _ .clear => 4
  | accept _ .clearTake => 4
  | accept _ (.clearDrop _) => 4
  | accept _ .clearRestore => 4
  | accept _ .sessionID => 4
  | _ => 0

/-- The frame has its slot counted in `_sessionCount`, and its session not accepted yet or
released already. -/
def counted : Frame → Nat
  | release _ (.drop _) => 1
  | release _ .zero => 1
  | release _ .clear => 1
  | release _ .clearTake => 1
  | release _ (.clearDrop _) => 1
  | release _ .clearRestore => 1
  | release _ .sessionCount => 1
  | accept _ .sessionCount => 0
  | accept _ .enter => 0
  | accept _ .wsaRecv => 0
  | accept _ _ => 1
  | _ => 0

/-- The slot of the frame has been accepted. -/
def needsArmed (frame : Frame) : Bool :=
  match frame with
  | pop => false
  | sweep _ _ _ _ => false
  | accept _ _ => frame.owns == 0
  | _ => true

/-- The frame holds a reference that was taken while `RELEASEFLAG` was clear. -/
def confirmed (frame : Frame) : Bool :=
  match frame with
  | drop _ _ => false
  | accept _ .and => false
  | _ => 0 < frame.holds

/-- `AcceptThread` between storing the session ID and `OnAccept`. -/
def identified : Frame → Bool
  | accept _ .time => true
  | accept _ .firstRecv => true
  | accept _ .sendFlag => true
  | accept _ .inc => true
  | accept _ .and => true
  | accept _ .contentsNum => true
  | accept _ .dFlag => true
  | accept _ .sessionKey => true
  | accept _ .onAccept => true
  | _ => false

/-- `AcceptThread` about to call `OnAccept`. -/
def renewed : Frame → Bool
  | accept _ .onAccept => true
  | _ => false

/-- The weights of a frame. -/
structure Weights where
  holds : Nat
  owns : Nat
  entering : Nat
  progress : Nat
  counted : Nat

def weights (frame : Frame) : Weights :=
  ⟨frame.holds, frame.owns, frame.entering, frame.progress, frame.counted⟩

/-- What a frame may rely on about its slot. -/
structure Facts where
  slot : Option Nat
  needsArmed : Bool
  confirmed : Bool
  identified : Bool
  renewed : Bool

def facts (frame : Frame) : Facts :=
  ⟨frame.slot, frame.needsArmed, frame.confirmed, frame.identified, frame.renewed⟩

section

variable (i : Nat) (direct : Bool)

@[simp] theorem drop_holds : (drop i direct).holds = 1 := rfl
@[simp] theorem drop_owns : (drop i direct).owns = 0 := rfl
@[simp] theorem drop_entering : (drop i direct).entering = 0 := rfl
@[simp] theorem drop_progress : (drop i direct).progress = 0 := rfl
@[simp] theorem drop_counted : (drop i direct).counted = 0 := rfl
@[simp] theorem drop_confirmed : (drop i direct).confirmed = false := rfl
@[simp] theorem drop_identified : (drop i direct).identified = false := rfl

end

/-- A weight, at one slot. -/
def weightAt (w : Frame → Nat) (i : Nat) (frame : Frame) : Nat :=
  if frame.slot = some i then w frame else 0

end Frame

open ContentLib.Frame

/-! ## What a frame does -/

/-- Two states in which every slot has the same owner, references and session. -/
structure SameCore (s s' : ContentsServer) : Prop where
  sessionID : ∀ i, (s'.sessionArray i).sessionID = (s.sessionArray i).sessionID
  releaseFlag : ∀ i, (s'.sessionArray i).releaseFlag = (s.sessionArray i).releaseFlag
  ioCount : ∀ i, (s'.sessionArray i).ioCount = (s.sessionArray i).ioCount
  io : ∀ i, (s'.sessionArray i).io.length = (s.sessionArray i).io.length
  armed : ∀ i, (s'.sessionArray i).armed = (s.sessionArray i).armed
  indexArray : s'.indexArray = s.indexArray
  sessionCount : s'.sessionCount = s.sessionCount
  sessionKey : s'.sessionKey = s.sessionKey
  queue : s'.queue = s.queue
  threads : s'.threads = s.threads
  issued : s'.issued = s.issued
  history : s'.history = s.history

theorem SameCore.refl (s : ContentsServer) : SameCore s s := by
  constructor <;> intros <;> rfl

theorem ContentsServer.modify_sameCore (s : ContentsServer) (i : Nat) {write : Session → Session}
    (h : ∀ x, (write x).sessionID = x.sessionID ∧ (write x).releaseFlag = x.releaseFlag ∧
      (write x).ioCount = x.ioCount ∧ (write x).io.length = x.io.length ∧
      (write x).armed = x.armed) :
    SameCore s (s.modify i write) := by
  have hcases : ∀ j, (s.modify i write).sessionArray j = s.sessionArray j ∨
      (s.modify i write).sessionArray j = write (s.sessionArray j) := by
    intro j
    by_cases hj : j = i
    · subst hj
      exact Or.inr (by simp [ContentsServer.modify])
    · exact Or.inl (by simp [ContentsServer.modify, hj])
  constructor <;> try rfl
  all_goals
    intro j
    rcases hcases j with hj | hj <;> rw [hj]
  · exact (h _).1
  · exact (h _).2.1
  · exact (h _).2.2.1
  · exact (h _).2.2.2.1
  · exact (h _).2.2.2.2

/-- What a frame that takes the place of another may rely on. -/
structure Follows (frame next : Frame) : Prop where
  slot : next.slot = frame.slot
  armed : next.needsArmed → frame.needsArmed
  identified : next.identified → frame.identified
  renewed : next.renewed = false

/-- The same weights, but for the references. -/
structure SameRest (frame : Frame) (frames : List Frame) : Prop where
  owns : (frames.map Frame.owns).sum = frame.owns
  entering : (frames.map Frame.entering).sum = frame.entering
  progress : (frames.map Frame.progress).sum = frame.progress
  counted : (frames.map Frame.counted).sum = frame.counted

/-- **Everything a step of a frame can do** to the owners, references and sessions of the
slots, with the frames that take its place. -/
inductive Ran (cfg : Config) (s : ContentsServer) : Frame → ContentsServer → List Frame → Prop where
  | quiet (frame : Frame) (s' : ContentsServer) (frames : List Frame) (hsame : SameCore s s')
      (hfollows : ∀ next ∈ frames, Follows frame next ∧ (next.confirmed → frame.confirmed))
      (hrest : SameRest frame frames)
      (hholds : (frames.map Frame.holds).sum = frame.holds) : Ran cfg s frame s' frames
  | increment (frame : Frame) (i : Nat) (frames : List Frame) (hslot : frame.slot = some i)
      (hfollows : ∀ next ∈ frames, Follows frame next ∧
        (next.confirmed → frame.confirmed ∨ (s.sessionArray i).releaseFlag = false))
      (hrest : SameRest frame frames)
      (hholds : (frames.map Frame.holds).sum = frame.holds + 1) :
      Ran cfg s frame (s.increment i) frames
  | decrement (i : Nat) (direct : Bool) (frames : List Frame)
      (hframes : frames = [] ∨ frames = [.dead i direct]) :
      Ran cfg s (.drop i direct) (s.decrement i) frames
  | post (frame : Frame) (i : Nat) (message : Message) (frames : List Frame)
      (hslot : frame.slot = some i) (hmessage : message.slot = i) (harmed : frame.needsArmed)
      (hfollows : ∀ next ∈ frames, Follows frame next ∧ (next.confirmed → frame.confirmed))
      (hrest : SameRest frame frames)
      (hholds : (frames.map Frame.holds).sum = frame.holds) :
      Ran cfg s frame (s.post message) frames
  | postIo (frame : Frame) (i : Nat) (send : Bool) (buffers : List Tag) (pending : Bool)
      (frames : List Frame) (hslot : frame.slot = some i) (hconfirmed : frame.confirmed)
      (hfollows : ∀ next ∈ frames, Follows frame next ∧ (next.confirmed → frame.confirmed))
      (hrest : SameRest frame frames)
      (hholds : (frames.map Frame.holds).sum + 1 = frame.holds) :
      Ran cfg s frame (s.postIo i send buffers pending) frames
  | cas (i : Nat) (hzero : s.isZero i = true) :
      Ran cfg s (.release i .cas)
        ((s.modify i fun x => { x with releaseFlag := true }).record
          (s.sessionArray i).sessionID .release) [.release i (.drop 0)]
  | uncount (i : Nat) :
      Ran cfg s (.release i .sessionCount) { s with sessionCount := s.sessionCount - 1 }
        [.release i .leave]
  | onRelease (i : Nat) :
      Ran cfg s (.release i .onRelease) (s.record (s.sessionArray i).sessionID .onRelease)
        [.release i .push]
  | push (i : Nat) :
      Ran cfg s (.release i .push)
        ({ s with indexArray := findSession (s.sessionArray i).sessionID :: s.indexArray }.record
          (s.sessionArray i).sessionID .push) []
  | pop (i : Nat) (rest : List Nat) (hindex : s.indexArray = i :: rest) :
      Ran cfg s .pop { s with indexArray := rest } [.accept i .sessionCount]
  | count (i : Nat) :
      Ran cfg s (.accept i .sessionCount) { s with sessionCount := s.sessionCount + 1 }
        [.accept i .clear]
  | identify (i : Nat) :
      Ran cfg s (.accept i .sessionID)
        (s.modify i fun x => { x with sessionID := ⟨i, s.sessionKey⟩ }) [.accept i .time]
  | arm (i : Nat) :
      Ran cfg s (.accept i .and)
        (s.modify i fun x => { x with releaseFlag := false, armed := true })
        [.accept i .contentsNum]
  | nextKey (i : Nat) :
      Ran cfg s (.accept i .sessionKey) { s with sessionKey := s.sessionKey + 1 }
        [.accept i .onAccept]
  | onAccept (i : Nat) :
      Ran cfg s (.accept i .onAccept)
        ({ s with issued := (s.sessionArray i).sessionID :: s.issued }.record
          (s.sessionArray i).sessionID .onAccept) [.accept i .enter]
  | timeOut (regular : Bool) (now : UInt64) (i : Nat) (session : SessionID)
      (hexpired : s.expired cfg regular now i = true) :
      Ran cfg s (.sweep regular now i (.time session)) s
        [.disconnect session .inc, .sweep regular now (i + 1) .sessionID]

variable {cfg : Config} {s s' : ContentsServer} {frame next : Frame}

/-- A quiet step that ends the frame. -/
theorem Ran.finish (hsame : SameCore s s') (h : frame.weights = ⟨0, 0, 0, 0, 0⟩) :
    Ran cfg s frame s' [] := by
  simp only [weights, Weights.mk.injEq] at h
  obtain ⟨hholds, howns, hentering, hprogress, hcounted⟩ := h
  exact .quiet frame s' [] hsame (by simp) ⟨howns.symm, hentering.symm, hprogress.symm,
    hcounted.symm⟩ hholds.symm

/-- A quiet step to another program point. -/
theorem Ran.goto (hsame : SameCore s s') (hfacts : next.facts = { frame.facts with renewed := false })
    (hweights : next.weights = frame.weights) : Ran cfg s frame s' [next] := by
  simp only [facts, Facts.mk.injEq] at hfacts
  simp only [weights, Weights.mk.injEq] at hweights
  obtain ⟨hslot, harmed, hconfirmed, hidentified, hrenewed⟩ := hfacts
  obtain ⟨hholds, howns, hentering, hprogress, hcounted⟩ := hweights
  refine .quiet frame s' [next] hsame ?_ ⟨?_, ?_, ?_, ?_⟩ ?_
  · intro other hother
    rw [List.mem_singleton] at hother
    subst hother
    exact ⟨⟨hslot, harmed ▸ fun h => h, hidentified ▸ fun h => h, hrenewed⟩,
      hconfirmed ▸ fun h => h⟩
  all_goals simpa using by assumption

/-- A quiet step to the decrement, maybe with a call before it. -/
theorem Ran.toDrop {i : Nat} {direct : Bool} (calls : List Frame) (hsame : SameCore s s')
    (hslot : frame.slot = some i) (harmed : frame.needsArmed = true)
    (hweights : frame.weights = ⟨1, 0, 0, 0, 0⟩)
    (hcalls : calls = [] ∨ ∃ call, calls = [call] ∧ call.weights = ⟨0, 0, 0, 0, 0⟩ ∧
      call.facts = ⟨some i, true, false, false, false⟩) :
    Ran cfg s frame s' (calls ++ [.drop i direct]) := by
  simp only [weights, Weights.mk.injEq] at hweights
  obtain ⟨hholds, howns, hentering, hprogress, hcounted⟩ := hweights
  have hdrop : Follows frame (.drop i direct) := ⟨hslot.symm, fun _ => harmed, by simp, rfl⟩
  rcases hcalls with rfl | ⟨call, rfl, hzero, hfacts⟩
  · refine .quiet frame s' _ hsame (by simpa using hdrop) ⟨?_, ?_, ?_, ?_⟩ ?_
    · exact howns.symm
    · exact hentering.symm
    · exact hprogress.symm
    · exact hcounted.symm
    · exact hholds.symm
  · simp only [weights, Weights.mk.injEq] at hzero
    simp only [facts, Facts.mk.injEq] at hfacts
    obtain ⟨cholds, cowns, centering, cprogress, ccounted⟩ := hzero
    obtain ⟨cslot, carmed, cconfirmed, cidentified, crenewed⟩ := hfacts
    have hcall : Follows frame call := ⟨cslot.trans hslot.symm, fun _ => harmed,
      by simp [cidentified], crenewed⟩
    refine .quiet frame s' _ hsame ?_ ⟨?_, ?_, ?_, ?_⟩ ?_
    · intro other hother
      rcases List.mem_pair.mp hother with rfl | rfl
      · exact ⟨hcall, by simp [cconfirmed]⟩
      · exact ⟨hdrop, by simp⟩
    · simp [cowns, howns]
    · simp [centering, hentering]
    · simp [cprogress, hprogress]
    · simp [ccounted, hcounted]
    · simp [cholds, hholds]

/-- An increment whose result is looked at. -/
theorem Ran.enter {i : Nat} {direct : Bool} (hslot : frame.slot = some i)
    (harmed : frame.needsArmed = true) (hweights : frame.weights = ⟨0, 0, 0, 0, 0⟩)
    (hfacts : next.facts = ⟨some i, true, true, false, false⟩)
    (hnext : next.weights = ⟨1, 0, 0, 0, 0⟩) :
    Ran cfg s frame (s.increment i)
      (if (s.sessionArray i).releaseFlag then [.drop i direct] else [next]) := by
  simp only [weights, Weights.mk.injEq] at hweights hnext
  simp only [facts, Facts.mk.injEq] at hfacts
  obtain ⟨hholds, howns, hentering, hprogress, hcounted⟩ := hweights
  obtain ⟨nholds, nowns, nentering, nprogress, ncounted⟩ := hnext
  obtain ⟨nslot, narmed, nconfirmed, nidentified, nrenewed⟩ := hfacts
  refine .increment frame i _ hslot ?_ ?_ ?_
  · intro other hother
    split at hother
    · rw [List.mem_singleton] at hother
      subst hother
      exact ⟨⟨hslot.symm, fun _ => harmed, by simp, rfl⟩, by simp⟩
    · rename_i hflag
      rw [List.mem_singleton] at hother
      subst hother
      exact ⟨⟨nslot.trans hslot.symm, fun _ => harmed, by simp [nidentified], nrenewed⟩,
        fun _ => Or.inr (by simpa using hflag)⟩
  · split
    · exact ⟨howns.symm, hentering.symm, hprogress.symm, hcounted.symm⟩
    · exact ⟨by simp [nowns, howns], by simp [nentering, hentering], by simp [nprogress, hprogress],
        by simp [ncounted, hcounted]⟩
  · split
    · simp [hholds]
    · simp [nholds, hholds]

namespace ContentsServer

theorem setDFlag_sameCore (s : ContentsServer) (i : Nat) (value : Bool) :
    SameCore s (s.setDFlag i value) :=
  s.modify_sameCore i fun _ => ⟨rfl, rfl, rfl, rfl, rfl⟩

theorem setSendFlag_sameCore (s : ContentsServer) (i : Nat) (value : Bool) :
    SameCore s (s.setSendFlag i value) :=
  s.modify_sameCore i fun _ => ⟨rfl, rfl, rfl, rfl, rfl⟩

theorem cancelIoEx_sameCore (s : ContentsServer) (i : Nat) : SameCore s (s.cancelIoEx i) :=
  s.modify_sameCore i fun _ => ⟨rfl, rfl, rfl, List.length_map _, rfl⟩

theorem dropBuffer_sameCore (s : ContentsServer) (i : Nat) (tag : Tag) :
    SameCore s (s.dropBuffer i tag) :=
  s.modify_sameCore i fun _ => ⟨rfl, rfl, rfl, rfl, rfl⟩

theorem addSize_sameCore (s : ContentsServer) (i : Nat) (n : Int) : SameCore s (s.addSize i n) :=
  s.modify_sameCore i fun _ => ⟨rfl, rfl, rfl, rfl, rfl⟩

theorem dequeued_sameCore (s : ContentsServer) (i : Nat) (tag : Tag) (rest : List Tag) :
    SameCore s (s.dequeued i tag rest) :=
  s.modify_sameCore i fun _ => ⟨rfl, rfl, rfl, rfl, rfl⟩

end ContentsServer

theorem disconnectStep_ran (id : SessionID) (pc : DisconnectPc) :
    Ran cfg s (.disconnect id pc) (s.disconnectStep id pc).1 (s.disconnectStep id pc).2 := by
  cases pc with
  | inc => exact Ran.enter rfl rfl rfl rfl rfl
  | check =>
      simp only [ContentsServer.disconnectStep]
      split
      · exact .goto (.refl s) rfl rfl
      · exact .toDrop [] (.refl s) rfl rfl rfl (Or.inl rfl)
  | mark => exact .goto (s.setDFlag_sameCore _ _) rfl rfl
  | cancel => exact .toDrop [] (s.cancelIoEx_sameCore _) rfl rfl rfl (Or.inl rfl)

theorem sendPacketStep_ran (id : SessionID) (outcome : Outcome) (pc : SendPacketPc) :
    Ran cfg s (.sendPacket id pc) (s.sendPacketStep id outcome pc).1
      (s.sendPacketStep id outcome pc).2 := by
  cases pc with
  | inc => exact Ran.enter rfl rfl rfl rfl rfl
  | check =>
      simp only [ContentsServer.sendPacketStep]
      split
      · exact .goto (.refl s) rfl rfl
      · exact .toDrop [] (.refl s) rfl rfl rfl (Or.inl rfl)
  | dFlag =>
      simp only [ContentsServer.sendPacketStep]
      split
      · exact .toDrop [] (.refl s) rfl rfl rfl (Or.inl rfl)
      · exact .goto (.refl s) rfl rfl
  | enqueue =>
      simp only [ContentsServer.sendPacketStep]
      split
      · exact .toDrop [.disconnect id .inc] (.refl s) rfl rfl rfl
          (Or.inr ⟨_, rfl, rfl, rfl⟩)
      · dsimp only
        refine .goto (s.modify_sameCore _ ?_) rfl rfl
        exact fun _ => ⟨rfl, rfl, rfl, rfl, rfl⟩
  | size => exact .goto (s.addSize_sameCore _ _) rfl rfl
  | post =>
      refine .post _ (findSession id) _ _ rfl rfl rfl ?_ ⟨rfl, rfl, rfl, rfl⟩ rfl
      intro next hnext
      obtain rfl := List.mem_singleton.mp hnext
      exact ⟨⟨rfl, fun h => h, by simp, rfl⟩, by simp⟩

theorem tryMoveStep_ran (id : SessionID) (contentsNum : Int) (pc : TryMovePc) :
    Ran cfg s (.tryMove id contentsNum pc) (s.tryMoveStep id contentsNum pc).1
      (s.tryMoveStep id contentsNum pc).2 := by
  cases pc with
  | inc => exact Ran.enter rfl rfl rfl rfl rfl
  | check =>
      simp only [ContentsServer.tryMoveStep]
      split
      · exact .goto (.refl s) rfl rfl
      · exact .toDrop [] (.refl s) rfl rfl rfl (Or.inl rfl)
  | dFlag =>
      simp only [ContentsServer.tryMoveStep]
      split
      · exact .toDrop [] (.refl s) rfl rfl rfl (Or.inl rfl)
      · exact .goto (.refl s) rfl rfl
  | store =>
      dsimp only [ContentsServer.tryMoveStep]
      refine .toDrop [] (s.modify_sameCore _ ?_) rfl rfl rfl (Or.inl rfl)
      exact fun _ => ⟨rfl, rfl, rfl, rfl, rfl⟩

theorem recvStep_ran (i : Nat) (now : UInt64) (pc : RecvPc) :
    Ran cfg s (.recv i pc) (s.recvStep i now pc).1 (s.recvStep i now pc).2 := by
  cases pc with
  | firstRecv =>
      dsimp only [ContentsServer.recvStep]
      refine .goto (s.modify_sameCore _ ?_) rfl rfl
      exact fun _ => ⟨rfl, rfl, rfl, rfl, rfl⟩
  | time =>
      dsimp only [ContentsServer.recvStep]
      refine .goto (s.modify_sameCore _ ?_) rfl rfl
      exact fun _ => ⟨rfl, rfl, rfl, rfl, rfl⟩
  | user => exact .goto (.refl s) rfl rfl

theorem recvPostStep_ran (i : Nat) (outcome : Outcome) (pc : RecvPostPc) :
    Ran cfg s (.recvPost i pc) (s.recvPostStep i outcome pc).1
      (s.recvPostStep i outcome pc).2 := by
  have hone : ∀ next ∈ [Frame.drop i false], Follows (.recvPost i .wsaRecv) next ∧
      (next.confirmed → (Frame.recvPost i .wsaRecv).confirmed) := by
    intro next hnext
    obtain rfl := List.mem_singleton.mp hnext
    exact ⟨⟨rfl, fun h => h, by simp, rfl⟩, by simp⟩
  cases pc with
  | dFlag =>
      simp only [ContentsServer.recvPostStep]
      split
      · exact .toDrop [] (.refl s) rfl rfl rfl (Or.inl rfl)
      · exact .goto (.refl s) rfl rfl
  | inc =>
      refine .increment _ i _ rfl ?_ ⟨rfl, rfl, rfl, rfl⟩ rfl
      intro next hnext
      obtain rfl := List.mem_singleton.mp hnext
      exact ⟨⟨rfl, fun h => h, fun h => h, rfl⟩, fun _ => Or.inl rfl⟩
  | wsaRecv =>
      cases outcome with
      | done => exact .postIo _ i _ _ _ _ rfl rfl hone ⟨rfl, rfl, rfl, rfl⟩ rfl
      | pending =>
          refine .postIo _ i _ _ _ _ rfl rfl ?_ ⟨rfl, rfl, rfl, rfl⟩ rfl
          intro next hnext
          obtain rfl := List.mem_singleton.mp hnext
          exact ⟨⟨rfl, fun h => h, fun h => h, rfl⟩, fun h => h⟩
      | failed =>
          refine .quiet _ s _ (.refl s) ?_ ⟨rfl, rfl, rfl, rfl⟩ rfl
          intro next hnext
          rcases List.mem_pair.mp hnext with rfl | rfl <;> exact hone _ (by simp)
  | recheck =>
      simp only [ContentsServer.recvPostStep]
      split
      · exact .goto (.refl s) rfl rfl
      · exact .toDrop [] (.refl s) rfl rfl rfl (Or.inl rfl)
  | cancel => exact .toDrop [] (s.cancelIoEx_sameCore _) rfl rfl rfl (Or.inl rfl)

theorem sentStep_ran (i : Nat) (pc : SentPc) :
    Ran cfg s (.sent i pc) (s.sentStep i pc).1 (s.sentStep i pc).2 := by
  cases pc with
  | drop k =>
      simp only [ContentsServer.sentStep]
      split
      · exact .goto (s.dropBuffer_sameCore _ _) rfl rfl
      · exact .goto (.refl s) rfl rfl
  | zero =>
      dsimp only [ContentsServer.sentStep]
      refine .goto (s.modify_sameCore _ ?_) rfl rfl
      exact fun _ => ⟨rfl, rfl, rfl, rfl, rfl⟩
  | sendFlag =>
      exact .toDrop [.sendPost i .dFlag] (s.setSendFlag_sameCore _ _) rfl rfl rfl
        (Or.inr ⟨_, rfl, rfl, rfl⟩)

theorem SameCore.trans {a b c : ContentsServer} (h : SameCore a b) (h' : SameCore b c) :
    SameCore a c where
  sessionID := fun i => (h'.sessionID i).trans (h.sessionID i)
  releaseFlag := fun i => (h'.releaseFlag i).trans (h.releaseFlag i)
  ioCount := fun i => (h'.ioCount i).trans (h.ioCount i)
  io := fun i => (h'.io i).trans (h.io i)
  armed := fun i => (h'.armed i).trans (h.armed i)
  indexArray := h'.indexArray.trans h.indexArray
  sessionCount := h'.sessionCount.trans h.sessionCount
  sessionKey := h'.sessionKey.trans h.sessionKey
  queue := h'.queue.trans h.queue
  threads := h'.threads.trans h.threads
  issued := h'.issued.trans h.issued
  history := h'.history.trans h.history

theorem sendPostStep_ran (i : Nat) (outcome : Outcome) (pc : SendPostPc) :
    Ran cfg s (.sendPost i pc) (s.sendPostStep i outcome pc).1
      (s.sendPostStep i outcome pc).2 := by
  cases pc with
  | dFlag =>
      simp only [ContentsServer.sendPostStep]
      split
      · exact .finish (.refl s) rfl
      · exact .goto (.refl s) rfl rfl
  | size =>
      simp only [ContentsServer.sendPostStep]
      split
      · exact .goto (.refl s) rfl rfl
      · exact .finish (.refl s) rfl
  | exchange =>
      simp only [ContentsServer.sendPostStep]
      split
      · exact .finish (s.setSendFlag_sameCore _ _) rfl
      · exact .goto (s.setSendFlag_sameCore _ _) rfl rfl
  | inc => exact Ran.enter rfl rfl rfl rfl rfl
  | dequeue k =>
      simp only [ContentsServer.sendPostStep]
      split
      · dsimp only
        split <;> exact .goto (s.addSize_sameCore _ _) rfl rfl
      · exact .goto (.refl s) rfl rfl
  | take k =>
      simp only [ContentsServer.sendPostStep]
      split
      · exact .goto (.refl s) rfl rfl
      · dsimp only
        refine .goto ((s.dequeued_sameCore _ _ _).trans (ContentsServer.modify_sameCore _ _ ?_)) rfl rfl
        exact fun _ => ⟨rfl, rfl, rfl, rfl, rfl⟩
  | restore k => exact .goto (s.addSize_sameCore _ _) rfl rfl
  | count k =>
      dsimp only [ContentsServer.sendPostStep]
      split
      · refine .goto (s.modify_sameCore _ ?_) rfl rfl
        exact fun _ => ⟨rfl, rfl, rfl, rfl, rfl⟩
      · refine .goto (s.modify_sameCore _ ?_) rfl rfl
        exact fun _ => ⟨rfl, rfl, rfl, rfl, rfl⟩
  | reset => exact .goto (s.setSendFlag_sameCore _ _) rfl rfl
  | resize =>
      simp only [ContentsServer.sendPostStep]
      split
      · exact .toDrop [.sendPost i .dFlag] (.refl s) rfl rfl rfl
          (Or.inr ⟨_, rfl, rfl, rfl⟩)
      · exact .toDrop [] (.refl s) rfl rfl rfl (Or.inl rfl)
  | wsaSend k =>
      cases outcome with
      | done => exact .postIo _ i _ _ _ _ rfl rfl (List.forall_mem_nil _) ⟨rfl, rfl, rfl, rfl⟩ rfl
      | pending =>
          refine .postIo _ i _ _ _ _ rfl rfl ?_ ⟨rfl, rfl, rfl, rfl⟩ rfl
          intro next hnext
          obtain rfl := List.mem_singleton.mp hnext
          exact ⟨⟨rfl, fun h => h, fun h => h, rfl⟩, fun _ => rfl⟩
      | failed => exact .toDrop [] (.refl s) rfl rfl rfl (Or.inl rfl)
  | recheck =>
      simp only [ContentsServer.sendPostStep]
      split
      · exact .goto (.refl s) rfl rfl
      · exact .finish (.refl s) rfl
  | cancel => exact .finish (s.cancelIoEx_sameCore _) rfl

theorem releaseStep_ran (i : Nat) (pc : ReleasePc) :
    Ran cfg s (.release i pc) (s.releaseStep i pc).1 (s.releaseStep i pc).2 := by
  cases pc with
  | cas =>
      simp only [ContentsServer.releaseStep]
      split
      · rename_i hzero
        exact .cas i hzero
      · exact .finish (.refl s) rfl
  | drop k =>
      simp only [ContentsServer.releaseStep]
      split
      · exact .goto (s.dropBuffer_sameCore _ _) rfl rfl
      · exact .goto (.refl s) rfl rfl
  | zero =>
      dsimp only [ContentsServer.releaseStep]
      refine .goto (s.modify_sameCore _ ?_) rfl rfl
      exact fun _ => ⟨rfl, rfl, rfl, rfl, rfl⟩
  | clear =>
      simp only [ContentsServer.releaseStep]
      split <;> exact .goto (s.addSize_sameCore _ _) rfl rfl
  | clearTake =>
      simp only [ContentsServer.releaseStep]
      split
      · exact .goto (.refl s) rfl rfl
      · exact .goto (s.dequeued_sameCore _ _ _) rfl rfl
  | clearDrop tag => exact .goto (s.dropBuffer_sameCore _ _) rfl rfl
  | clearRestore => exact .goto (s.addSize_sameCore _ _) rfl rfl
  | sessionCount => exact .uncount i
  | leave => exact .goto (.refl s) rfl rfl
  | onRelease => exact .onRelease i
  | push => exact .push i

theorem acceptStep_ran (i : Nat) (now : UInt64) (outcome : Outcome) (pc : AcceptPc) :
    Ran cfg s (.accept i pc) (ContentsServer.acceptStep cfg s i now outcome pc).1
      (ContentsServer.acceptStep cfg s i now outcome pc).2 := by
  cases pc with
  | sessionCount => exact .count i
  | clear =>
      simp only [ContentsServer.acceptStep]
      split <;> exact .goto (s.addSize_sameCore _ _) rfl rfl
  | clearTake =>
      simp only [ContentsServer.acceptStep]
      split
      · exact .goto (.refl s) rfl rfl
      · exact .goto (s.dequeued_sameCore _ _ _) rfl rfl
  | clearDrop tag => exact .goto (s.dropBuffer_sameCore _ _) rfl rfl
  | clearRestore => exact .goto (s.addSize_sameCore _ _) rfl rfl
  | sessionID => exact .identify i
  | time =>
      dsimp only [ContentsServer.acceptStep]
      refine .goto (s.modify_sameCore _ ?_) rfl rfl
      exact fun _ => ⟨rfl, rfl, rfl, rfl, rfl⟩
  | firstRecv =>
      dsimp only [ContentsServer.acceptStep]
      refine .goto (s.modify_sameCore _ ?_) rfl rfl
      exact fun _ => ⟨rfl, rfl, rfl, rfl, rfl⟩
  | sendFlag => exact .goto (s.setSendFlag_sameCore _ _) rfl rfl
  | inc =>
      refine .increment _ i _ rfl ?_ ⟨rfl, rfl, rfl, rfl⟩ rfl
      intro next hnext
      obtain rfl := List.mem_singleton.mp hnext
      exact ⟨⟨rfl, fun h => h, fun h => h, rfl⟩, fun h => Or.inl h⟩
  | and => exact .arm i
  | contentsNum =>
      dsimp only [ContentsServer.acceptStep]
      refine .goto (s.modify_sameCore _ ?_) rfl rfl
      exact fun _ => ⟨rfl, rfl, rfl, rfl, rfl⟩
  | dFlag => exact .goto (s.setDFlag_sameCore _ _) rfl rfl
  | sessionKey => exact .nextKey i
  | onAccept => exact .onAccept i
  | enter => exact .goto (.refl s) rfl rfl
  | wsaRecv =>
      cases outcome with
      | done => exact .postIo _ i _ _ _ _ rfl rfl (List.forall_mem_nil _) ⟨rfl, rfl, rfl, rfl⟩ rfl
      | pending => exact .postIo _ i _ _ _ _ rfl rfl (List.forall_mem_nil _) ⟨rfl, rfl, rfl, rfl⟩ rfl
      | failed => exact .toDrop [] (.refl s) rfl rfl rfl (Or.inl rfl)

theorem sweepStep_ran (regular : Bool) (now : UInt64) (i : Nat) (pc : SweepPc) :
    Ran cfg s (.sweep regular now i pc) (ContentsServer.sweepStep cfg s regular now i pc).1
      (ContentsServer.sweepStep cfg s regular now i pc).2 := by
  cases pc with
  | sessionID =>
      simp only [ContentsServer.sweepStep]
      split
      · exact .goto (.refl s) rfl rfl
      · exact .finish (.refl s) rfl
  | dFlag session =>
      simp only [ContentsServer.sweepStep]
      split
      · exact .goto (.refl s) rfl rfl
      · exact .goto (.refl s) rfl rfl
  | firstRecv session =>
      simp only [ContentsServer.sweepStep]
      split
      · exact .goto (.refl s) rfl rfl
      · exact .goto (.refl s) rfl rfl
  | time session =>
      simp only [ContentsServer.sweepStep]
      split
      · rename_i hexpired
        exact .timeOut regular now i session hexpired
      · exact .goto (.refl s) rfl rfl

/-- **One step of a frame.** -/
theorem runFrame_ran (now : UInt64) (outcome : Outcome) (frame : Frame) :
    Ran cfg s frame (s.runFrame cfg now outcome frame).1 (s.runFrame cfg now outcome frame).2 := by
  cases frame with
  | disconnect id pc => exact disconnectStep_ran id pc
  | sendPacket id pc => exact sendPacketStep_ran id outcome pc
  | tryMove id contentsNum pc => exact tryMoveStep_ran id contentsNum pc
  | drop i direct =>
      refine .decrement i direct _ ?_
      simp only [ContentsServer.runFrame, ContentsServer.dropStep]
      split
      · exact Or.inr rfl
      · exact Or.inl rfl
  | dead i direct =>
      cases direct with
      | false => exact .goto (s.setDFlag_sameCore _ _) rfl rfl
      | true => exact .goto (s.setDFlag_sameCore _ _) rfl rfl
  | postRelease i => exact .post _ i _ _ rfl rfl rfl (List.forall_mem_nil _) ⟨rfl, rfl, rfl, rfl⟩ rfl
  | recv i pc => exact recvStep_ran i now pc
  | recvPost i pc => exact recvPostStep_ran i outcome pc
  | sent i pc => exact sentStep_ran i pc
  | sendPost i pc => exact sendPostStep_ran i outcome pc
  | release i pc => exact releaseStep_ran i pc
  | pop =>
      simp only [ContentsServer.runFrame, ContentsServer.popStep]
      split
      · exact .finish (.refl s) rfl
      · rename_i i rest hindex
        exact .pop i rest hindex
  | accept i pc => exact acceptStep_ran i now outcome pc
  | sweep regular now i pc => exact sweepStep_ran regular now i pc

end SessionServer.ContentLib
