/-
  ContentLib/Writes.lean --- what one step of a frame writes, and where it leads.

  `Wrote` lists the writes to the session of a slot, `Next` the program points that can
  follow one.  They say at most what a step does; what holds of all writes or of all
  transitions is read off them, without the functions.
-/
import SessionServer.ContentLib.ContentsServer

set_option autoImplicit false

namespace SessionServer.ContentLib

namespace Frame

/-- The slot a frame works on. -/
def slot : Frame → Option Nat
  | disconnect id _ => some (findSession id)
  | sendPacket id _ => some (findSession id)
  | tryMove id _ _ => some (findSession id)
  | drop i _ => some i
  | dead i _ => some i
  | postRelease i => some i
  | recv i _ => some i
  | recvPost i _ => some i
  | sent i _ => some i
  | sendPost i _ => some i
  | release i _ => some i
  | pop => none
  | accept i _ => some i
  | sweep _ _ _ _ => none

/-- The frame stands before an increment of `_ioCount`. -/
def increments : Frame → Bool
  | disconnect _ .inc => true
  | sendPacket _ .inc => true
  | tryMove _ _ .inc => true
  | recvPost _ .inc => true
  | sendPost _ .inc => true
  | accept _ .inc => true
  | _ => false

/-- The frame stands before a `CancelIoEx`. -/
def cancels : Frame → Bool
  | disconnect _ .cancel => true
  | recvPost _ .cancel => true
  | sendPost _ .cancel => true
  | _ => false

end Frame

/-! ## Writes -/

/-- **The writes of a frame** to the session of its slot. -/
inductive Wrote : Frame → (Session → Session) → Prop where
  | nothing (frame : Frame) : Wrote frame id
  | increment (frame : Frame) (h : frame.increments = true) :
      Wrote frame fun x => { x with ioCount := x.ioCount + 1 }
  | decrement (i : Nat) (direct : Bool) :
      Wrote (.drop i direct) fun x => { x with ioCount := x.ioCount - 1 }
  | cancel (frame : Frame) (h : frame.cancels = true) :
      Wrote frame fun x => { x with io := x.io.map fun io => { io with cancelled := true } }
  | mark (id : SessionID) : Wrote (.disconnect id .mark) fun x => { x with dFlag := true }
  | dead (i : Nat) (direct : Bool) : Wrote (.dead i direct) fun x => { x with dFlag := true }
  | enqueue (id : SessionID) :
      Wrote (.sendPacket id .enqueue) fun x =>
        { x with sendQ := x.sendQ ++ [x.enqueued], enqueued := x.enqueued + 1 }
  | counted (id : SessionID) : Wrote (.sendPacket id .size) fun x => { x with size := x.size + 1 }
  | store (id : SessionID) (contentsNum : Int) :
      Wrote (.tryMove id contentsNum .store) fun x => { x with contentsNum := contentsNum }
  | firstRecv (i : Nat) : Wrote (.recv i .firstRecv) fun x => { x with firstRecv := true }
  | time (i : Nat) (now : UInt64) : Wrote (.recv i .time) fun x => { x with time := now }
  | wsaRecv (i : Nat) (pending : Bool) :
      Wrote (.recvPost i .wsaRecv) fun x => { x with io := ⟨false, [], pending, false⟩ :: x.io }
  | sentDrop (i k : Nat) (tag : Tag) :
      Wrote (.sent i (.drop k)) fun x =>
        { x with held := x.held.erase tag, dropped := tag :: x.dropped }
  | sentZero (i : Nat) : Wrote (.sent i .zero) fun x => { x with count := 0 }
  | sentSendFlag (i : Nat) : Wrote (.sent i .sendFlag) fun x => { x with sendFlag := false }
  | exchange (i : Nat) : Wrote (.sendPost i .exchange) fun x => { x with sendFlag := true }
  | dequeue (i k : Nat) :
      Wrote (.sendPost i (.dequeue k)) fun x => { x with size := x.size + -1 }
  | take (i k : Nat) (tag : Tag) (rest : List Tag) :
      Wrote (.sendPost i (.take k)) fun x =>
        { x with sendQ := rest, held := tag :: x.held,
                 sBufferArray := Function.update x.sBufferArray k tag }
  | restore (i k : Nat) :
      Wrote (.sendPost i (.restore k)) fun x => { x with size := x.size + 1 }
  | count (i k : Nat) : Wrote (.sendPost i (.count k)) fun x => { x with count := k }
  | reset (i : Nat) : Wrote (.sendPost i .reset) fun x => { x with sendFlag := false }
  | wsaSend (i k : Nat) (buffers : List Tag) (pending : Bool) :
      Wrote (.sendPost i (.wsaSend k)) fun x =>
        { x with io := ⟨true, buffers, pending, false⟩ :: x.io }
  | cas (i : Nat) : Wrote (.release i .cas) fun x => { x with releaseFlag := true }
  | releaseDrop (i k : Nat) (tag : Tag) :
      Wrote (.release i (.drop k)) fun x =>
        { x with held := x.held.erase tag, dropped := tag :: x.dropped }
  | releaseZero (i : Nat) : Wrote (.release i .zero) fun x => { x with count := 0 }
  | releaseClear (i : Nat) : Wrote (.release i .clear) fun x => { x with size := x.size + -1 }
  | releaseTake (i : Nat) (tag : Tag) (rest : List Tag) :
      Wrote (.release i .clearTake) fun x => { x with sendQ := rest, held := tag :: x.held }
  | releaseClearDrop (i : Nat) (tag : Tag) :
      Wrote (.release i (.clearDrop tag)) fun x =>
        { x with held := x.held.erase tag, dropped := tag :: x.dropped }
  | releaseRestore (i : Nat) :
      Wrote (.release i .clearRestore) fun x => { x with size := x.size + 1 }
  | acceptClear (i : Nat) : Wrote (.accept i .clear) fun x => { x with size := x.size + -1 }
  | acceptTake (i : Nat) (tag : Tag) (rest : List Tag) :
      Wrote (.accept i .clearTake) fun x => { x with sendQ := rest, held := tag :: x.held }
  | acceptClearDrop (i : Nat) (tag : Tag) :
      Wrote (.accept i (.clearDrop tag)) fun x =>
        { x with held := x.held.erase tag, dropped := tag :: x.dropped }
  | acceptRestore (i : Nat) :
      Wrote (.accept i .clearRestore) fun x => { x with size := x.size + 1 }
  | sessionID (i key : Nat) :
      Wrote (.accept i .sessionID) fun x => { x with sessionID := ⟨i, key⟩ }
  | acceptTime (i : Nat) (now : UInt64) : Wrote (.accept i .time) fun x => { x with time := now }
  | acceptFirstRecv (i : Nat) : Wrote (.accept i .firstRecv) fun x => { x with firstRecv := false }
  | acceptSendFlag (i : Nat) : Wrote (.accept i .sendFlag) fun x => { x with sendFlag := false }
  | and (i : Nat) :
      Wrote (.accept i .and) fun x => { x with releaseFlag := false, armed := true }
  | contentsNum (i : Nat) (contentsNum : Int) :
      Wrote (.accept i .contentsNum) fun x => { x with contentsNum := contentsNum }
  | acceptDFlag (i : Nat) : Wrote (.accept i .dFlag) fun x => { x with dFlag := false }
  | acceptWsaRecv (i : Nat) (pending : Bool) :
      Wrote (.accept i .wsaRecv) fun x => { x with io := ⟨false, [], pending, false⟩ :: x.io }

/-- The sessions after a step: the one at the slot of the frame is written, the others
are the same. -/
structure Updated (frame : Frame) (sessions sessions' : Nat → Session) (write : Session → Session) :
    Prop where
  wrote : Wrote frame write
  here : ∀ i, frame.slot = some i → sessions' i = write (sessions i)
  there : ∀ i, frame.slot ≠ some i → sessions' i = sessions i

variable {cfg : Config} {s s' : ContentsServer} {frame next : Frame}

theorem Updated.same (frame : Frame) (sessions : Nat → Session) :
    Updated frame sessions sessions id :=
  ⟨.nothing frame, fun _ _ => rfl, fun _ _ => rfl⟩

theorem Updated.modify {i : Nat} {write : Session → Session} (hwrote : Wrote frame write)
    (hslot : frame.slot = some i) :
    Updated frame s.sessionArray (s.modify i write).sessionArray write where
  wrote := hwrote
  here := by
    intro j hj
    obtain rfl : i = j := Option.some.inj (hslot.symm.trans hj)
    simp [ContentsServer.modify]
  there := by
    intro j hj
    have hne : j ≠ i := fun heq => hj (heq ▸ hslot)
    simp [ContentsServer.modify, hne]

section

open ContentsServer

theorem disconnectStep_updated (id : SessionID) (pc : DisconnectPc) :
    ∃ write, Updated (.disconnect id pc) s.sessionArray
      (s.disconnectStep id pc).1.sessionArray write := by
  cases pc with
  | inc => exact ⟨_, .modify (.increment _ rfl) rfl⟩
  | check =>
      simp only [disconnectStep]
      split <;> exact ⟨_, .same _ _⟩
  | mark => exact ⟨_, .modify (.mark id) rfl⟩
  | cancel => exact ⟨_, .modify (.cancel _ rfl) rfl⟩

theorem sendPacketStep_updated (id : SessionID) (outcome : Outcome) (pc : SendPacketPc) :
    ∃ write, Updated (.sendPacket id pc) s.sessionArray
      (s.sendPacketStep id outcome pc).1.sessionArray write := by
  cases pc with
  | inc => exact ⟨_, .modify (.increment _ rfl) rfl⟩
  | enqueue =>
      simp only [sendPacketStep]
      split
      · exact ⟨_, .same _ _⟩
      · exact ⟨_, .modify (.enqueue id) rfl⟩
  | size => exact ⟨_, .modify (.counted id) rfl⟩
  | post => exact ⟨_, .same _ _⟩
  | _ =>
      simp only [sendPacketStep]
      split <;> exact ⟨_, .same _ _⟩

theorem tryMoveStep_updated (id : SessionID) (contentsNum : Int) (pc : TryMovePc) :
    ∃ write, Updated (.tryMove id contentsNum pc) s.sessionArray
      (s.tryMoveStep id contentsNum pc).1.sessionArray write := by
  cases pc with
  | inc => exact ⟨_, .modify (.increment _ rfl) rfl⟩
  | store => exact ⟨_, .modify (.store id contentsNum) rfl⟩
  | _ =>
      simp only [tryMoveStep]
      split <;> exact ⟨_, .same _ _⟩

theorem recvStep_updated (i : Nat) (now : UInt64) (pc : RecvPc) :
    ∃ write, Updated (.recv i pc) s.sessionArray (s.recvStep i now pc).1.sessionArray write := by
  cases pc with
  | firstRecv => exact ⟨_, .modify (.firstRecv i) rfl⟩
  | time => exact ⟨_, .modify (.time i now) rfl⟩
  | user => exact ⟨_, .same _ _⟩

theorem recvPostStep_updated (i : Nat) (outcome : Outcome) (pc : RecvPostPc) :
    ∃ write, Updated (.recvPost i pc) s.sessionArray
      (s.recvPostStep i outcome pc).1.sessionArray write := by
  cases pc with
  | inc => exact ⟨_, .modify (.increment _ rfl) rfl⟩
  | wsaRecv =>
      cases outcome with
      | done => exact ⟨_, .modify (.wsaRecv i false) rfl⟩
      | pending => exact ⟨_, .modify (.wsaRecv i true) rfl⟩
      | failed => exact ⟨_, .same _ _⟩
  | cancel => exact ⟨_, .modify (.cancel _ rfl) rfl⟩
  | _ =>
      simp only [recvPostStep]
      split <;> exact ⟨_, .same _ _⟩

theorem sentStep_updated (i : Nat) (pc : SentPc) :
    ∃ write, Updated (.sent i pc) s.sessionArray (s.sentStep i pc).1.sessionArray write := by
  cases pc with
  | drop k =>
      simp only [sentStep]
      split
      · exact ⟨_, .modify (.sentDrop i k _) rfl⟩
      · exact ⟨_, .same _ _⟩
  | zero => exact ⟨_, .modify (.sentZero i) rfl⟩
  | sendFlag => exact ⟨_, .modify (.sentSendFlag i) rfl⟩

theorem sendPostStep_updated (i : Nat) (outcome : Outcome) (pc : SendPostPc) :
    ∃ write, Updated (.sendPost i pc) s.sessionArray
      (s.sendPostStep i outcome pc).1.sessionArray write := by
  cases pc with
  | exchange => exact ⟨_, .modify (.exchange i) rfl⟩
  | inc => exact ⟨_, .modify (.increment _ rfl) rfl⟩
  | dequeue k =>
      simp only [sendPostStep]
      split
      · exact ⟨_, .modify (.dequeue i k) rfl⟩
      · exact ⟨_, .same _ _⟩
  | take k =>
      simp only [sendPostStep]
      split
      · exact ⟨_, .same _ _⟩
      · rename_i tag rest _
        refine ⟨_, .take i k tag rest, ?_, ?_⟩
        · intro j hj
          obtain rfl : i = j := Option.some.inj hj
          simp [ContentsServer.modify, ContentsServer.dequeued]
        · intro j hj
          have hne : j ≠ i := fun heq => hj (heq ▸ rfl)
          simp [ContentsServer.modify, ContentsServer.dequeued, hne]
  | restore k => exact ⟨_, .modify (.restore i k) rfl⟩
  | count k => exact ⟨_, .modify (.count i k) rfl⟩
  | reset => exact ⟨_, .modify (.reset i) rfl⟩
  | wsaSend k =>
      cases outcome with
      | done => exact ⟨_, .modify (.wsaSend i k _ false) rfl⟩
      | pending => exact ⟨_, .modify (.wsaSend i k _ true) rfl⟩
      | failed => exact ⟨_, .same _ _⟩
  | cancel => exact ⟨_, .modify (.cancel _ rfl) rfl⟩
  | _ =>
      simp only [sendPostStep]
      split <;> exact ⟨_, .same _ _⟩

theorem releaseStep_updated (i : Nat) (pc : ReleasePc) :
    ∃ write, Updated (.release i pc) s.sessionArray (s.releaseStep i pc).1.sessionArray write := by
  cases pc with
  | cas =>
      simp only [releaseStep]
      split
      · exact ⟨_, .modify (.cas i) rfl⟩
      · exact ⟨_, .same _ _⟩
  | drop k =>
      simp only [releaseStep]
      split
      · exact ⟨_, .modify (.releaseDrop i k _) rfl⟩
      · exact ⟨_, .same _ _⟩
  | zero => exact ⟨_, .modify (.releaseZero i) rfl⟩
  | clear => exact ⟨_, .modify (.releaseClear i) rfl⟩
  | clearTake =>
      simp only [releaseStep]
      split
      · exact ⟨_, .same _ _⟩
      · exact ⟨_, .modify (.releaseTake i _ _) rfl⟩
  | clearDrop tag => exact ⟨_, .modify (.releaseClearDrop i tag) rfl⟩
  | clearRestore => exact ⟨_, .modify (.releaseRestore i) rfl⟩
  | _ => exact ⟨_, .same _ _⟩

theorem acceptStep_updated (i : Nat) (now : UInt64) (outcome : Outcome) (pc : AcceptPc) :
    ∃ write, Updated (.accept i pc) s.sessionArray
      (acceptStep cfg s i now outcome pc).1.sessionArray write := by
  cases pc with
  | clear => exact ⟨_, .modify (.acceptClear i) rfl⟩
  | clearTake =>
      simp only [acceptStep]
      split
      · exact ⟨_, .same _ _⟩
      · exact ⟨_, .modify (.acceptTake i _ _) rfl⟩
  | clearDrop tag => exact ⟨_, .modify (.acceptClearDrop i tag) rfl⟩
  | clearRestore => exact ⟨_, .modify (.acceptRestore i) rfl⟩
  | sessionID => exact ⟨_, .modify (.sessionID i _) rfl⟩
  | time => exact ⟨_, .modify (.acceptTime i now) rfl⟩
  | firstRecv => exact ⟨_, .modify (.acceptFirstRecv i) rfl⟩
  | sendFlag => exact ⟨_, .modify (.acceptSendFlag i) rfl⟩
  | inc => exact ⟨_, .modify (.increment _ rfl) rfl⟩
  | and => exact ⟨_, .modify (.and i) rfl⟩
  | contentsNum => exact ⟨_, .modify (.contentsNum i _) rfl⟩
  | dFlag => exact ⟨_, .modify (.acceptDFlag i) rfl⟩
  | wsaRecv =>
      cases outcome with
      | done => exact ⟨_, .modify (.acceptWsaRecv i false) rfl⟩
      | pending => exact ⟨_, .modify (.acceptWsaRecv i true) rfl⟩
      | failed => exact ⟨_, .same _ _⟩
  | _ => exact ⟨_, .same _ _⟩

/-- **What one step of a frame writes.** -/
theorem runFrame_updated (cfg : Config) (s : ContentsServer) (now : UInt64) (outcome : Outcome)
    (frame : Frame) :
    ∃ write, Updated frame s.sessionArray
      (s.runFrame cfg now outcome frame).1.sessionArray write := by
  cases frame with
  | disconnect id pc => exact disconnectStep_updated id pc
  | sendPacket id pc => exact sendPacketStep_updated id outcome pc
  | tryMove id contentsNum pc => exact tryMoveStep_updated id contentsNum pc
  | drop i direct => exact ⟨_, .modify (.decrement i direct) rfl⟩
  | dead i direct => exact ⟨_, .modify (.dead i direct) rfl⟩
  | postRelease i => exact ⟨_, .same _ _⟩
  | recv i pc => exact recvStep_updated i now pc
  | recvPost i pc => exact recvPostStep_updated i outcome pc
  | sent i pc => exact sentStep_updated i pc
  | sendPost i pc => exact sendPostStep_updated i outcome pc
  | release i pc => exact releaseStep_updated i pc
  | pop =>
      simp only [runFrame, popStep]
      split <;> exact ⟨_, .same _ _⟩
  | accept i pc => exact acceptStep_updated i now outcome pc
  | sweep regular now' i pc =>
      cases pc <;> simp only [runFrame, sweepStep] <;> split <;> exact ⟨_, .same _ _⟩

/-- **What one step of a frame posts.** -/
theorem runFrame_queue (cfg : Config) (s : ContentsServer) (now : UInt64) (outcome : Outcome)
    (frame : Frame) :
    (s.runFrame cfg now outcome frame).1.queue = s.queue ∨
      (∃ i, frame = .postRelease i ∧
        (s.runFrame cfg now outcome frame).1.queue = s.queue ++ [.release i]) ∨
      ∃ id, frame = .sendPacket id .post ∧
        (s.runFrame cfg now outcome frame).1.queue = s.queue ++ [.sendPost (findSession id)] := by
  have hsplit : ∀ {p : Prop} [Decidable p] (a b : ContentsServer × List Frame),
      a.1.queue = s.queue → b.1.queue = s.queue → (if p then a else b).1.queue = s.queue := by
    intro p _ a b ha hb
    split
    · exact ha
    · exact hb
  cases frame with
  | postRelease i => exact Or.inr (Or.inl ⟨i, rfl, rfl⟩)
  | disconnect id pc =>
      cases pc with
      | check => exact Or.inl (hsplit _ _ rfl rfl)
      | _ => exact Or.inl rfl
  | sendPacket id pc =>
      cases pc with
      | inc | size => exact Or.inl rfl
      | post => exact Or.inr (Or.inr ⟨id, rfl, rfl⟩)
      | _ => exact Or.inl (hsplit _ _ rfl rfl)
  | tryMove id contentsNum pc =>
      cases pc with
      | inc | store => exact Or.inl rfl
      | _ => exact Or.inl (hsplit _ _ rfl rfl)
  | recv i pc => cases pc <;> exact Or.inl rfl
  | recvPost i pc =>
      cases pc with
      | inc | cancel => exact Or.inl rfl
      | wsaRecv => cases outcome <;> exact Or.inl rfl
      | _ => exact Or.inl (hsplit _ _ rfl rfl)
  | sent i pc =>
      cases pc with
      | drop k => exact Or.inl (hsplit _ _ rfl rfl)
      | _ => exact Or.inl rfl
  | sendPost i pc =>
      cases pc with
      | dFlag | size | dequeue | resize | recheck => exact Or.inl (hsplit _ _ rfl rfl)
      | take k =>
          simp only [runFrame, sendPostStep]
          split <;> exact Or.inl rfl
      | wsaSend k => cases outcome <;> exact Or.inl rfl
      | _ => exact Or.inl rfl
  | release i pc =>
      cases pc with
      | cas | drop => exact Or.inl (hsplit _ _ rfl rfl)
      | clearTake =>
          simp only [runFrame, releaseStep]
          split <;> exact Or.inl rfl
      | _ => exact Or.inl rfl
  | pop =>
      simp only [runFrame, popStep]
      split <;> exact Or.inl rfl
  | accept i pc =>
      cases pc with
      | clearTake =>
          simp only [runFrame, acceptStep]
          split <;> exact Or.inl rfl
      | wsaRecv => cases outcome <;> exact Or.inl rfl
      | _ => exact Or.inl rfl
  | sweep regular now' i pc => cases pc <;> exact Or.inl (hsplit _ _ rfl rfl)
  | _ => exact Or.inl rfl

end

/-- What every write of the frame does to a session, the step does at every slot. -/
theorem Updated.rel {sessions sessions' : Nat → Session} {write : Session → Session}
    (h : Updated frame sessions sessions' write) (R : Session → Session → Prop)
    (hrefl : ∀ x, R x x) (hwrite : ∀ x, R x (write x)) (j : Nat) :
    R (sessions j) (sessions' j) := by
  by_cases hj : frame.slot = some j
  · rw [h.here j hj]
    exact hwrite _
  · rw [h.there j hj]
    exact hrefl _

/-! ## Program points -/

/-- **The frames that can take the place of a frame**, with the tests that lead there. -/
inductive Next (s : ContentsServer) : Frame → Frame → Prop where
  /-- The common end of the functions that hold a reference. -/
  | drop (frame : Frame) (i : Nat) (direct : Bool) (h : frame.slot = some i) :
      Next s frame (.drop i direct)
  | dead (i : Nat) (direct : Bool) (h : (s.decrement i).isZero i = true) :
      Next s (.drop i direct) (.dead i direct)
  | postRelease (i : Nat) : Next s (.dead i false) (.postRelease i)
  | releaseNow (i : Nat) : Next s (.dead i true) (.release i .cas)
  | disconnectCheck (id : SessionID)
      (h : (s.sessionArray (findSession id)).releaseFlag = false) :
      Next s (.disconnect id .inc) (.disconnect id .check)
  | disconnectMark (id : SessionID) (h : (s.sessionArray (findSession id)).sessionID = id) :
      Next s (.disconnect id .check) (.disconnect id .mark)
  | disconnectCancel (id : SessionID) : Next s (.disconnect id .mark) (.disconnect id .cancel)
  | sendPacketCheck (id : SessionID)
      (h : (s.sessionArray (findSession id)).releaseFlag = false) :
      Next s (.sendPacket id .inc) (.sendPacket id .check)
  | sendPacketDFlag (id : SessionID) (h : (s.sessionArray (findSession id)).sessionID = id) :
      Next s (.sendPacket id .check) (.sendPacket id .dFlag)
  | sendPacketEnqueue (id : SessionID) (h : (s.sessionArray (findSession id)).dFlag = false) :
      Next s (.sendPacket id .dFlag) (.sendPacket id .enqueue)
  | sendPacketFull (id : SessionID) : Next s (.sendPacket id .enqueue) (.disconnect id .inc)
  | sendPacketSize (id : SessionID) : Next s (.sendPacket id .enqueue) (.sendPacket id .size)
  | sendPacketPost (id : SessionID) : Next s (.sendPacket id .size) (.sendPacket id .post)
  | tryMoveCheck (id : SessionID) (contentsNum : Int)
      (h : (s.sessionArray (findSession id)).releaseFlag = false) :
      Next s (.tryMove id contentsNum .inc) (.tryMove id contentsNum .check)
  | tryMoveDFlag (id : SessionID) (contentsNum : Int)
      (h : (s.sessionArray (findSession id)).sessionID = id) :
      Next s (.tryMove id contentsNum .check) (.tryMove id contentsNum .dFlag)
  | tryMoveStore (id : SessionID) (contentsNum : Int)
      (h : (s.sessionArray (findSession id)).dFlag = false) :
      Next s (.tryMove id contentsNum .dFlag) (.tryMove id contentsNum .store)
  | recvTime (i : Nat) : Next s (.recv i .firstRecv) (.recv i .time)
  | recvUser (i : Nat) : Next s (.recv i .time) (.recv i .user)
  | recvPost (i : Nat) : Next s (.recv i .user) (.recvPost i .dFlag)
  | recvPostInc (i : Nat) (h : (s.sessionArray i).dFlag = false) :
      Next s (.recvPost i .dFlag) (.recvPost i .inc)
  | recvPostWsaRecv (i : Nat) : Next s (.recvPost i .inc) (.recvPost i .wsaRecv)
  | recvPostRecheck (i : Nat) : Next s (.recvPost i .wsaRecv) (.recvPost i .recheck)
  | recvPostCancel (i : Nat) (h : (s.sessionArray i).dFlag = true) :
      Next s (.recvPost i .recheck) (.recvPost i .cancel)
  | sentDrop (i k : Nat) : Next s (.sent i (.drop k)) (.sent i (.drop (k + 1)))
  | sentZero (i k : Nat) : Next s (.sent i (.drop k)) (.sent i .zero)
  | sentSendFlag (i : Nat) : Next s (.sent i .zero) (.sent i .sendFlag)
  | sentSendPost (i : Nat) : Next s (.sent i .sendFlag) (.sendPost i .dFlag)
  | sendPostSize (i : Nat) (h : (s.sessionArray i).dFlag = false) :
      Next s (.sendPost i .dFlag) (.sendPost i .size)
  | sendPostExchange (i : Nat) (h : 0 < (s.sessionArray i).size) :
      Next s (.sendPost i .size) (.sendPost i .exchange)
  | sendPostInc (i : Nat) (h : (s.sessionArray i).sendFlag = false) :
      Next s (.sendPost i .exchange) (.sendPost i .inc)
  | sendPostDequeue (i : Nat) (h : (s.sessionArray i).releaseFlag = false) :
      Next s (.sendPost i .inc) (.sendPost i (.dequeue 0))
  | sendPostTake (i k : Nat) : Next s (.sendPost i (.dequeue k)) (.sendPost i (.take k))
  | sendPostRestore (i k : Nat) : Next s (.sendPost i (.dequeue k)) (.sendPost i (.restore k))
  | sendPostFull (i k : Nat) : Next s (.sendPost i (.dequeue k)) (.sendPost i (.count k))
  | sendPostSpin (i k : Nat) : Next s (.sendPost i (.take k)) (.sendPost i (.take k))
  | sendPostTaken (i k : Nat) : Next s (.sendPost i (.take k)) (.sendPost i (.dequeue (k + 1)))
  | sendPostCount (i k : Nat) : Next s (.sendPost i (.restore k)) (.sendPost i (.count k))
  | sendPostReset (i : Nat) : Next s (.sendPost i (.count 0)) (.sendPost i .reset)
  | sendPostWsaSend (i k : Nat) (h : k ≠ 0) :
      Next s (.sendPost i (.count k)) (.sendPost i (.wsaSend k))
  | sendPostResize (i : Nat) : Next s (.sendPost i .reset) (.sendPost i .resize)
  | sendPostAgain (i : Nat) : Next s (.sendPost i .resize) (.sendPost i .dFlag)
  | sendPostRecheck (i k : Nat) : Next s (.sendPost i (.wsaSend k)) (.sendPost i .recheck)
  | sendPostCancel (i : Nat) (h : (s.sessionArray i).dFlag = true) :
      Next s (.sendPost i .recheck) (.sendPost i .cancel)
  | releaseBody (i : Nat) (h : s.isZero i = true) : Next s (.release i .cas) (.release i (.drop 0))
  | releaseDrop (i k : Nat) : Next s (.release i (.drop k)) (.release i (.drop (k + 1)))
  | releaseZero (i k : Nat) : Next s (.release i (.drop k)) (.release i .zero)
  | releaseClear (i : Nat) : Next s (.release i .zero) (.release i .clear)
  | releaseTake (i : Nat) : Next s (.release i .clear) (.release i .clearTake)
  | releaseRestore (i : Nat) : Next s (.release i .clear) (.release i .clearRestore)
  | releaseSpin (i : Nat) : Next s (.release i .clearTake) (.release i .clearTake)
  | releaseTaken (i : Nat) (tag : Tag) : Next s (.release i .clearTake) (.release i (.clearDrop tag))
  | releaseAgain (i : Nat) (tag : Tag) : Next s (.release i (.clearDrop tag)) (.release i .clear)
  | releaseCount (i : Nat) : Next s (.release i .clearRestore) (.release i .sessionCount)
  | releaseLeave (i : Nat) : Next s (.release i .sessionCount) (.release i .leave)
  | releaseOnRelease (i : Nat) : Next s (.release i .leave) (.release i .onRelease)
  | releasePush (i : Nat) : Next s (.release i .onRelease) (.release i .push)
  | pop (i : Nat) : Next s .pop (.accept i .sessionCount)
  | acceptClear (i : Nat) : Next s (.accept i .sessionCount) (.accept i .clear)
  | acceptTake (i : Nat) : Next s (.accept i .clear) (.accept i .clearTake)
  | acceptRestore (i : Nat) : Next s (.accept i .clear) (.accept i .clearRestore)
  | acceptSpin (i : Nat) : Next s (.accept i .clearTake) (.accept i .clearTake)
  | acceptTaken (i : Nat) (tag : Tag) : Next s (.accept i .clearTake) (.accept i (.clearDrop tag))
  | acceptAgain (i : Nat) (tag : Tag) : Next s (.accept i (.clearDrop tag)) (.accept i .clear)
  | acceptSessionID (i : Nat) : Next s (.accept i .clearRestore) (.accept i .sessionID)
  | acceptTime (i : Nat) : Next s (.accept i .sessionID) (.accept i .time)
  | acceptFirstRecv (i : Nat) : Next s (.accept i .time) (.accept i .firstRecv)
  | acceptSendFlag (i : Nat) : Next s (.accept i .firstRecv) (.accept i .sendFlag)
  | acceptInc (i : Nat) : Next s (.accept i .sendFlag) (.accept i .inc)
  | acceptAnd (i : Nat) : Next s (.accept i .inc) (.accept i .and)
  | acceptContentsNum (i : Nat) : Next s (.accept i .and) (.accept i .contentsNum)
  | acceptDFlag (i : Nat) : Next s (.accept i .contentsNum) (.accept i .dFlag)
  | acceptSessionKey (i : Nat) : Next s (.accept i .dFlag) (.accept i .sessionKey)
  | acceptOnAccept (i : Nat) : Next s (.accept i .sessionKey) (.accept i .onAccept)
  | acceptEnter (i : Nat) : Next s (.accept i .onAccept) (.accept i .enter)
  | acceptWsaRecv (i : Nat) : Next s (.accept i .enter) (.accept i .wsaRecv)
  | sweepDFlag (regular : Bool) (now : UInt64) (i : Nat) :
      Next s (.sweep regular now i .sessionID)
        (.sweep regular now i (.dFlag (s.sessionArray i).sessionID))
  | sweepFirstRecv (regular : Bool) (now : UInt64) (i : Nat) (session : SessionID) :
      Next s (.sweep regular now i (.dFlag session)) (.sweep regular now i (.firstRecv session))
  | sweepTime (regular : Bool) (now : UInt64) (i : Nat) (session : SessionID) :
      Next s (.sweep regular now i (.firstRecv session)) (.sweep regular now i (.time session))
  | sweepDisconnect (regular : Bool) (now : UInt64) (i : Nat) (session : SessionID) :
      Next s (.sweep regular now i (.time session)) (.disconnect session .inc)
  | sweepNext (regular : Bool) (now : UInt64) (i : Nat) (pc : SweepPc) :
      Next s (.sweep regular now i pc) (.sweep regular now (i + 1) .sessionID)

/-- A frame at a slot stays at it. -/
theorem Next.slot_eq (h : Next s frame next) (hslot : frame.slot ≠ none) :
    next.slot = frame.slot := by
  cases h with
  | drop frame i direct h => exact h.symm
  | pop i => exact absurd rfl hslot
  | sweepDFlag | sweepFirstRecv | sweepTime | sweepDisconnect | sweepNext => exact absurd rfl hslot
  | _ => rfl

section

open ContentsServer

theorem enterCall_next {i : Nat} {check : Frame} (hslot : frame.slot = some i)
    (hcheck : (s.sessionArray i).releaseFlag = false → Next s frame check)
    (h : next ∈ (s.enterCall i check).2) : Next s frame next := by
  simp only [enterCall] at h
  split at h
  · obtain rfl := List.mem_singleton.mp h
    exact .drop _ _ _ hslot
  · rename_i hflag
    obtain rfl := List.mem_singleton.mp h
    exact hcheck (by simpa using hflag)

theorem disconnectStep_next {id : SessionID} {pc : DisconnectPc}
    (h : next ∈ (s.disconnectStep id pc).2) : Next s (.disconnect id pc) next := by
  cases pc with
  | inc => exact enterCall_next rfl (.disconnectCheck id) h
  | check =>
      simp only [disconnectStep] at h
      split at h <;> obtain rfl := List.mem_singleton.mp h
      · exact .disconnectMark id ‹_›
      · exact .drop _ _ _ rfl
  | mark =>
      obtain rfl := List.mem_singleton.mp h
      exact .disconnectCancel id
  | cancel =>
      obtain rfl := List.mem_singleton.mp h
      exact .drop _ _ _ rfl

theorem sendPacketStep_next {id : SessionID} {outcome : Outcome} {pc : SendPacketPc}
    (h : next ∈ (s.sendPacketStep id outcome pc).2) : Next s (.sendPacket id pc) next := by
  cases pc with
  | inc => exact enterCall_next rfl (.sendPacketCheck id) h
  | check =>
      simp only [sendPacketStep] at h
      split at h <;> obtain rfl := List.mem_singleton.mp h
      · exact .sendPacketDFlag id ‹_›
      · exact .drop _ _ _ rfl
  | dFlag =>
      simp only [sendPacketStep] at h
      split at h <;> obtain rfl := List.mem_singleton.mp h
      · exact .drop _ _ _ rfl
      · exact .sendPacketEnqueue id (eq_false_of_ne_true ‹_›)
  | enqueue =>
      simp only [sendPacketStep] at h
      split at h
      · rcases List.mem_pair.mp h with rfl | rfl
        · exact .sendPacketFull id
        · exact .drop _ _ _ rfl
      · obtain rfl := List.mem_singleton.mp h
        exact .sendPacketSize id
  | size =>
      obtain rfl := List.mem_singleton.mp h
      exact .sendPacketPost id
  | post =>
      obtain rfl := List.mem_singleton.mp h
      exact .drop _ _ _ rfl

theorem tryMoveStep_next {id : SessionID} {contentsNum : Int} {pc : TryMovePc}
    (h : next ∈ (s.tryMoveStep id contentsNum pc).2) : Next s (.tryMove id contentsNum pc) next := by
  cases pc with
  | inc => exact enterCall_next rfl (.tryMoveCheck id contentsNum) h
  | check =>
      simp only [tryMoveStep] at h
      split at h <;> obtain rfl := List.mem_singleton.mp h
      · exact .tryMoveDFlag id contentsNum ‹_›
      · exact .drop _ _ _ rfl
  | dFlag =>
      simp only [tryMoveStep] at h
      split at h <;> obtain rfl := List.mem_singleton.mp h
      · exact .drop _ _ _ rfl
      · exact .tryMoveStore id contentsNum (eq_false_of_ne_true ‹_›)
  | store =>
      obtain rfl := List.mem_singleton.mp h
      exact .drop _ _ _ rfl

theorem recvPostStep_next {i : Nat} {outcome : Outcome} {pc : RecvPostPc}
    (h : next ∈ (s.recvPostStep i outcome pc).2) : Next s (.recvPost i pc) next := by
  cases pc with
  | dFlag =>
      simp only [recvPostStep] at h
      split at h <;> obtain rfl := List.mem_singleton.mp h
      · exact .drop _ _ _ rfl
      · exact .recvPostInc i (eq_false_of_ne_true ‹_›)
  | inc =>
      obtain rfl := List.mem_singleton.mp h
      exact .recvPostWsaRecv i
  | wsaRecv =>
      cases outcome with
      | done =>
          obtain rfl := List.mem_singleton.mp h
          exact .drop _ _ _ rfl
      | pending =>
          obtain rfl := List.mem_singleton.mp h
          exact .recvPostRecheck i
      | failed => rcases List.mem_pair.mp h with rfl | rfl <;> exact .drop _ _ _ rfl
  | recheck =>
      simp only [recvPostStep] at h
      split at h <;> obtain rfl := List.mem_singleton.mp h
      · exact .recvPostCancel i ‹_›
      · exact .drop _ _ _ rfl
  | cancel =>
      obtain rfl := List.mem_singleton.mp h
      exact .drop _ _ _ rfl

theorem sentStep_next {i : Nat} {pc : SentPc} (h : next ∈ (s.sentStep i pc).2) :
    Next s (.sent i pc) next := by
  cases pc with
  | drop k =>
      simp only [sentStep] at h
      split at h <;> obtain rfl := List.mem_singleton.mp h
      · exact .sentDrop i k
      · exact .sentZero i k
  | zero =>
      obtain rfl := List.mem_singleton.mp h
      exact .sentSendFlag i
  | sendFlag =>
      rcases List.mem_pair.mp h with rfl | rfl
      · exact .sentSendPost i
      · exact .drop _ _ _ rfl

theorem sendPostStep_next {i : Nat} {outcome : Outcome} {pc : SendPostPc}
    (h : next ∈ (s.sendPostStep i outcome pc).2) : Next s (.sendPost i pc) next := by
  cases pc with
  | dFlag =>
      simp only [sendPostStep] at h
      split at h
      · simp at h
      · obtain rfl := List.mem_singleton.mp h
        exact .sendPostSize i (eq_false_of_ne_true ‹_›)
  | size =>
      simp only [sendPostStep] at h
      split at h
      · obtain rfl := List.mem_singleton.mp h
        exact .sendPostExchange i ‹_›
      · simp at h
  | exchange =>
      simp only [sendPostStep] at h
      split at h
      · simp at h
      · obtain rfl := List.mem_singleton.mp h
        exact .sendPostInc i (eq_false_of_ne_true ‹_›)
  | inc =>
      simp only [sendPostStep] at h
      split at h <;> obtain rfl := List.mem_singleton.mp h
      · exact .drop _ _ _ rfl
      · exact .sendPostDequeue i (eq_false_of_ne_true ‹_›)
  | dequeue k =>
      simp only [sendPostStep] at h
      split at h
      · dsimp only at h
        split at h <;> obtain rfl := List.mem_singleton.mp h
        · exact .sendPostRestore i k
        · exact .sendPostTake i k
      · obtain rfl := List.mem_singleton.mp h
        exact .sendPostFull i k
  | take k =>
      simp only [sendPostStep] at h
      split at h <;> obtain rfl := List.mem_singleton.mp h
      · exact .sendPostSpin i k
      · exact .sendPostTaken i k
  | restore k =>
      obtain rfl := List.mem_singleton.mp h
      exact .sendPostCount i k
  | count k =>
      simp only [sendPostStep] at h
      split at h <;> obtain rfl := List.mem_singleton.mp h
      · rename_i hk
        subst hk
        exact .sendPostReset i
      · exact .sendPostWsaSend i k ‹_›
  | reset =>
      obtain rfl := List.mem_singleton.mp h
      exact .sendPostResize i
  | resize =>
      simp only [sendPostStep] at h
      split at h
      · rcases List.mem_pair.mp h with rfl | rfl
        · exact .sendPostAgain i
        · exact .drop _ _ _ rfl
      · obtain rfl := List.mem_singleton.mp h
        exact .drop _ _ _ rfl
  | wsaSend k =>
      cases outcome with
      | done => simp [sendPostStep] at h
      | pending =>
          obtain rfl := List.mem_singleton.mp h
          exact .sendPostRecheck i k
      | failed =>
          obtain rfl := List.mem_singleton.mp h
          exact .drop _ _ _ rfl
  | recheck =>
      simp only [sendPostStep] at h
      split at h
      · obtain rfl := List.mem_singleton.mp h
        exact .sendPostCancel i ‹_›
      · simp at h
  | cancel => simp [sendPostStep] at h

theorem releaseStep_next {i : Nat} {pc : ReleasePc} (h : next ∈ (s.releaseStep i pc).2) :
    Next s (.release i pc) next := by
  cases pc with
  | cas =>
      simp only [releaseStep] at h
      split at h
      · obtain rfl := List.mem_singleton.mp h
        exact .releaseBody i ‹_›
      · simp at h
  | drop k =>
      simp only [releaseStep] at h
      split at h <;> obtain rfl := List.mem_singleton.mp h
      · exact .releaseDrop i k
      · exact .releaseZero i k
  | zero =>
      obtain rfl := List.mem_singleton.mp h
      exact .releaseClear i
  | clear =>
      simp only [releaseStep] at h
      split at h <;> obtain rfl := List.mem_singleton.mp h
      · exact .releaseRestore i
      · exact .releaseTake i
  | clearTake =>
      simp only [releaseStep] at h
      split at h <;> obtain rfl := List.mem_singleton.mp h
      · exact .releaseSpin i
      · exact .releaseTaken i _
  | clearDrop tag =>
      obtain rfl := List.mem_singleton.mp h
      exact .releaseAgain i tag
  | clearRestore =>
      obtain rfl := List.mem_singleton.mp h
      exact .releaseCount i
  | sessionCount =>
      obtain rfl := List.mem_singleton.mp h
      exact .releaseLeave i
  | leave =>
      obtain rfl := List.mem_singleton.mp h
      exact .releaseOnRelease i
  | onRelease =>
      obtain rfl := List.mem_singleton.mp h
      exact .releasePush i
  | push => simp [releaseStep] at h

theorem acceptStep_next {i : Nat} {now : UInt64} {outcome : Outcome} {pc : AcceptPc}
    (h : next ∈ (acceptStep cfg s i now outcome pc).2) : Next s (.accept i pc) next := by
  cases pc with
  | clear =>
      simp only [acceptStep] at h
      split at h <;> obtain rfl := List.mem_singleton.mp h
      · exact .acceptRestore i
      · exact .acceptTake i
  | clearTake =>
      simp only [acceptStep] at h
      split at h <;> obtain rfl := List.mem_singleton.mp h
      · exact .acceptSpin i
      · exact .acceptTaken i _
  | wsaRecv =>
      cases outcome with
      | done => simp [acceptStep] at h
      | pending => simp [acceptStep] at h
      | failed =>
          obtain rfl := List.mem_singleton.mp h
          exact .drop _ _ _ rfl
  | _ =>
      obtain rfl := List.mem_singleton.mp h
      constructor

theorem sweepStep_next {regular : Bool} {now : UInt64} {i : Nat} {pc : SweepPc}
    (h : next ∈ (sweepStep cfg s regular now i pc).2) : Next s (.sweep regular now i pc) next := by
  cases pc with
  | sessionID =>
      simp only [sweepStep] at h
      split at h
      · obtain rfl := List.mem_singleton.mp h
        exact .sweepDFlag regular now i
      · simp at h
  | dFlag session =>
      simp only [sweepStep] at h
      split at h <;> obtain rfl := List.mem_singleton.mp h
      · exact .sweepNext regular now i _
      · exact .sweepFirstRecv regular now i session
  | firstRecv session =>
      simp only [sweepStep] at h
      split at h <;> obtain rfl := List.mem_singleton.mp h
      · exact .sweepTime regular now i session
      · exact .sweepNext regular now i _
  | time session =>
      simp only [sweepStep] at h
      split at h
      · rcases List.mem_pair.mp h with rfl | rfl
        · exact .sweepDisconnect regular now i session
        · exact .sweepNext regular now i _
      · obtain rfl := List.mem_singleton.mp h
        exact .sweepNext regular now i _

/-- **Where one step of a frame leads.** -/
theorem runFrame_next {now : UInt64} {outcome : Outcome} {frame : Frame}
    (h : next ∈ (s.runFrame cfg now outcome frame).2) : Next s frame next := by
  cases frame with
  | disconnect id pc => exact disconnectStep_next h
  | sendPacket id pc => exact sendPacketStep_next h
  | tryMove id contentsNum pc => exact tryMoveStep_next h
  | drop i direct =>
      simp only [runFrame, dropStep] at h
      split at h
      · obtain rfl := List.mem_singleton.mp h
        exact .dead i direct ‹_›
      · simp at h
  | dead i direct =>
      cases direct with
      | false =>
          obtain rfl := List.mem_singleton.mp h
          exact .postRelease i
      | true =>
          obtain rfl := List.mem_singleton.mp h
          exact .releaseNow i
  | postRelease i => simp [runFrame] at h
  | recv i pc =>
      cases pc <;> obtain rfl := List.mem_singleton.mp h <;> constructor
  | recvPost i pc => exact recvPostStep_next h
  | sent i pc => exact sentStep_next h
  | sendPost i pc => exact sendPostStep_next h
  | release i pc => exact releaseStep_next h
  | pop =>
      simp only [runFrame, popStep] at h
      split at h
      · simp at h
      · obtain rfl := List.mem_singleton.mp h
        exact .pop _
  | accept i pc => exact acceptStep_next h
  | sweep regular now' i pc => exact sweepStep_next h

end

end SessionServer.ContentLib
