/-
  ContentLib/RecvBounds.lean --- received frames and the buffers they are copied to.

  `RecvCompletion` is written out eight times: for each branch and type of `ContentsServer`,
  and for each type of `CoreClient`.  The copies differ in the header, in where the frame
  goes, and in what they check before it goes there.  A copy is one `FrameLoop`; a step is a
  completion or one round of the `while (1)` it has started.
-/
import SessionServer.ContentLib.LanFrame
import SessionServer.ContentLib.Broadcast
import SessionServer.ContentLib.RecvPost
import SessionServer.Foundation.Run

set_option autoImplicit false

namespace SessionServer.ContentLib

open SessionServer.Common SessionServer.Foundation

/-! ## The copies -/

/-- What distinguishes the copies of the loop. -/
structure FrameLoop where
  /-- `sizeof` of the header -/
  headerSize : Nat
  /-- the length field of the header -/
  len : List UInt8 → Nat
  /-- what is added to it -/
  extra : Nat
  /-- `ClearAtLServer` or `ClearAtNServer` -/
  clear : Common.SBuffer → Common.SBuffer
  /-- disconnects where `len + sizeof(header) >= BUFFER_DEFAULT` -/
  bounded : Bool
  /-- disconnects where the code of the header is not the own one -/
  coded : Bool
  /-- `Dequeue`, or else `MoveFront` -/
  takes : Bool
  /-- `Decode`, whose `false` disconnects -/
  decode : UInt8 → SBuffer → Bool

/-- `LanHEADER` of the server: a code and a byte. -/
def serverLan : FrameLoop where
  headerSize := LanHEADER.size
  len header := (LanHEADER.ofBytes header).len.toNat
  extra := 0
  clear := Common.SBuffer.clearAtLServer
  bounded := false
  coded := false
  takes := true
  decode _ _ := true

/-- `NetHEADER`, in the branch without contents. -/
def serverNet : FrameLoop where
  headerSize := 5
  len header := leNat ((header.drop 1).take 2)
  extra := 0
  clear := Common.SBuffer.clearAtNServer
  bounded := true
  coded := true
  takes := true
  decode fixedKey msg := (ContentsServer.decode fixedKey msg).2

/-- A loop of `RecvCompletion`. -/
inductive RecvLoop where
  /-- `ContentsServer`, LANSERVER -/
  | lan (branch : RecvBranch)
  /-- `ContentsServer`, NETSERVER -/
  | net (branch : RecvBranch)
  /-- `CoreClient`, LANCLIENT -/
  | lanClient
  /-- `CoreClient`, NETCLIENT -/
  | netClient
  deriving DecidableEq

def RecvLoop.text : RecvLoop → FrameLoop
  | lan .noContents => serverLan
  | lan .contents => { serverLan with extra := 1 }
  | lan .moving => { serverLan with takes := false }
  | net .noContents => serverNet
  | net .contents => { serverNet with bounded := false }
  | net .moving => { serverNet with takes := false, decode := fun _ _ => true }
  | lanClient => { serverLan with len := fun header => leNat header }
  | netClient =>
      { serverNet with
          bounded := false
          decode := fun fixedKey msg => (CoreClient.decode fixedKey msg).2 }

/-! ## One round -/

/-- What a round makes of the bytes in the ring. -/
inductive Round where
  | wait
  | disconnect
  | frame (size : Nat)
  deriving DecidableEq

namespace FrameLoop

/-- The bytes a frame with the given header has. -/
def frameSize (loop : FrameLoop) (header : List UInt8) : Nat :=
  loop.len header + loop.extra + loop.headerSize

def round (loop : FrameLoop) (code : UInt8) (recvQ : RingBuffer) : Round :=
  if recvQ.getUsedSize < loop.headerSize then .wait
  else
    let header := recvQ.peek loop.headerSize
    if loop.bounded = true ∧ loop.frameSize header ≥ BUFFER_DEFAULT then .disconnect
    else if loop.coded = true ∧ header.getD 0 0 ≠ code then .disconnect
    else if recvQ.getUsedSize < loop.frameSize header then .wait
    else .frame (loop.frameSize header)

end FrameLoop

/-- A buffer of the pool: its memory has the default size. -/
abbrev PooledBuffer := { msgbuf : Common.SBuffer // msgbuf.bufferSize = BUFFER_DEFAULT }

/-- A buffer that holds zeros. -/
def zeroBuffer : PooledBuffer := ⟨Common.SBuffer.new fun _ => 0, rfl⟩

/-- The buffer a frame has been copied to. -/
def FrameLoop.copied (loop : FrameLoop) (msgbuf : PooledBuffer) (bytes : List UInt8) :
    Common.SBuffer :=
  let msg := loop.clear msgbuf.1
  { msg with buffer := writeBytes msg.buffer msg.write bytes }.moveWritePos bytes.length

/-- The destination of the `Dequeue` of a round, as position and size. -/
def FrameLoop.destination (loop : FrameLoop) (code : UInt8) (recvQ : RingBuffer)
    (msgbuf : PooledBuffer) : Option (Int × Int) :=
  match loop.round code recvQ with
  | .frame size => if loop.takes then some ((loop.clear msgbuf.1).write, size) else none
  | _ => none

/-! ## A connection -/

/-- The end of a connection that receives. -/
inductive RecvParty where
  /-- `ContentsServer` with its `_type` and the numbers of its contents -/
  | contentsServer (type : ServerType) (registered : Int → Bool)
  | lanClient
  | netClient

namespace RecvParty

/-- The loop a completion starts; a number without a contents starts none. -/
def loop (contentsNum : Int) : RecvParty → Option RecvLoop
  | contentsServer type registered =>
      let pick := match type with
        | .lanServer => RecvLoop.lan
        | .netServer => RecvLoop.net
      if contentsNum = 0 then some (pick .noContents)
      else if contentsNum ≠ CONMOV then
        if registered contentsNum then some (pick .contents) else none
      else some (pick .moving)
  | lanClient => some .lanClient
  | netClient => some .netClient

/-- The memory a receive is posted into. -/
def segments (recvQ : RingBuffer) : RecvParty → List (Int × Int)
  | contentsServer _ _ => recvSegments recvQ
  | lanClient => CoreClient.recvSegments recvQ
  | netClient => CoreClient.recvSegments recvQ

end RecvParty

/-- A connection, with the loop that runs and the bytes of the peer still to arrive. -/
structure Connection where
  recvQ : RingBuffer
  running : Option RecvLoop
  connected : Bool
  incoming : List UInt8

/-- A completion with the number of its bytes and the `_contentsNum` it finds, or a round with
the buffer the pool gives it. -/
inductive RecvLabel where
  | complete (cbTransferred : Nat) (contentsNum : Int)
  | round (msgbuf : PooledBuffer)

/-- The end, its `_code` and its `_fixedKey`. -/
structure RecvConfig where
  party : RecvParty
  code : UInt8
  fixedKey : UInt8

namespace Connection

def complete (cfg : RecvConfig) (s : Connection) (cbTransferred : Nat) (contentsNum : Int) :
    Connection :=
  let received := scatter s.recvQ.buffer (cfg.party.segments s.recvQ)
    (s.incoming.take cbTransferred)
  { recvQ := { s.recvQ with buffer := received }.moveRear cbTransferred
    running := cfg.party.loop contentsNum
    connected := true
    incoming := s.incoming.drop cbTransferred }

def round (cfg : RecvConfig) (s : Connection) (loop : FrameLoop) (msgbuf : PooledBuffer) :
    Connection :=
  match loop.round cfg.code s.recvQ with
  | .wait => { s with running := none }
  | .disconnect => { s with running := none, connected := false }
  | .frame size =>
      if loop.takes then
        let taken := s.recvQ.dequeue size
        if loop.decode cfg.fixedKey (SBuffer.ofPacket (loop.copied msgbuf taken.2)) then
          { s with recvQ := taken.1 }
        else { s with recvQ := taken.1, running := none, connected := false }
      else { s with recvQ := s.recvQ.moveFront size }

/-- A completion comes to a connection that has not been given up, with no more bytes than
there was memory for. -/
def step (cfg : RecvConfig) (s : Connection) : RecvLabel → Option Connection
  | .complete cbTransferred contentsNum =>
      if s.connected = true ∧ s.running = none ∧ cbTransferred ≤ s.incoming.length ∧
          (cbTransferred : Int) ≤ ((cfg.party.segments s.recvQ).map Prod.snd).sum then
        some (s.complete cfg cbTransferred contentsNum)
      else none
  | .round msgbuf => s.running.map fun loop => s.round cfg loop.text msgbuf

/-- A connection just made, with the stream its peer is going to send. -/
def accepted (memory : Int → UInt8) (stream : List UInt8) : Connection where
  recvQ := (RingBuffer.new memory).clearBuffer
  running := none
  connected := true
  incoming := stream

/-- What a round copies goes to bytes of the buffer. -/
def Fits (cfg : RecvConfig) (s : Connection) (msgbuf : PooledBuffer) : Prop :=
  ∀ loop ∈ s.running, ∀ d ∈ loop.text.destination cfg.code s.recvQ msgbuf,
    0 ≤ d.1 ∧ d.1 + d.2 ≤ msgbuf.1.bufferSize

end Connection

/-! ## Declared lengths -/

/-- The copies without a bound on a length of two bytes. -/
def RecvLoop.unbounded : RecvLoop → Bool
  | net .contents => true
  | lanClient => true
  | netClient => true
  | _ => false

/-- A whole frame is in the ring, with the code that is asked for, and declares more bytes
than a buffer has room for behind the start of the frame. -/
def RecvLoop.Overlong (loop : RecvLoop) (code : UInt8) (recvQ : RingBuffer) : Prop :=
  let header := recvQ.peek loop.text.headerSize
  loop.text.headerSize ≤ recvQ.getUsedSize ∧ (loop.text.coded = true → header.getD 0 0 = code) ∧
    loop.text.frameSize header ≤ recvQ.getUsedSize ∧ 295 < loop.text.len header

instance (loop : RecvLoop) (code : UInt8) (recvQ : RingBuffer) :
    Decidable (loop.Overlong code recvQ) :=
  inferInstanceAs (Decidable (_ ∧ _ ∧ _ ∧ _))

namespace Connection

/-- A round of a copy without a bound does not meet an overlong frame. -/
def Sized (cfg : RecvConfig) (s : Connection) : Prop :=
  ∀ loop ∈ s.running, loop.unbounded = true → ¬ loop.Overlong cfg.code s.recvQ

end Connection

/-! ## One round, specified -/

/-- A round takes a frame that has arrived whole and passes the checks of its copy. -/
theorem FrameLoop.round_eq_frame_iff (loop : FrameLoop) {code : UInt8} {recvQ : RingBuffer}
    {size : Nat} :
    loop.round code recvQ = .frame size ↔
      loop.headerSize ≤ recvQ.getUsedSize ∧
        (loop.bounded = true → loop.frameSize (recvQ.peek loop.headerSize) < BUFFER_DEFAULT) ∧
        (loop.coded = true → (recvQ.peek loop.headerSize).getD 0 0 = code) ∧
        loop.frameSize (recvQ.peek loop.headerSize) ≤ recvQ.getUsedSize ∧
        size = loop.frameSize (recvQ.peek loop.headerSize) := by
  unfold round
  dsimp only
  split_ifs with hheader hbound hcode hwhole
  · simp [Int.not_le.mpr hheader]
  · simp [hbound.1, Nat.not_lt.mpr hbound.2]
  · refine iff_of_false (fun h => nomatch h) ?_
    exact fun h => hcode.2 (h.2.2.1 hcode.1)
  · simp [Int.not_le.mpr hwhole]
  · simp only [Round.frame.injEq]
    constructor
    · rintro rfl
      exact ⟨Int.not_lt.mp hheader, fun hb => Nat.lt_of_not_le fun hle => hbound ⟨hb, hle⟩,
        fun hc => not_not.mp fun hne => hcode ⟨hc, hne⟩, Int.not_lt.mp hwhole, rfl⟩
    · exact fun h => h.2.2.2.2.symm

theorem FrameLoop.mem_destination_iff (loop : FrameLoop) {code : UInt8} {recvQ : RingBuffer}
    {msgbuf : PooledBuffer} {d : Int × Int} :
    d ∈ loop.destination code recvQ msgbuf ↔
      loop.takes = true ∧ ∃ size, loop.round code recvQ = .frame size ∧
        d = ((loop.clear msgbuf.1).write, (size : Int)) := by
  unfold destination
  cases hround : loop.round code recvQ with
  | wait => simp
  | disconnect => simp
  | frame size =>
      cases htakes : loop.takes with
      | false => simp
      | true => simp [eq_comm]

theorem lan_round (branch : RecvBranch) (code : UInt8) (rb : RingBuffer) :
    (RecvLoop.lan branch).text.round code rb =
      if rb.getUsedSize < LanHEADER.size then .wait
      else if rb.getUsedSize < branch.frameSize (LanHEADER.ofBytes (rb.peek LanHEADER.size)) then
        .wait
      else .frame (branch.frameSize (LanHEADER.ofBytes (rb.peek LanHEADER.size))) := by
  cases branch <;> simp [RecvLoop.text, serverLan, FrameLoop.round, FrameLoop.frameSize,
    RecvBranch.frameSize]

/-- The LAN loops of the server are the loops over the frames of a LAN session. -/
theorem recvLoop_succ (branch : RecvBranch) (fuel : Nat) (code : UInt8) (rb : RingBuffer) :
    recvLoop branch (fuel + 1) rb =
      match (RecvLoop.lan branch).text.round code rb with
      | .frame size =>
          let consumed := branch.consume rb size
          let rest := recvLoop branch fuel consumed.1
          (rest.1, consumed.2 ++ rest.2)
      | _ => (rb, []) := by
  rw [lan_round, recvLoop]
  by_cases hheader : rb.getUsedSize < LanHEADER.size
  · rw [if_pos hheader, if_pos hheader]
  · rw [if_neg hheader, if_neg hheader]
    dsimp only
    split_ifs <;> rfl

/-- What a loop copies stays in the buffer where this holds of the frames that pass its
checks. -/
theorem FrameLoop.fits_iff (loop : FrameLoop) (code : UInt8) (recvQ : RingBuffer)
    (msgbuf : PooledBuffer) :
    (∀ d ∈ loop.destination code recvQ msgbuf, 0 ≤ d.1 ∧ d.1 + d.2 ≤ msgbuf.1.bufferSize) ↔
      (loop.takes = true → loop.headerSize ≤ recvQ.getUsedSize →
        (loop.bounded = true → loop.frameSize (recvQ.peek loop.headerSize) < BUFFER_DEFAULT) →
        (loop.coded = true → (recvQ.peek loop.headerSize).getD 0 0 = code) →
        loop.frameSize (recvQ.peek loop.headerSize) ≤ recvQ.getUsedSize →
        0 ≤ (loop.clear msgbuf.1).write ∧
          (loop.clear msgbuf.1).write + loop.frameSize (recvQ.peek loop.headerSize) ≤ 300) := by
  have hbuffer : msgbuf.1.bufferSize = 300 := msgbuf.2
  simp only [loop.mem_destination_iff, loop.round_eq_frame_iff, hbuffer]
  constructor
  · intro h htakes hheader hbounded hcoded hwhole
    exact h _ ⟨htakes, _, ⟨hheader, hbounded, hcoded, hwhole, rfl⟩, rfl⟩
  · rintro h d ⟨htakes, size, ⟨hheader, hbounded, hcoded, hwhole, rfl⟩, rfl⟩
    exact h htakes hheader hbounded hcoded hwhole

/-- A copy without a bound, which starts a frame of `len` bytes and a header so that 295 bytes
fill the buffer. -/
theorem FrameLoop.unbounded_fits_iff (loop : FrameLoop) (code : UInt8) (recvQ : RingBuffer)
    (msgbuf : PooledBuffer) (htakes : loop.takes = true) (hbounded : loop.bounded = false)
    (hstart : (loop.clear msgbuf.1).write + loop.headerSize = 5)
    (hnonneg : 0 ≤ (loop.clear msgbuf.1).write) (hextra : loop.extra = 0) :
    (∀ d ∈ loop.destination code recvQ msgbuf, 0 ≤ d.1 ∧ d.1 + d.2 ≤ msgbuf.1.bufferSize) ↔
      ¬ ((loop.headerSize : Int) ≤ recvQ.getUsedSize ∧
        (loop.coded = true → (recvQ.peek loop.headerSize).getD 0 0 = code) ∧
        loop.frameSize (recvQ.peek loop.headerSize) ≤ recvQ.getUsedSize ∧
        295 < loop.len (recvQ.peek loop.headerSize)) := by
  have hsize : loop.frameSize (recvQ.peek loop.headerSize) =
      loop.len (recvQ.peek loop.headerSize) + loop.headerSize := by
    rw [frameSize, hextra, Nat.add_zero]
  rw [loop.fits_iff]
  constructor
  · rintro h ⟨hheader, hcoded, hwhole, hlong⟩
    have hroom := (h htakes hheader (by simp [hbounded]) hcoded hwhole).2
    omega
  · intro h _ hheader _ hcoded hwhole
    have hshort : ¬ 295 < loop.len (recvQ.peek loop.headerSize) :=
      fun hlong => h ⟨hheader, hcoded, hwhole, hlong⟩
    exact ⟨hnonneg, by omega⟩

/-- **What a round copies stays in the buffer** unless a copy without a bound meets an
overlong frame. -/
theorem RecvLoop.fits_iff (loop : RecvLoop) (code : UInt8) (recvQ : RingBuffer)
    (msgbuf : PooledBuffer) :
    (∀ d ∈ loop.text.destination code recvQ msgbuf,
        0 ≤ d.1 ∧ d.1 + d.2 ≤ msgbuf.1.bufferSize) ↔
      (loop.unbounded = true → ¬ loop.Overlong code recvQ) := by
  have hbyte : ∀ header, serverLan.len header ≤ 255 := fun header =>
    Nat.le_of_lt_succ (LanHEADER.ofBytes header).len.toNat_lt
  -- A copy that is not unbounded takes nothing, a short LAN frame, or one it has compared.
  have hsafe : loop.unbounded = false →
      ∀ d ∈ loop.text.destination code recvQ msgbuf,
        0 ≤ d.1 ∧ d.1 + d.2 ≤ msgbuf.1.bufferSize := by
    intro hunbounded
    rw [FrameLoop.fits_iff]
    intro htakes _ hbounded _ _
    cases loop with
    | lan branch =>
        cases branch with
        | noContents =>
            have hlen := hbyte (recvQ.peek (lan .noContents).text.headerSize)
            show 0 ≤ (3 : Int) ∧ 3 + ((serverLan.len _ + 0 + 2 : Nat) : Int) ≤ 300
            omega
        | contents =>
            have hlen := hbyte (recvQ.peek (lan .contents).text.headerSize)
            show 0 ≤ (3 : Int) ∧ 3 + ((serverLan.len _ + 1 + 2 : Nat) : Int) ≤ 300
            omega
        | moving => cases htakes
    | net branch =>
        cases branch with
        | noContents =>
            have hsize := hbounded rfl
            show 0 ≤ (0 : Int) ∧ 0 + (FrameLoop.frameSize _ _ : Int) ≤ 300
            unfold BUFFER_DEFAULT at hsize
            omega
        | contents => cases hunbounded
        | moving => cases htakes
    | lanClient => cases hunbounded
    | netClient => cases hunbounded
  cases hunbounded : loop.unbounded with
  | false => exact ⟨fun _ h => absurd h Bool.false_ne_true, fun _ => hsafe hunbounded⟩
  | true =>
      refine Iff.trans ?_ (forall_prop_of_true rfl).symm
      cases loop with
      | lan branch => cases branch <;> cases hunbounded
      | net branch =>
          cases branch with
          | noContents => cases hunbounded
          | contents =>
              exact FrameLoop.unbounded_fits_iff _ code recvQ msgbuf rfl rfl rfl le_rfl rfl
          | moving => cases hunbounded
      | lanClient =>
          exact FrameLoop.unbounded_fits_iff _ code recvQ msgbuf rfl rfl rfl
            (Int.natCast_nonneg 3) rfl
      | netClient =>
          exact FrameLoop.unbounded_fits_iff _ code recvQ msgbuf rfl rfl rfl le_rfl rfl

/-! ## Whole runs -/

/-- **Received frames fit their buffer** in every round of a run, exactly where no round of a
copy without a bound meets an overlong frame. -/
theorem received_frames_fit_iff (cfg : RecvConfig) (memory : Int → UInt8)
    (stream : List UInt8) (labels : List RecvLabel) :
    (∀ before msgbuf later s, labels = before ++ .round msgbuf :: later →
        exec (Connection.step cfg) (Connection.accepted memory stream) before = some s →
        s.Fits cfg msgbuf) ↔
      ∀ before msgbuf later s, labels = before ++ .round msgbuf :: later →
        exec (Connection.step cfg) (Connection.accepted memory stream) before = some s →
        s.Sized cfg := by
  have hround : ∀ (s : Connection) (msgbuf : PooledBuffer),
      s.Fits cfg msgbuf ↔ s.Sized cfg := by
    intro s msgbuf
    exact forall₂_congr fun loop _ => loop.fits_iff cfg.code s.recvQ msgbuf
  simp only [hround]

/-- One frame to a registered contents of a NETSERVER that declares 296 bytes: 301 bytes are
copied to the 300 of the buffer. -/
def overlongFrame : List UInt8 := [0x77, 40, 1, 0, 0] ++ List.replicate 296 0

theorem overlongFrame_overruns :
    ¬ ∀ (cfg : RecvConfig) (memory : Int → UInt8) (stream : List UInt8) (labels : List RecvLabel),
      ∀ before msgbuf later s, labels = before ++ .round msgbuf :: later →
        exec (Connection.step cfg) (Connection.accepted memory stream) before = some s →
        s.Fits cfg msgbuf := by
  intro h
  let cfg : RecvConfig := ⟨.contentsServer .netServer fun n => n == 1, 0x77, 0x32⟩
  let msgbuf := zeroBuffer
  let start := Connection.accepted (fun _ => 0) overlongFrame
  let s := start.complete cfg 301 1
  have hfacts : (start.step cfg (.complete 301 1)).isSome = true ∧
      (RecvLoop.net .contents).Overlong cfg.code s.recvQ := by decide +kernel
  have hrun : exec (Connection.step cfg) start [.complete 301 1] = some s := by
    obtain ⟨t, ht⟩ := Option.isSome_iff_exists.mp hfacts.1
    have hstep := ht
    simp only [Connection.step, Option.ite_none_right_eq_some, Option.some.injEq] at hstep
    rw [exec_cons, ht, ← hstep.2]
    rfl
  have hfits := h cfg (fun _ => 0) overlongFrame [.complete 301 1, .round msgbuf]
    [.complete 301 1] msgbuf [] s rfl hrun
  exact (RecvLoop.fits_iff (.net .contents) cfg.code s.recvQ msgbuf).mp (hfits _ rfl) rfl hfacts.2

end SessionServer.ContentLib
