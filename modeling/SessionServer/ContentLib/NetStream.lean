/-
  ContentLib/NetStream.lean --- a stream of encrypted packets, received in pieces.

  Every NET copy of the loop of `RecvCompletion` takes `len` bytes and a header, so that a
  session keeps its place in the stream whatever branch a completion finds.  A packet that
  `SetBufferHeader` and `Encode` have prepared passes the checks of all of them, and what
  `Decode` leaves in the buffer it was copied to is the packet.
-/
import SessionServer.ContentLib.FrameStream
import SessionServer.ContentLib.RecvBounds
import SessionServer.Foundation.Expansion

set_option autoImplicit false

namespace SessionServer.ContentLib

open SessionServer.Common SessionServer.Foundation

/-! ## Messages in other buffers -/

namespace SBuffer

/-- The first bytes are the same. -/
def Agree (n : Nat) (msg other : SBuffer) : Prop := ∀ j < n, other.byte j = msg.byte j

theorem Agree.len {n : Nat} {msg other : SBuffer} (h : Agree n msg other) (hn : 3 ≤ n) :
    other.len = msg.len := by
  rw [SBuffer.len, SBuffer.len, h 1 (by omega), h 2 (by omega)]

theorem Agree.randKey {n : Nat} {msg other : SBuffer} (h : Agree n msg other) (hn : 4 ≤ n) :
    other.randKey = msg.randKey := by
  rw [SBuffer.randKey, SBuffer.randKey, h 3 (by omega)]

theorem Agree.checksum {n len : Nat} {msg other : SBuffer} (h : Agree n msg other)
    (hn : 5 + len ≤ n) : other.checksum len = msg.checksum len := by
  refine List.foldl_ext _ _ _ fun sum i hi => ?_
  have := List.mem_range.mp hi
  rw [h (5 + i) (by omega)]

theorem getElem?_eq_of_byte {msg other : SBuffer} {j : Nat} (h : other.byte j = msg.byte j) :
    other.buffer[j]? = msg.buffer[j]? := by
  by_cases hj : j < BUFFER_DEFAULT
  · simp only [byte, Vector.getElem?_eq_getElem hj, Option.getD_some] at h
    rw [Vector.getElem?_eq_getElem hj, Vector.getElem?_eq_getElem hj, h]
  · rw [Vector.getElem?_eq_none (by omega), Vector.getElem?_eq_none (by omega)]

end SBuffer

/-- **`Decode` looks at the message only**, not at what is behind it in the buffer. -/
theorem decodeNet_agree (fixedKey : UInt8) {msg other : SBuffer}
    (h : SBuffer.Agree (5 + msg.len.toNat) msg other) :
    (decodeNet fixedKey other).2 = (decodeNet fixedKey msg).2 ∧
      SBuffer.Agree (5 + msg.len.toNat) (decodeNet fixedKey msg).1 (decodeNet fixedKey other).1 := by
  have hlen := h.len (by omega)
  have hkey := h.randKey (by omega)
  have hagree : SBuffer.Agree (5 + msg.len.toNat) (decodeNet fixedKey msg).1
      (decodeNet fixedKey other).1 := by
    intro j hj
    by_cases hheader : j < 4
    · rw [decodeNet_byte (Or.inl hheader), decodeNet_byte (Or.inl hheader), h j hj]
    · have hbytes : ∀ k, 4 ≤ k → k < 4 + (msg.len.toNat + 1) →
          other.buffer[k]? = msg.buffer[k]? :=
        fun k _ hk => SBuffer.getElem?_eq_of_byte (h k (by omega))
      have hcell := @scan_congr _ _ _ (decodeRound fixedKey msg.randKey) _ 4 (0, 0) _ _ hbytes
        j (by omega) (by omega)
      simp only [SBuffer.byte, decodeNet, hlen, hkey, hcell]
  refine ⟨?_, hagree⟩
  have hsum := hagree.checksum (Nat.le_refl (5 + msg.len.toNat))
  have hown : ∀ packet : SBuffer, (decodeNet fixedKey packet).2 =
      (((decodeNet fixedKey packet).1.byte 4).toUInt8 ==
        (decodeNet fixedKey packet).1.checksum packet.len.toNat) := fun _ => rfl
  rw [hown, hown, hlen, hsum, hagree 4 (by omega)]

/-! ## The packets of a sender -/

/-- A packet, with what `rand()` answers when it is prepared.  A payload of 294 bytes is the
longest that the check of the length lets through at the other end. -/
structure NetPacket where
  rand : Nat
  msg : SBuffer
  size : msg.dataSize + 5 < BUFFER_DEFAULT

namespace NetPacket

/-- The bytes a sender passes on. -/
def frame (sender : NetEnd) (code fixedKey : UInt8) (packet : NetPacket) : List UInt8 :=
  (sender.encode fixedKey (sender.setBufferHeader code packet.rand packet.msg)).wire

end NetPacket

/-- The bytes of the packets, one after the other. -/
def netStream (sender : NetEnd) (code fixedKey : UInt8) (packets : List NetPacket) : List UInt8 :=
  packets.flatMap (NetPacket.frame sender code fixedKey)

/-! ## Frames -/

/-- The bytes a receiver takes for the frame at the front. -/
def netSize (bytes : List UInt8) : Nat := serverNet.frameSize (bytes.take 5)

/-- A whole frame that passes the checks made on a header. -/
structure IsNetFrame (code : UInt8) (bytes : List UInt8) : Prop where
  header : 5 ≤ bytes.length
  code : bytes.getD 0 0 = code
  size : netSize bytes = bytes.length
  bounded : bytes.length < BUFFER_DEFAULT

theorem netSize_append {bytes : List UInt8} (h : 5 ≤ bytes.length) (more : List UInt8) :
    netSize (bytes ++ more) = netSize bytes := by
  rw [netSize, netSize, List.take_append_of_le_length h]

theorem getD_append {bytes : List UInt8} (h : 5 ≤ bytes.length) (more : List UInt8) :
    (bytes ++ more).getD 0 0 = bytes.getD 0 0 := by
  rw [List.getD_eq_getElem?_getD, List.getD_eq_getElem?_getD, List.getElem?_append_left (by omega)]

/-- A frame is at the front of the bytes. -/
def HasNetFrame (code : UInt8) (bytes : List UInt8) : Prop :=
  5 ≤ bytes.length ∧ bytes.getD 0 0 = code ∧ netSize bytes ≤ bytes.length ∧
    netSize bytes < BUFFER_DEFAULT

instance (code : UInt8) (bytes : List UInt8) : Decidable (HasNetFrame code bytes) :=
  inferInstanceAs (Decidable (_ ∧ _ ∧ _ ∧ _))

theorem five_le_netSize (bytes : List UInt8) : 5 ≤ netSize bytes := Nat.le_add_left _ _

theorem HasNetFrame.take {code : UInt8} {bytes : List UInt8} (h : HasNetFrame code bytes) :
    IsNetFrame code (bytes.take (netSize bytes)) := by
  obtain ⟨_, hcode, hwhole, hbounded⟩ := h
  have hfive := five_le_netSize bytes
  have hlength : (bytes.take (netSize bytes)).length = netSize bytes :=
    List.length_take_of_le hwhole
  have hsplit := List.take_append_drop (netSize bytes) bytes
  refine ⟨by omega, ?_, ?_, by omega⟩
  · rw [← getD_append (by omega) (bytes.drop (netSize bytes)), hsplit, hcode]
  · rw [hlength, ← netSize_append (by omega) (bytes.drop (netSize bytes)), hsplit]

theorem IsNetFrame.append {code : UInt8} {frame : List UInt8} (h : IsNetFrame code frame)
    (rest : List UInt8) : HasNetFrame code (frame ++ rest) := by
  have hsize := netSize_append h.header rest
  refine ⟨?_, (getD_append h.header rest).trans h.code, ?_, ?_⟩
  · rw [List.length_append]
    exact Nat.le_add_right_of_le h.header
  · rw [hsize, h.size, List.length_append]
    exact Nat.le_add_right _ _
  · rw [hsize, h.size]
    exact h.bounded

/-- A part of a frame has less than a header, or less than the header declares. -/
theorem IsNetFrame.cut {code : UInt8} {frame part : List UInt8} (h : IsNetFrame code frame)
    (hpre : part <+: frame) (hne : part ≠ frame) :
    part.length < 5 ∨ (part.getD 0 0 = code ∧ netSize part = frame.length ∧
      part.length < frame.length) := by
  obtain ⟨more, rfl⟩ := hpre
  by_cases hheader : part.length < 5
  · exact Or.inl hheader
  · have hpos : more.length ≠ 0 := by
      intro hnil
      rw [List.length_eq_zero_iff.mp hnil, List.append_nil] at hne
      exact hne rfl
    refine Or.inr ⟨?_, ?_, ?_⟩
    · rw [← getD_append (Nat.not_lt.mp hheader) more, h.code]
    · rw [← netSize_append (Nat.not_lt.mp hheader) more, h.size]
    · rw [List.length_append]
      omega

/-- **The NET frames are a framing.** -/
def netFraming (code : UInt8) : Framing { bytes // IsNetFrame code bytes } UInt8 where
  encode frame := frame.val
  decode bytes :=
    if h : HasNetFrame code bytes then
      some (⟨bytes.take (netSize bytes), h.take⟩, bytes.drop (netSize bytes))
    else none
  decode_encode := by
    rintro ⟨frame, hframe⟩ rest
    have hsize : netSize (frame ++ rest) = frame.length := by
      rw [netSize_append hframe.header, hframe.size]
    rw [dif_pos (hframe.append rest)]
    simp only [hsize, List.take_left, List.drop_left]
  decode_partial := by
    rintro ⟨frame, hframe⟩ part hpre hne
    refine dif_neg fun hhas => ?_
    rcases hframe.cut hpre hne with hshort | ⟨_, hsize, hless⟩
    · exact absurd hhas.1 (Nat.not_le.mpr hshort)
    · have := hhas.2.2.1
      omega
  decode_nil := dif_neg fun hhas => absurd hhas.1 (by decide)

/-! ## The loops -/

/-- The copies of type NET. -/
def RecvLoop.isNet : RecvLoop → Bool
  | net _ => true
  | netClient => true
  | _ => false

/-- What the NET copies have in common. -/
theorem RecvLoop.isNet_text {loop : RecvLoop} (h : loop.isNet = true) :
    loop.text.headerSize = 5 ∧ loop.text.coded = true ∧
      (∀ header, loop.text.frameSize header = serverNet.frameSize header) ∧
      loop.text.clear = Common.SBuffer.clearAtNServer := by
  cases loop with
  | net branch => cases branch <;> exact ⟨rfl, rfl, fun _ => rfl, rfl⟩
  | netClient => exact ⟨rfl, rfl, fun _ => rfl, rfl⟩
  | _ => contradiction

section

variable {loop : RecvLoop} {code : UInt8} {rb : RingBuffer} {frame : List UInt8}

/-- A round takes the frame at the front of the ring. -/
theorem round_frame (hnet : loop.isNet = true) (h : rb.Valid) (hframe : IsNetFrame code frame)
    {rest : List UInt8} (hcontent : rb.content = frame ++ rest) :
    loop.text.round code rb = .frame frame.length := by
  obtain ⟨hheader, hcoded, hsize, _⟩ := loop.isNet_text hnet
  obtain ⟨hfive, hcode, hwhole, hbounded⟩ := hframe.append rest
  have hused := h.content_length
  have hpeek : rb.peek (5 : Nat) = (frame ++ rest).take 5 := by
    rw [← hcontent]
    exact h.peek_content 5
  have hdeclared : loop.text.frameSize (rb.peek (5 : Nat)) = frame.length := by
    rw [hsize, hpeek]
    exact (netSize_append hframe.header rest).trans hframe.size
  have hfirst : ((frame ++ rest).take 5).getD 0 0 = code := by
    rw [← hcode, ← getD_append (by rw [List.length_take]; omega) ((frame ++ rest).drop 5),
      List.take_append_drop]
  rw [loop.text.round_eq_frame_iff, hheader]
  rw [hcontent, List.length_append] at hused
  refine ⟨by rw [List.length_append] at hfive; omega, fun _ => ?_, fun _ => ?_, ?_, hdeclared.symm⟩
  · rw [hdeclared]
    exact hframe.bounded
  · rw [hpeek, hfirst]
  · rw [hdeclared]
    omega

/-- It waits on a part of a frame. -/
theorem round_wait (hnet : loop.isNet = true) (h : rb.Valid) (hframe : IsNetFrame code frame)
    (hpre : rb.content <+: frame) (hne : rb.content ≠ frame) :
    loop.text.round code rb = .wait := by
  obtain ⟨hheader, _, hsize, _⟩ := loop.isNet_text hnet
  have hused := h.content_length
  have hpeek : rb.peek (5 : Nat) = rb.content.take 5 := h.peek_content 5
  unfold FrameLoop.round
  rw [hheader]
  rcases hframe.cut hpre hne with hshort | ⟨hcode, hdeclared, hless⟩
  · rw [if_pos (by omega)]
  · by_cases hlong : rb.getUsedSize < ((5 : Nat) : Int)
    · rw [if_pos hlong]
    · have hfirst : (rb.content.take 5).getD 0 0 = code := by
        rw [← hcode, ← getD_append (by rw [List.length_take]; omega) (rb.content.drop 5),
          List.take_append_drop]
      have hframe_size : loop.text.frameSize (rb.peek (5 : Nat)) = frame.length := by
        rw [hsize, hpeek]
        exact hdeclared
      have hbounded := hframe.bounded
      rw [if_neg hlong]
      dsimp only
      rw [hframe_size, hpeek, hfirst, if_neg (by omega), if_neg (by simp), if_pos (by omega)]

/-- It waits on an empty ring. -/
theorem round_nil (hnet : loop.isNet = true) (h : rb.Valid) (hnil : rb.content = []) :
    loop.text.round code rb = .wait := by
  obtain ⟨hheader, _⟩ := loop.isNet_text hnet
  have hused := h.content_length
  rw [hnil] at hused
  unfold FrameLoop.round
  rw [hheader, if_pos (by rw [← hused]; decide)]

end

/-! ## Prepared packets -/

namespace NetPacket

variable (sender : NetEnd) (code fixedKey : UInt8) (packet : NetPacket)

/-- The packet as the sender leaves it. -/
def prepared : SBuffer := encodeNet fixedKey (setNetHeader code packet.rand packet.msg)

theorem frame_eq : packet.frame sender code fixedKey =
    (List.range (packet.msg.dataSize + 5)).map fun i =>
      ((packet.prepared code fixedKey).byte i).toUInt8 := by
  rw [frame, sender.encode_eq, sender.setBufferHeader_eq, SBuffer.wire]
  refine List.map_congr_left fun i _ => ?_
  show ((packet.prepared code fixedKey).byte (0 + i)).toUInt8 = _
  rw [Nat.zero_add]

@[simp] theorem frame_length :
    (packet.frame sender code fixedKey).length = packet.msg.dataSize + 5 := by
  rw [frame_eq, List.length_map, List.length_range]

theorem prepared_len : (packet.prepared code fixedKey).len.toNat = packet.msg.dataSize := by
  have hsize := packet.size
  simp only [BUFFER_DEFAULT] at hsize
  rw [prepared, encodeNet_len, setNetHeader_len, UInt16.toNat_ofNat']
  omega

/-- **A prepared packet is a frame.** -/
theorem isNetFrame : IsNetFrame code (packet.frame sender code fixedKey) := by
  have htake : (packet.frame sender code fixedKey).take 5 =
      (List.range 5).map fun i => ((packet.prepared code fixedKey).byte i).toUInt8 := by
    rw [frame_eq, ← List.map_take, List.take_range, Nat.min_eq_left (Nat.le_add_left 5 _)]
  refine ⟨?_, ?_, ?_, ?_⟩
  · rw [frame_length]
    exact Nat.le_add_left _ _
  · have hfirst : (packet.frame sender code fixedKey).getD 0 0 =
        ((packet.prepared code fixedKey).byte 0).toUInt8 := by
      rw [frame_eq, Nat.add_comm, List.range_add]
      rfl
    rw [hfirst, prepared, encodeNet_byte (Or.inl (by decide))]
    exact setNetHeader_code code packet.rand packet.msg
  · have hlen := packet.prepared_len code fixedKey
    have hbytes : leNat ((((packet.frame sender code fixedKey).take 5).drop 1).take 2) =
        (packet.prepared code fixedKey).len.toNat := by
      rw [htake, SBuffer.len, UInt16.toNat_ofNat']
      have hlow := ((packet.prepared code fixedKey).byte 1).toUInt8.toNat_lt
      have hhigh := ((packet.prepared code fixedKey).byte 2).toUInt8.toNat_lt
      show ((packet.prepared code fixedKey).byte 1).toUInt8.toNat +
        256 * (((packet.prepared code fixedKey).byte 2).toUInt8.toNat + 256 * 0) = _
      rw [Nat.mod_eq_of_lt (by omega)]
      omega
    rw [netSize, FrameLoop.frameSize, frame_length]
    show leNat _ + 0 + 5 = _
    rw [hbytes, hlen, Nat.add_zero]
  · rw [frame_length]
    exact packet.size

end NetPacket

/-! ## What a round hands on -/

/-- `Decode` of a copy; the LAN copies have none. -/
def RecvLoop.decoded (fixedKey : UInt8) : RecvLoop → SBuffer → SBuffer
  | net _, msg => (ContentsServer.decode fixedKey msg).1
  | netClient, msg => (CoreClient.decode fixedKey msg).1
  | _, msg => msg

/-- The bytes of the packet a round gives to `ProcMessage`.  The branch of a contents moves the
read position before it decodes and the others after it; `Decode` does not look at it. -/
def RecvLoop.handed (loop : RecvLoop) (fixedKey : UInt8) (msgbuf : PooledBuffer)
    (bytes : List UInt8) : List UInt8 :=
  (loop.decoded fixedKey (SBuffer.ofPacket
    ((loop.text.copied msgbuf bytes).moveReadPos loop.text.headerSize))).wire

/-- What becomes of a frame that is taken off the ring. -/
inductive Taken where
  | handed (payload : List UInt8)
  | skipped
  deriving DecidableEq

/-- The frames a label takes off the ring. -/
def Connection.taken (cfg : RecvConfig) (s : Connection) : RecvLabel → List Taken
  | .complete _ _ => []
  | .round msgbuf =>
      match s.running with
      | none => []
      | some loop =>
          match loop.text.round cfg.code s.recvQ with
          | .frame size =>
              if loop.text.takes then
                let bytes := (s.recvQ.dequeue size).2
                if loop.text.decode cfg.fixedKey
                    (SBuffer.ofPacket (loop.text.copied msgbuf bytes)) then
                  [.handed (loop.handed cfg.fixedKey msgbuf bytes)]
                else []
              else [.skipped]
          | _ => []

section

variable {loop : RecvLoop}

/-- The bytes of a frame where `Dequeue` has put them. -/
theorem copied_byte (hnet : loop.isNet = true) (msgbuf : PooledBuffer) {bytes : List UInt8} {j : Nat}
    (hj : j < bytes.length) (hfit : bytes.length < BUFFER_DEFAULT) (n : Int) :
    (SBuffer.ofPacket ((loop.text.copied msgbuf bytes).moveReadPos n)).byte j =
      (bytes[j]).toInt8 := by
  have hclear := (loop.isNet_text hnet).2.2.2
  have hbuffer : ((loop.text.copied msgbuf bytes).moveReadPos n).buffer =
      writeBytes msgbuf.1.buffer 0 bytes := by
    rw [FrameLoop.copied, hclear]
    rfl
  have hcell : writeBytes msgbuf.1.buffer 0 bytes (0 + j) = bytes[j] := writeBytes_of_lt hj
  rw [Int.zero_add] at hcell
  rw [SBuffer.byte, SBuffer.ofPacket, hbuffer,
    Vector.getElem?_eq_getElem (Nat.lt_trans hj hfit), Vector.getElem_ofFn, Option.getD_some, hcell]

variable (sender : NetEnd) (code fixedKey : UInt8) (packet : NetPacket)

/-- It is the packet as the sender has left it. -/
theorem copied_agree (hnet : loop.isNet = true) (msgbuf : PooledBuffer) (n : Int) :
    SBuffer.Agree (5 + (packet.prepared code fixedKey).len.toNat) (packet.prepared code fixedKey)
      (SBuffer.ofPacket ((loop.text.copied msgbuf
        (packet.frame sender code fixedKey)).moveReadPos n)) := by
  intro j hj
  rw [packet.prepared_len code fixedKey, Nat.add_comm] at hj
  have hlength := packet.frame_length sender code fixedKey
  rw [copied_byte hnet msgbuf (by omega) (by rw [hlength]; exact packet.size)]
  simp only [packet.frame_eq, List.getElem_map, List.getElem_range]
  exact Int8.toInt8_toUInt8 _

/-- What `Decode` makes of a copy of a prepared packet. -/
theorem wire_decoded {other : SBuffer}
    (hagree : SBuffer.Agree (5 + (packet.prepared code fixedKey).len.toNat)
      (packet.prepared code fixedKey) other)
    (hread : other.read = 5) (hsize : other.dataSize = packet.msg.dataSize) :
    (decodeNet fixedKey other).1.wire = packet.msg.payload := by
  have hlen := packet.prepared_len code fixedKey
  have hdecoded := (decodeNet_agree fixedKey hagree).2
  rw [NetPacket.prepared, decodeNet_fresh, ← NetPacket.prepared, hlen] at hdecoded
  have hkept : (decodeNet fixedKey other).1.read = other.read ∧
      (decodeNet fixedKey other).1.dataSize = other.dataSize := ⟨rfl, rfl⟩
  rw [SBuffer.wire, SBuffer.payload, hkept.1, hkept.2, hread, hsize]
  refine List.map_congr_left fun i hi => ?_
  have hi := List.mem_range.mp hi
  rw [hdecoded (5 + i) (by omega), setNetHeader_byte code packet.rand packet.msg (by omega)]

/-- **A round hands on the packet.** -/
theorem handed_frame (hnet : loop.isNet = true) (htakes : loop.text.takes = true)
    (msgbuf : PooledBuffer) :
    loop.text.decode fixedKey
        (SBuffer.ofPacket (loop.text.copied msgbuf (packet.frame sender code fixedKey))) = true ∧
      loop.handed fixedKey msgbuf (packet.frame sender code fixedKey) = packet.msg.payload := by
  obtain ⟨hheader, _, _, hclear⟩ := loop.isNet_text hnet
  have hcopied := fun n => copied_agree sender code fixedKey packet hnet msgbuf n
  constructor
  · have hdecode : ∀ msg, loop.text.decode fixedKey msg = (decodeNet fixedKey msg).2 := by
      cases loop with
      | net branch => cases branch <;> first | exact fun _ => rfl | contradiction
      | netClient => exact fun _ => rfl
      | _ => contradiction
    -- Where the read position is makes no difference.
    have hstill : loop.text.copied msgbuf (packet.frame sender code fixedKey) =
        (loop.text.copied msgbuf (packet.frame sender code fixedKey)).moveReadPos 0 := by
      rw [Common.SBuffer.moveReadPos, Int.add_zero, Int.sub_zero]
    rw [hdecode, hstill, (decodeNet_agree fixedKey (hcopied 0)).1, NetPacket.prepared,
      decodeNet_fresh]
  · have hdecoded : ∀ msg, loop.decoded fixedKey msg = (decodeNet fixedKey msg).1 := by
      cases loop with
      | net branch => exact fun _ => rfl
      | netClient => exact fun _ => rfl
      | _ => contradiction
    rw [RecvLoop.handed, hdecoded]
    refine wire_decoded code fixedKey packet (hcopied _) ?_ ?_
    · rw [hheader, FrameLoop.copied, hclear]
      rfl
    · rw [hheader, FrameLoop.copied, hclear]
      show ((0 : Int) + (packet.frame sender code fixedKey).length - 5).toNat = _
      rw [packet.frame_length]
      omega

end

/-! ## The connection -/

/-- The ends of type NET. -/
def RecvParty.isNet : RecvParty → Bool
  | contentsServer .netServer _ => true
  | netClient => true
  | _ => false

theorem RecvParty.loop_isNet {party : RecvParty} (h : party.isNet = true) {contentsNum : Int}
    {loop : RecvLoop} (hloop : party.loop contentsNum = some loop) : loop.isNet = true := by
  cases party with
  | contentsServer type registered =>
      cases type with
      | lanServer => contradiction
      | netServer =>
          simp only [RecvParty.loop] at hloop
          split at hloop
          · exact Option.some.inj hloop ▸ rfl
          · split at hloop
            · split at hloop
              · exact Option.some.inj hloop ▸ rfl
              · simp at hloop
            · exact Option.some.inj hloop ▸ rfl
  | lanClient => contradiction
  | netClient => exact Option.some.inj hloop ▸ rfl

theorem RecvParty.segments_eq (party : RecvParty) (rb : RingBuffer) :
    party.segments rb = recvSegments rb := by
  cases party <;> rfl

/-- A completion of the label starts a loop. -/
def RecvLabel.Listened (party : RecvParty) : RecvLabel → Prop
  | complete _ contentsNum => party.loop contentsNum ≠ none
  | round _ => True

/-- A frame that was taken is the one of the packet; what is handed on is its payload. -/
def Taken.Of : Taken → NetPacket → Prop
  | handed payload, packet => payload = packet.msg.payload
  | skipped, _ => True

/-- The packets as frames. -/
def framesOf (sender : NetEnd) (code fixedKey : UInt8) (packets : List NetPacket) :
    List { bytes // IsNetFrame code bytes } :=
  packets.map fun packet => ⟨packet.frame sender code fixedKey, packet.isNetFrame sender code fixedKey⟩

theorem netFraming_stream (sender : NetEnd) (code fixedKey : UInt8) (packets : List NetPacket) :
    (netFraming code).stream (framesOf sender code fixedKey packets) =
      netStream sender code fixedKey packets := by
  rw [Framing.stream, framesOf, netStream, List.flatMap_map]
  rfl

/-- **A connection in step with its stream.** -/
structure NetInStep (cfg : RecvConfig) (sender : NetEnd) (packets : List NetPacket)
    (listened : Prop) (s : Connection) (taken : List Taken) : Prop where
  valid : s.recvQ.Valid
  size : s.recvQ.size = DEFAULT_BUFFER_SIZE
  connected : s.connected = true
  running : ∀ loop ∈ s.running, loop.isNet = true
  split : ∃ done left, packets = done ++ left ∧ List.Forall₂ Taken.Of taken done ∧
    s.recvQ.content ++ s.incoming = netStream sender cfg.code cfg.fixedKey left ∧
    (listened → s.running = none →
      (netFraming cfg.code).Unfinished s.recvQ.content (framesOf sender cfg.code cfg.fixedKey left))

section

variable {cfg : RecvConfig} {sender : NetEnd} {packets : List NetPacket} {listened : Prop}
  {s s' : Connection} {taken : List Taken}

theorem netInStep_accepted (memory : Int → UInt8) :
    NetInStep cfg sender packets listened
      (Connection.accepted memory (netStream sender cfg.code cfg.fixedKey packets)) [] where
  valid := RingBuffer.new_valid memory
  size := rfl
  connected := rfl
  running := fun _ hloop => nomatch hloop
  split := by
    refine ⟨[], packets, rfl, .nil, rfl, fun _ _ => ?_⟩
    have hnil : (Connection.accepted memory
        (netStream sender cfg.code cfg.fixedKey packets)).recvQ.content = [] := rfl
    rw [hnil]
    cases packets with
    | nil => rfl
    | cons packet packets =>
        refine ⟨List.nil_prefix, fun heq => ?_⟩
        have hlength := packet.frame_length sender cfg.code cfg.fixedKey
        rw [show packet.frame sender cfg.code cfg.fixedKey = [] from heq.symm] at hlength
        simp at hlength

/-- A completion appends what has come. -/
theorem NetInStep.complete (h : NetInStep cfg sender packets listened s taken)
    (hnet : cfg.party.isNet = true) {cbTransferred : Nat} {contentsNum : Int}
    (hlistened : listened → cfg.party.loop contentsNum ≠ none)
    (havail : cbTransferred ≤ s.incoming.length)
    (hspace : (cbTransferred : Int) ≤ ((cfg.party.segments s.recvQ).map Prod.snd).sum) :
    NetInStep cfg sender packets listened (s.complete cfg cbTransferred contentsNum) taken := by
  obtain ⟨done, left, hpackets, htaken, hall, _⟩ := h.split
  rw [RecvParty.segments_eq] at hspace
  obtain ⟨hv, hc⟩ := moveRear_arrived h.valid havail hspace
  have hring : (s.complete cfg cbTransferred contentsNum).recvQ =
      (deliver s.recvQ (s.incoming.take cbTransferred)).moveRear cbTransferred := by
    rw [Connection.complete, RecvParty.segments_eq]
    rfl
  refine ⟨by rw [hring]; exact hv, ?_, rfl, fun loop hloop => RecvParty.loop_isNet hnet hloop,
    done, left, hpackets, htaken, ?_, fun hheard hnone => absurd hnone (hlistened hheard)⟩
  · rw [hring, RingBuffer.moveRear_size]
    exact h.size
  · rw [hring, hc, List.append_assoc]
    show _ ++ (_ ++ s.incoming.drop cbTransferred) = _
    rw [List.take_append_drop, hall]

/-- A round that waits. -/
theorem NetInStep.wait (h : NetInStep cfg sender packets listened s taken)
    {done left : List NetPacket} (hpackets : packets = done ++ left)
    (htaken : List.Forall₂ Taken.Of taken done)
    (hall : s.recvQ.content ++ s.incoming = netStream sender cfg.code cfg.fixedKey left)
    (hunfinished : (netFraming cfg.code).Unfinished s.recvQ.content
      (framesOf sender cfg.code cfg.fixedKey left)) :
    NetInStep cfg sender packets listened { s with running := none } taken where
  valid := h.valid
  size := h.size
  connected := h.connected
  running := fun _ hnone => nomatch hnone
  split := ⟨done, left, hpackets, htaken, hall, fun _ _ => hunfinished⟩

/-- A round that takes a frame. -/
theorem NetInStep.take (h : NetInStep cfg sender packets listened s taken) {next : RingBuffer}
    {packet : NetPacket} {done left : List NetPacket} {rest : List UInt8} {more : Taken}
    (hrunning : s.running ≠ none) (hpackets : packets = done ++ packet :: left)
    (htaken : List.Forall₂ Taken.Of taken done) (hmore : more.Of packet)
    (hrest : rest ++ s.incoming = netStream sender cfg.code cfg.fixedKey left)
    (hvalid : next.Valid) (hsize : next.size = s.recvQ.size) (hcontent : next.content = rest) :
    NetInStep cfg sender packets listened { s with recvQ := next } (taken ++ [more]) where
  valid := hvalid
  size := hsize.trans h.size
  connected := h.connected
  running := h.running
  split := by
    refine ⟨done ++ [packet], left, ?_, ?_, ?_, fun _ hnone => absurd hnone hrunning⟩
    · rw [hpackets, List.append_assoc]
      rfl
    · exact List.rel_append htaken (.cons hmore .nil)
    · show next.content ++ s.incoming = _
      rw [hcontent, hrest]

/-- A round. -/
theorem NetInStep.round (h : NetInStep cfg sender packets listened s taken) {loop : RecvLoop}
    (hloop : s.running = some loop) (msgbuf : PooledBuffer) :
    NetInStep cfg sender packets listened (s.round cfg loop.text msgbuf)
      (taken ++ s.taken cfg (.round msgbuf)) := by
  have hnet := h.running loop hloop
  obtain ⟨done, left, hpackets, htaken, hall, _⟩ := h.split
  -- What the ring begins with tells what the round does.
  have hwaits : loop.text.round cfg.code s.recvQ = .wait →
      (netFraming cfg.code).Unfinished s.recvQ.content
        (framesOf sender cfg.code cfg.fixedKey left) →
      NetInStep cfg sender packets listened (s.round cfg loop.text msgbuf)
        (taken ++ s.taken cfg (.round msgbuf)) := by
    intro hround hunfinished
    have hnothing : s.taken cfg (.round msgbuf) = [] := by
      simp only [Connection.taken, hloop, hround]
    have hstop : s.round cfg loop.text msgbuf = { s with running := none } := by
      rw [Connection.round, hround]
    rw [hnothing, hstop, List.append_nil]
    exact h.wait hpackets htaken hall hunfinished
  cases left with
  | nil =>
      have hnil : s.recvQ.content = [] := (List.append_eq_nil_iff.mp hall).1
      exact hwaits (round_nil hnet h.valid hnil) hnil
  | cons packet left =>
      have hframe := packet.isNetFrame sender cfg.code cfg.fixedKey
      rw [← netFraming_stream] at hall
      rcases Framing.encode_or_partial hall with ⟨rest, hfront, hrest⟩ | ⟨hpre, hne⟩
      · have hfront : s.recvQ.content = packet.frame sender cfg.code cfg.fixedKey ++ rest := hfront
        have hrest : rest ++ s.incoming = netStream sender cfg.code cfg.fixedKey left := by
          rw [← netFraming_stream]
          exact hrest
        have hround := round_frame hnet h.valid hframe hfront
        have hused : ((packet.frame sender cfg.code cfg.fixedKey).length : Int) ≤
            s.recvQ.getUsedSize := by
          rw [← h.valid.content_length, hfront, List.length_append]
          omega
        cases htakes : loop.text.takes with
        | true =>
            obtain ⟨hvalid, hcontent, hdata⟩ := h.valid.dequeue_spec hused
            rw [hfront, List.drop_left] at hcontent
            rw [hfront, List.take_left] at hdata
            obtain ⟨hdecode, hhanded⟩ :=
              handed_frame sender cfg.code cfg.fixedKey packet hnet htakes msgbuf
            have hmore : s.taken cfg (.round msgbuf) = [.handed packet.msg.payload] := by
              simp only [Connection.taken, hloop, hround, htakes, if_true, hdata, hdecode, hhanded]
            have hnext : s.round cfg loop.text msgbuf = { s with
                recvQ := (s.recvQ.dequeue (packet.frame sender cfg.code cfg.fixedKey).length).1 } := by
              simp only [Connection.round, hround, htakes, if_true, hdata, hdecode]
            rw [hmore, hnext]
            exact h.take (by simp [hloop]) hpackets htaken rfl hrest hvalid
              (RingBuffer.dequeue_size _ _) hcontent
        | false =>
            obtain ⟨hvalid, hcontent⟩ := h.valid.moveFront_spec hused
            rw [hfront, List.drop_left] at hcontent
            have hmore : s.taken cfg (.round msgbuf) = [.skipped] := by
              simp only [Connection.taken, hloop, hround, htakes, Bool.false_eq_true, if_false]
            have hnext : s.round cfg loop.text msgbuf = { s with
                recvQ := s.recvQ.moveFront
                  (packet.frame sender cfg.code cfg.fixedKey).length } := by
              simp only [Connection.round, hround, htakes, Bool.false_eq_true, if_false]
            rw [hmore, hnext]
            refine h.take (by simp [hloop]) hpackets htaken trivial hrest hvalid ?_ hcontent
            rw [RingBuffer.moveFront, if_pos hused]
      · exact hwaits (round_wait hnet h.valid hframe hpre hne) ⟨hpre, hne⟩

/-- **A step keeps a connection in step with its stream.** -/
theorem NetInStep.step (h : NetInStep cfg sender packets listened s taken)
    (hnet : cfg.party.isNet = true) {label : RecvLabel}
    (hlistened : listened → label.Listened cfg.party) (hstep : s.step cfg label = some s') :
    NetInStep cfg sender packets listened s' (taken ++ s.taken cfg label) := by
  cases label with
  | complete cbTransferred contentsNum =>
      simp only [Connection.step, Option.ite_none_right_eq_some, Option.some.injEq] at hstep
      obtain ⟨⟨_, _, havail, hspace⟩, rfl⟩ := hstep
      rw [Connection.taken, List.append_nil]
      exact h.complete hnet hlistened havail hspace
  | round msgbuf =>
      simp only [Connection.step, Option.map_eq_some_iff] at hstep
      obtain ⟨loop, hloop, rfl⟩ := hstep
      exact h.round hloop msgbuf

end

/-- What a run takes off the ring. -/
def takenAlong (cfg : RecvConfig) (start : Connection) (labels : List RecvLabel) : List Taken :=
  callsAlong (Connection.step cfg) (Connection.taken cfg) start labels

/-- **Encrypted packets come through**, with payloads of up to 294 bytes.  Whatever pieces the
stream of a sender comes in, a NETSERVER or NETCLIENT with its code and its key stays connected
and keeps its place in the stream, also where completions find the session in different contents
or on its way between two; the frames it takes are the ones of the first packets, each once and
in order, and what it hands on is their payload.  Where every completion is listened to, a loop
that has ended leaves less than a frame in the ring and room to receive, and nothing once all
has come. -/
theorem net_stream_taken (cfg : RecvConfig) (hnet : cfg.party.isNet = true) (sender : NetEnd)
    (packets : List NetPacket) (memory : Int → UInt8) (labels : List RecvLabel) (s : Connection)
    (hrun : exec (Connection.step cfg)
      (Connection.accepted memory (netStream sender cfg.code cfg.fixedKey packets)) labels =
        some s) :
    s.connected = true ∧
      ∃ done left, packets = done ++ left ∧
        List.Forall₂ Taken.Of (takenAlong cfg (Connection.accepted memory
          (netStream sender cfg.code cfg.fixedKey packets)) labels) done ∧
        s.recvQ.content ++ s.incoming = netStream sender cfg.code cfg.fixedKey left ∧
        ((∀ label ∈ labels, label.Listened cfg.party) → s.running = none →
          s.recvQ.content.length < BUFFER_DEFAULT ∧ 0 < recvSpace s.recvQ ∧
            (s.incoming = [] → left = [])) := by
  have halong : Along (Connection.step cfg)
      (fun _ label => (∀ label ∈ labels, label.Listened cfg.party) → label.Listened cfg.party)
      (Connection.accepted memory (netStream sender cfg.code cfg.fixedKey packets)) labels :=
    along_of_invariant (I := fun _ => True) (P := fun label => label ∈ labels)
      (fun _ label _ hmem hall => hall label hmem) (fun _ _ _ _ _ _ => trivial) trivial
      fun _ hmem => hmem
  have h : NetInStep cfg sender packets (∀ label ∈ labels, label.Listened cfg.party) s
      ([] ++ takenAlong cfg (Connection.accepted memory
        (netStream sender cfg.code cfg.fixedKey packets)) labels) :=
    calls_history_along (H := NetInStep cfg sender packets _)
      (fun _ _ _ _ h hlistened hstep => h.step hnet hlistened hstep) (netInStep_accepted memory)
      halong hrun
  obtain ⟨done, left, hpackets, htaken, hall, hunfinished⟩ := h.split
  refine ⟨h.connected, done, left, hpackets, htaken, hall, fun hlistened hnone => ?_⟩
  have hless := hunfinished hlistened hnone
  have hshort : s.recvQ.content.length < BUFFER_DEFAULT := by
    cases left with
    | nil =>
        rw [show s.recvQ.content = [] from hless]
        decide
    | cons packet left =>
        have hbounded := (packet.isNetFrame sender cfg.code cfg.fixedKey).bounded
        exact Nat.lt_of_le_of_lt hless.1.length_le hbounded
  refine ⟨hshort, recvSpace_pos h.valid ?_, fun hend => ?_⟩
  · have hused := h.valid.content_length
    rw [h.size, DEFAULT_BUFFER_SIZE]
    simp only [BUFFER_DEFAULT] at hshort
    omega
  · rw [hend, List.append_nil, ← netFraming_stream] at hall
    exact List.map_eq_nil_iff.mp (hless.nil_of_eq hall).1

/-- A server with one contents. -/
def oneContents : RecvConfig := ⟨.contentsServer .netServer fun n => n == 1, 0x77, 0x32⟩

/-- Packets of one byte and of none. -/
def twoNetPackets : List NetPacket :=
  [⟨41, ⟨Vector.ofFn fun i => Int8.ofNat i, 5, 1⟩, by decide⟩,
    ⟨18467, ⟨Vector.ofFn fun i => Int8.ofNat i, 5, 0⟩, by decide⟩]

/-- The first comes in two pieces, the second while the session moves to another contents. -/
def movedBetween : List RecvLabel :=
  let round := RecvLabel.round zeroBuffer
  [.complete 3 1, round, .complete 3 1, round, round, .complete 5 CONMOV, round, round]

theorem movedBetween_taken :
    ∃ s, exec (Connection.step oneContents) (Connection.accepted (fun _ => 0)
        (netStream .client 0x77 0x32 twoNetPackets)) movedBetween = some s ∧
      s.connected = true ∧ List.Forall₂ Taken.Of (takenAlong oneContents
        (Connection.accepted (fun _ => 0) (netStream .client 0x77 0x32 twoNetPackets)) movedBetween)
        twoNetPackets := by
  have hrun : (exec (Connection.step oneContents) (Connection.accepted (fun _ => 0)
        (netStream .client 0x77 0x32 twoNetPackets)) movedBetween).map
      (fun s => (s.running, s.incoming)) = some (none, []) := by
    decide +kernel
  obtain ⟨s, hs, heq⟩ := Option.map_eq_some_iff.mp hrun
  rw [Prod.mk.injEq] at heq
  obtain ⟨hconnected, done, left, hpackets, htaken, _, hend⟩ :=
    net_stream_taken oneContents rfl .client twoNetPackets (fun _ => 0) movedBetween s hs
  have hlistened : ∀ label ∈ movedBetween, label.Listened oneContents.party := by
    simp [movedBetween, RecvLabel.Listened, RecvParty.loop, oneContents, CONMOV]
  rw [(hend hlistened heq.1).2.2 heq.2, List.append_nil] at hpackets
  subst hpackets
  exact ⟨s, hs, hconnected, htaken⟩

end SessionServer.ContentLib
