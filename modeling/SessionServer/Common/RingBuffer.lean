/-
  Common/RingBuffer.lean --- the receive ring of a session.

  `RingBuffer.h`, with the indices and sizes as signed integers and the allocated bytes as
  a memory indexed from zero; in a ring of up to 2 ^ 30 bytes every sum below is an `int`, as
  it is there.  `content` reads the queue off the indices; every operation the receive path
  uses is then specified on it, so that nothing above this file looks at an index again.
-/
import SessionServer.Common.Memory

set_option autoImplicit false

namespace SessionServer.Common

/-! ## The ring -/

def DEFAULT_BUFFER_SIZE : Int := 5000

structure RingBuffer where
  buffer : Int → UInt8
  front : Int
  rear : Int
  size : Int

namespace RingBuffer

/-- The default constructor; `malloc` leaves the memory as it finds it. -/
def new (memory : Int → UInt8) : RingBuffer where
  buffer := memory
  front := 0
  rear := 0
  size := DEFAULT_BUFFER_SIZE

/-- The constructor with a size. -/
def ofSize (memory : Int → UInt8) (buffersize : Int) : RingBuffer where
  buffer := memory
  front := 0
  rear := 0
  size := buffersize

def getUsedSize (rb : RingBuffer) : Int :=
  if rb.front ≤ rb.rear then rb.rear - rb.front else rb.size - (rb.front - rb.rear)

def getFreeSize (rb : RingBuffer) : Int :=
  rb.size - rb.getUsedSize - 1

/-- Where `Enqueue` copies `n` bytes to, as `(start, length)` pairs. -/
def enqueueSegments (rb : RingBuffer) (n : Int) : List (Int × Int) :=
  if rb.rear < rb.front then [(rb.rear, n)]
  else if rb.size - rb.rear ≥ n then [(rb.rear, n)]
  else [(rb.rear, rb.size - rb.rear), (0, n - (rb.size - rb.rear))]

/-- `Enqueue` of all the bytes of `data`, and what it returns. -/
def enqueue (rb : RingBuffer) (data : List UInt8) : RingBuffer × Int :=
  if rb.getFreeSize ≥ data.length then
    ({ rb with
        buffer := scatter rb.buffer (rb.enqueueSegments data.length) data
        rear := (rb.rear + data.length).tmod rb.size },
      data.length)
  else
    (rb, 0)

/-- The copy of `Dequeue` and `Peek` when `n` bytes are there. -/
def copyWhole (rb : RingBuffer) (n : Int) : List UInt8 :=
  if rb.front < rb.rear then
    readBytes rb.buffer rb.front n
  else if rb.size - rb.front ≥ n then
    readBytes rb.buffer rb.front n
  else
    readBytes rb.buffer rb.front (rb.size - rb.front) ++
      readBytes rb.buffer 0 (n - (rb.size - rb.front))

/-- The copy of `Dequeue` and `Peek` when fewer bytes are there than asked for. -/
def copyUsed (rb : RingBuffer) : List UInt8 :=
  if rb.front < rb.rear then
    readBytes rb.buffer rb.front rb.getUsedSize
  else
    readBytes rb.buffer rb.front (rb.size - rb.front) ++
      readBytes rb.buffer 0 (rb.getUsedSize - (rb.size - rb.front))

/-- `Dequeue`, with the bytes copied in place of their number. -/
def dequeue (rb : RingBuffer) (n : Int) : RingBuffer × List UInt8 :=
  if rb.getUsedSize ≥ n then
    ({ rb with front := (rb.front + n).tmod rb.size }, rb.copyWhole n)
  else if rb.getUsedSize = 0 then
    (rb, [])
  else
    ({ rb with front := (rb.front + rb.getUsedSize).tmod rb.size }, rb.copyUsed)

/-- `Peek`, with the bytes copied in place of their number. -/
def peek (rb : RingBuffer) (n : Int) : List UInt8 :=
  if rb.getUsedSize ≥ n then rb.copyWhole n
  else if rb.getUsedSize = 0 then []
  else rb.copyUsed

/-- What `Dequeue` and `Peek` return. -/
def copied (rb : RingBuffer) (n : Int) : Int :=
  if rb.getUsedSize ≥ n then n
  else if rb.getUsedSize = 0 then 0
  else rb.getUsedSize

/-- Where `Dequeue` and `Peek` copy from, as `(start, length)` pairs. -/
def copySegments (rb : RingBuffer) (n : Int) : List (Int × Int) :=
  if rb.getUsedSize ≥ n then
    if rb.front < rb.rear then [(rb.front, n)]
    else if rb.size - rb.front ≥ n then [(rb.front, n)]
    else [(rb.front, rb.size - rb.front), (0, n - (rb.size - rb.front))]
  else if rb.getUsedSize = 0 then []
  else if rb.front < rb.rear then [(rb.front, rb.getUsedSize)]
  else [(rb.front, rb.size - rb.front), (0, rb.getUsedSize - (rb.size - rb.front))]

def clearBuffer (rb : RingBuffer) : RingBuffer :=
  { rb with front := 0, rear := 0 }

def directEnqueueSize (rb : RingBuffer) : Int :=
  if rb.rear < rb.front then rb.front - rb.rear - 1
  else if rb.front = 0 then rb.size - rb.rear - 1
  else rb.size - rb.rear

/-- `MoveRear`; past the free space the rear is set to `_front - 1` as it stands. -/
def moveRear (rb : RingBuffer) (n : Int) : RingBuffer :=
  if rb.getFreeSize ≥ n then { rb with rear := (rb.rear + n).tmod rb.size }
  else { rb with rear := rb.front - 1 }

def moveFront (rb : RingBuffer) (n : Int) : RingBuffer :=
  if rb.getUsedSize ≥ n then { rb with front := (rb.front + n).tmod rb.size }
  else { rb with front := rb.rear }

/-- What `MoveRear` returns. -/
def movedRear (rb : RingBuffer) (n : Int) : Int :=
  if rb.getFreeSize ≥ n then n
  else if rb.rear ≤ rb.front then rb.front - rb.rear - 1
  else (rb.size - rb.rear) + rb.front - 1

/-- What `MoveFront` returns. -/
def movedFront (rb : RingBuffer) (n : Int) : Int :=
  if rb.getUsedSize ≥ n then n
  else if rb.front ≤ rb.rear then rb.rear - rb.front
  else (rb.size - rb.front) + rb.rear

def getBufferSize (rb : RingBuffer) : Int :=
  rb.size - 1

/-- `Resize`, where the new allocation finds `memory`.  `_size` stays as it is. -/
def resize (rb : RingBuffer) (memory : Int → UInt8) : RingBuffer :=
  let usedsize := rb.getUsedSize
  { rb with
    buffer := writeBytes memory 0 (rb.dequeue usedsize).2
    front := 0
    rear := rb.copied usedsize }

theorem dequeue_size (rb : RingBuffer) (n : Int) : (rb.dequeue n).1.size = rb.size := by
  unfold dequeue
  split
  · rfl
  · split <;> rfl

theorem moveRear_size (rb : RingBuffer) (n : Int) : (rb.moveRear n).size = rb.size := by
  unfold moveRear
  split <;> rfl

/-! ## The queue in the ring -/

/-- Indices a ring can have. -/
structure Valid (rb : RingBuffer) : Prop where
  size_ge : 2 ≤ rb.size
  front_nonneg : 0 ≤ rb.front
  front_lt : rb.front < rb.size
  rear_nonneg : 0 ≤ rb.rear
  rear_lt : rb.rear < rb.size

/-- The byte `i` places behind the front. -/
def byteAt (rb : RingBuffer) (i : Nat) : UInt8 :=
  rb.buffer ((rb.front + i) % rb.size)

/-- The bytes in the ring, oldest first. -/
def content (rb : RingBuffer) : List UInt8 :=
  (List.range rb.getUsedSize.toNat).map rb.byteAt

theorem new_valid (memory : Int → UInt8) : (new memory).Valid := by
  constructor <;> simp [new, DEFAULT_BUFFER_SIZE]

@[simp] theorem content_new (memory : Int → UInt8) : (new memory).content = [] := rfl

/-- An index less than a lap ahead. -/
theorem wrap_eq {x size : Int} (h0 : 0 ≤ x) (h : x < 2 * size) :
    x % size = if x < size then x else x - size := by
  split
  · rename_i hlt
    exact Int.emod_eq_of_lt h0 hlt
  · rename_i hge
    rw [← Int.sub_emod_right x size]
    exact Int.emod_eq_of_lt (by omega) (by omega)

theorem tmod_eq_wrap (x size : Int) (h0 : 0 ≤ x) (h : x < 2 * size) :
    x.tmod size = if x < size then x else x - size := by
  rw [Int.tmod_eq_emod_of_nonneg h0, wrap_eq h0 h]

namespace Valid

variable {rb : RingBuffer}

theorem used_nonneg (h : rb.Valid) : 0 ≤ rb.getUsedSize := by
  have := h.front_lt
  have := h.rear_nonneg
  unfold getUsedSize
  split <;> omega

theorem used_lt (h : rb.Valid) : rb.getUsedSize < rb.size := by
  have := h.front_nonneg
  have := h.rear_lt
  unfold getUsedSize
  split <;> omega

theorem rear_eq (h : rb.Valid) : rb.rear = (rb.front + rb.getUsedSize) % rb.size := by
  have := h.front_nonneg
  have := h.front_lt
  have := h.rear_nonneg
  have := h.rear_lt
  have := h.used_nonneg
  have := h.used_lt
  rw [wrap_eq (by omega) (by omega)]
  unfold getUsedSize
  split <;> split <;> omega

theorem content_length (h : rb.Valid) : (rb.content.length : Int) = rb.getUsedSize := by
  have := h.used_nonneg
  simp only [content, List.length_map, List.length_range]
  omega

/-- The wrapped index of a byte in the ring. -/
theorem byteAt_eq (h : rb.Valid) {i : Nat} (hi : (i : Int) < rb.size) :
    rb.byteAt i = rb.buffer (if rb.front + i < rb.size then rb.front + i
      else rb.front + i - rb.size) := by
  have := h.front_nonneg
  have := h.front_lt
  rw [byteAt, wrap_eq (by omega) (by omega)]

/-- **The copy reads the oldest bytes.** -/
theorem copyWhole_eq (h : rb.Valid) {n : Nat} (hn : (n : Int) ≤ rb.getUsedSize) :
    rb.copyWhole n = rb.content.take n := by
  have hused := h.used_lt
  have hfront := h.front_lt
  have hrear := h.rear_lt
  have hread : ∀ i : Nat, i < n → rb.front + i < rb.size →
      rb.buffer (rb.front + i) = rb.byteAt i := by
    intro i hi hlt
    rw [h.byteAt_eq (by omega), if_pos hlt]
  have hwhole : (n : Int) ≤ rb.size - rb.front →
      readBytes rb.buffer rb.front n = rb.content.take n := by
    intro hfit
    refine List.ext_getElem (by simp [readBytes, content]; omega) ?_
    intro i h₁ h₂
    simp only [readBytes, List.length_map, List.length_range, Int.toNat_natCast] at h₁
    simpa [readBytes, content] using hread i h₁ (by omega)
  unfold copyWhole
  split
  · rename_i hlt
    refine hwhole ?_
    rw [getUsedSize, if_pos (by omega)] at hn
    omega
  · split
    · rename_i hfit
      exact hwhole hfit
    · refine List.ext_getElem (by simp [readBytes, content]; omega) ?_
      intro i h₁ h₂
      simp only [readBytes, List.length_append, List.length_map, List.length_range] at h₁
      simp only [readBytes, content, List.getElem_take, List.getElem_map, List.getElem_range,
        List.getElem_append, List.length_map, List.length_range]
      split
      · exact hread i (by omega) (by omega)
      · rw [h.byteAt_eq (by omega), if_neg (by omega)]
        congr 1
        omega

theorem peek_eq (h : rb.Valid) {n : Nat} (hn : (n : Int) ≤ rb.getUsedSize) :
    rb.peek n = rb.content.take n := by
  rw [peek, if_pos hn, h.copyWhole_eq hn]

/-- The ring after the front has moved over `n` of its bytes. -/
theorem advance_front (h : rb.Valid) {n : Nat} (hn : (n : Int) ≤ rb.getUsedSize) :
    Valid { rb with front := (rb.front + n).tmod rb.size } ∧
      content { rb with front := (rb.front + n).tmod rb.size } = rb.content.drop n := by
  have := h.size_ge
  have := h.front_nonneg
  have hfront := h.front_lt
  have := h.rear_nonneg
  have := h.rear_lt
  have hused := h.used_lt
  have hmod := tmod_eq_wrap (rb.front + n) rb.size (by omega) (by omega)
  have hvalid : Valid { rb with front := (rb.front + n).tmod rb.size } := by
    refine ⟨h.size_ge, ?_, ?_, h.rear_nonneg, h.rear_lt⟩
    · show 0 ≤ (rb.front + n).tmod rb.size
      rw [hmod]
      split <;> omega
    · show (rb.front + n).tmod rb.size < rb.size
      rw [hmod]
      split <;> omega
  have hleft : getUsedSize { rb with front := (rb.front + n).tmod rb.size } =
      rb.getUsedSize - n := by
    unfold getUsedSize at hn ⊢
    simp only [hmod]
    split at hn <;> split <;> split <;> omega
  refine ⟨hvalid, List.ext_getElem ?_ ?_⟩
  · simp only [content, hleft, List.length_map, List.length_range, List.length_drop]
    omega
  · intro i h₁ h₂
    simp only [content, hleft, List.length_map, List.length_range] at h₁
    simp only [content, List.getElem_map, List.getElem_range, List.getElem_drop]
    rw [hvalid.byteAt_eq (by simp only; omega), h.byteAt_eq (by omega)]
    simp only [hmod]
    congr 1
    split <;> split <;> split <;> omega

theorem moveFront_spec (h : rb.Valid) {n : Nat} (hn : (n : Int) ≤ rb.getUsedSize) :
    (rb.moveFront n).Valid ∧ (rb.moveFront n).content = rb.content.drop n := by
  rw [moveFront, if_pos hn]
  exact h.advance_front hn

theorem dequeue_spec (h : rb.Valid) {n : Nat} (hn : (n : Int) ≤ rb.getUsedSize) :
    (rb.dequeue n).1.Valid ∧ (rb.dequeue n).1.content = rb.content.drop n ∧
      (rb.dequeue n).2 = rb.content.take n := by
  rw [dequeue, if_pos hn]
  exact ⟨(h.advance_front hn).1, (h.advance_front hn).2, h.copyWhole_eq hn⟩

/-- When fewer bytes are there than asked for, all of them are copied. -/
theorem copyUsed_eq (h : rb.Valid) (hne : rb.getUsedSize ≠ 0) : rb.copyUsed = rb.content := by
  have hrear := h.rear_nonneg
  have hused := h.used_nonneg
  have hlen := h.content_length
  have hwhole := h.copyWhole_eq (n := rb.getUsedSize.toNat) (by omega)
  rw [List.take_of_length_le (by omega), Int.toNat_of_nonneg hused] at hwhole
  rw [← hwhole, copyUsed, copyWhole]
  split
  · rfl
  · split
    · -- The rear is at 0: nothing is left for the second copy.
      have hexact : rb.size - rb.front = rb.getUsedSize := by
        unfold getUsedSize at *
        split at hne <;> omega
      rw [hexact, Int.sub_self]
      exact List.append_nil _
    · rfl

theorem peek_content (h : rb.Valid) (n : Nat) : rb.peek n = rb.content.take n := by
  by_cases hn : (n : Int) ≤ rb.getUsedSize
  · exact h.peek_eq hn
  · have hlen := h.content_length
    rw [peek, if_neg hn, List.take_of_length_le (by omega)]
    split
    · exact (List.eq_nil_of_length_eq_zero (by omega)).symm
    · rename_i hne
      exact h.copyUsed_eq hne

/-- `Dequeue` takes the oldest bytes, all there are if more are asked for. -/
theorem dequeue_content (h : rb.Valid) (n : Nat) :
    (rb.dequeue n).1.Valid ∧ (rb.dequeue n).1.content = rb.content.drop n ∧
      (rb.dequeue n).2 = rb.content.take n := by
  by_cases hn : (n : Int) ≤ rb.getUsedSize
  · exact h.dequeue_spec hn
  · have hlen := h.content_length
    have hused := h.used_nonneg
    rw [dequeue, if_neg hn, List.drop_of_length_le (by omega), List.take_of_length_le (by omega)]
    split
    · rename_i hzero
      have hnone : rb.content = [] := List.eq_nil_of_length_eq_zero (by omega)
      exact ⟨h, hnone, hnone.symm⟩
    · rename_i hne
      have hall := h.advance_front (n := rb.getUsedSize.toNat) (by omega)
      rw [List.drop_of_length_le (by omega), Int.toNat_of_nonneg hused] at hall
      exact ⟨hall.1, hall.2, h.copyUsed_eq hne⟩

/-- The ring after the rear has moved over `data` written behind its bytes. -/
theorem advance_rear (h : rb.Valid) {memory : Int → UInt8} {data : List UInt8}
    (hfit : (data.length : Int) ≤ rb.getFreeSize)
    (hkept : ∀ i : Nat, (i : Int) < rb.getUsedSize →
      memory ((rb.front + i) % rb.size) = rb.byteAt i)
    (hnew : ∀ (i : Nat) (hi : i < data.length), memory ((rb.rear + i) % rb.size) = data[i]) :
    Valid { rb with buffer := memory, rear := (rb.rear + data.length).tmod rb.size } ∧
      content { rb with buffer := memory, rear := (rb.rear + data.length).tmod rb.size } =
        rb.content ++ data := by
  have := h.size_ge
  have := h.front_nonneg
  have := h.front_lt
  have := h.rear_nonneg
  have := h.rear_lt
  have hnonneg := h.used_nonneg
  have hlen := h.content_length
  have hmod := tmod_eq_wrap (rb.rear + data.length) rb.size (by omega)
    (by unfold getFreeSize at hfit; omega)
  have hvalid : Valid
      { rb with buffer := memory, rear := (rb.rear + data.length).tmod rb.size } := by
    refine ⟨h.size_ge, h.front_nonneg, h.front_lt, ?_, ?_⟩
    · show 0 ≤ (rb.rear + data.length).tmod rb.size
      rw [hmod]
      split <;> omega
    · show (rb.rear + data.length).tmod rb.size < rb.size
      rw [hmod]
      unfold getFreeSize at hfit
      split <;> omega
  have hmore : getUsedSize
      { rb with buffer := memory, rear := (rb.rear + data.length).tmod rb.size } =
        rb.getUsedSize + data.length := by
    unfold getFreeSize at hfit
    unfold getUsedSize at hfit ⊢
    simp only [hmod]
    split at hfit <;> split <;> split <;> omega
  refine ⟨hvalid, List.ext_getElem ?_ ?_⟩
  · simp only [content, hmore, List.length_map, List.length_range, List.length_append]
    omega
  · intro i h₁ h₂
    simp only [content, hmore, List.length_map, List.length_range] at h₁
    simp only [content, List.getElem_map, List.getElem_range, List.getElem_append,
      List.length_map, List.length_range]
    split
    · exact hkept i (by omega)
    · -- Counted from the rear, a new byte is `used` places further back.
      have hplace : (rb.front + i) % rb.size =
          (rb.rear + ((i - rb.getUsedSize.toNat : Nat) : Int)) % rb.size := by
        rw [h.rear_eq, Int.emod_add_emod]
        congr 1
        omega
      rw [← hnew (i - rb.getUsedSize.toNat) (by omega), ← hplace]
      rfl

/-- Memory into which `data` has been written from the rear on, the first `k` bytes there
and the others at the start of the memory. -/
def splitWrite (rb : RingBuffer) (k : Nat) (data : List UInt8) : Int → UInt8 :=
  writeBytes (writeBytes rb.buffer rb.rear (data.take k)) 0 (data.drop k)

/-- **Writing behind the rear**, where the split is at the end of the memory or behind the
data. -/
theorem advance_splitWrite (h : rb.Valid) {k : Nat} {data : List UInt8}
    (hfit : (data.length : Int) ≤ rb.getFreeSize)
    (hsplit : (data.length ≤ k ∧ rb.rear + data.length ≤ rb.size) ∨ (k : Int) = rb.size - rb.rear) :
    Valid { rb with
        buffer := splitWrite rb k data
        rear := (rb.rear + data.length).tmod rb.size } ∧
      content { rb with
        buffer := splitWrite rb k data
        rear := (rb.rear + data.length).tmod rb.size } = rb.content ++ data := by
  have := h.front_nonneg
  have := h.front_lt
  have := h.rear_nonneg
  have := h.rear_lt
  have hused := h.used_nonneg
  have hlt := h.used_lt
  unfold getFreeSize at hfit
  refine h.advance_rear hfit ?_ ?_
  · intro i hi
    rw [splitWrite, byteAt, wrap_eq (by omega) (by omega)]
    unfold getUsedSize at hi hfit hlt
    rw [writeBytes_of_notMem, writeBytes_of_notMem]
    · rw [List.length_take]
      split at hi <;> split <;> omega
    · rw [List.length_drop]
      split at hi <;> split <;> omega
  · intro i hi
    rw [splitWrite, wrap_eq (by omega) (by omega)]
    by_cases hk : i < k
    · rw [if_pos (by omega), writeBytes_of_notMem, writeBytes_of_lt]
      · exact List.getElem_take
      · rw [List.length_take]
        omega
      · rw [List.length_drop]
        unfold getUsedSize at hfit
        split at hfit <;> omega
    · have hplace : rb.rear + i - rb.size = 0 + ((i - k : Nat) : Int) := by omega
      rw [if_neg (by omega), hplace, writeBytes_of_lt (by rw [List.length_drop]; omega),
        List.getElem_drop]
      congr 1
      omega

end Valid

end RingBuffer

end SessionServer.Common
