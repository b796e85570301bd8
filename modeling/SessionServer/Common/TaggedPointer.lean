/-
  Common/TaggedPointer.lean --- the retry loops, on 64-bit words.

  `Enqueue` and `Free` make the word they install inside their loop.  A round ORs the tag it
  has read, plus 1, into `countnode`, and does not take out the tags that earlier rounds
  have put there.  `ChunkAlloc` starts from the address again in every round.
-/
import SessionServer.Common.LockFreeQueue
import SessionServer.Common.MemoryPool

set_option autoImplicit false

namespace SessionServer.Common.TaggedPointer

open SessionServer.Foundation

def ADRMASK : UInt64 := 0x0000ffffffffffff

def TAGMASK : UInt64 := 0xffff000000000000

def MAKETAG : UInt64 := 0x0001000000000000

/-- An address in user space: the upper 16 bits are clear. -/
abbrev Address := {a : UInt64 // a &&& ADRMASK = a}

/-- `tempadr &= ADRMASK`. -/
def realadr (w : UInt64) : Address :=
  ⟨w &&& ADRMASK, by rw [UInt64.and_assoc, UInt64.and_self]⟩

/-- The upper 16 bits of a word. -/
def tagOf (w : UInt64) : UInt16 := (w >>> 48).toUInt16

/-- An address with a tag. -/
def word (a : Address) (tag : UInt16) : UInt64 := a.1 ||| tag.toUInt64 <<< 48

/-- `tag &= TAGMASK; tag += MAKETAG; countnode |= tag`. -/
def mark (countnode observed : UInt64) : UInt64 :=
  countnode ||| ((observed &&& TAGMASK) + MAKETAG)

/-! ## The loops -/

/-- A loop whose rounds mark `countnode` with what they have read; the first one to succeed has
installed it.  `none` where none has. -/
def retry {ρ : Type} (observed : ρ → UInt64) (succeeds : ρ → Bool) (countnode : UInt64) :
    List ρ → Option UInt64
  | [] => none
  | round :: rest =>
      if succeeds round then some (mark countnode (observed round))
      else retry observed succeeds (mark countnode (observed round)) rest

/-- A round of `Enqueue`: what it reads of `_tail`, and what `_tail` and `realadr->_next` are
when it exchanges them. -/
structure TailRound where
  oldtail : UInt64
  tail : UInt64
  next : UInt64

/-- Both exchanges succeed. -/
def TailRound.succeeds (round : TailRound) : Bool :=
  round.tail = round.oldtail && round.next = 0

/-- A round of `Free` or `ChunkAlloc`: what it reads of `_head`, and what `_head` is when it
exchanges it. -/
structure HeadRound where
  oldhead : UInt64
  head : UInt64

def HeadRound.succeeds (round : HeadRound) : Bool := round.head = round.oldhead

/-- The loop of `LFQueue::Enqueue`, with the node `Alloc` has returned. -/
def LFQueue.enqueue (newnode : Address) (rounds : List TailRound) : Option UInt64 :=
  retry TailRound.oldtail TailRound.succeeds newnode rounds

/-- `MAXLFQueue::Enqueue`, with the `_size` it reads first. -/
def MAXLFQueue.enqueue (maxSize size : Int32) (newnode : Address) (rounds : List TailRound) :
    Option UInt64 :=
  if maxSize ≤ size then none
  else retry TailRound.oldtail TailRound.succeeds newnode rounds

/-- The loop of `MemoryPool::Free`. -/
def MemoryPool.free (data : UInt64) (rounds : List HeadRound) : Option UInt64 :=
  retry HeadRound.oldhead HeadRound.succeeds (realadr data) rounds

/-- The loop of `ChunkAlloc`.  A round starts from the address without a tag. -/
def MemoryPool.chunkAlloc (newhead : Address) : List HeadRound → Option UInt64
  | [] => none
  | round :: rest =>
      if round.succeeds then some (mark newhead round.oldhead)
      else MemoryPool.chunkAlloc newhead rest

/-! ## Words as numbers -/

/-- The bits of a tag and those of an address side by side. -/
theorem or_shift (a s t : Nat) (ha : a < 2 ^ 48) :
    (s * 2 ^ 48 + a) ||| t * 2 ^ 48 = (s ||| t) * 2 ^ 48 + a := by
  rw [← Nat.shiftLeft_eq, ← Nat.shiftLeft_eq, ← Nat.shiftLeft_eq,
    Nat.shiftLeft_add_eq_or_of_lt ha, Nat.shiftLeft_add_eq_or_of_lt ha, Nat.shiftLeft_or_distrib,
    Nat.or_assoc, Nat.or_assoc, Nat.or_comm a]

theorem toNat_and_ADRMASK (w : UInt64) : (w &&& ADRMASK).toNat = w.toNat % 2 ^ 48 := by
  rw [UInt64.toNat_and]
  exact Nat.and_two_pow_sub_one_eq_mod w.toNat 48

theorem toNat_and_TAGMASK (w : UInt64) :
    (w &&& TAGMASK).toNat = w.toNat / 2 ^ 48 * 2 ^ 48 := by
  have hmask : TAGMASK.toNat = (2 ^ 16 - 1) <<< 48 := by decide
  rw [UInt64.toNat_and, hmask, ← Nat.shiftRight_eq_div_pow, ← Nat.shiftLeft_eq]
  apply Nat.eq_of_testBit_eq
  intro i
  rw [Nat.testBit_and, Nat.testBit_shiftLeft, Nat.testBit_two_pow_sub_one, Nat.testBit_shiftLeft,
    Nat.testBit_shiftRight]
  by_cases hlow : 48 ≤ i
  · rw [Nat.add_sub_cancel' hlow]
    by_cases hhigh : i - 48 < 16
    · simp [hlow, hhigh]
    · have hclear : w.toNat.testBit i = false := by
        refine Nat.testBit_lt_two_pow (Nat.lt_of_lt_of_le w.toNat_lt ?_)
        exact Nat.pow_le_pow_right (by decide) (by omega)
      simp [hclear]
  · simp [hlow]

theorem toNat_tagOf (w : UInt64) : (tagOf w).toNat = w.toNat / 2 ^ 48 := by
  have hlt := w.toNat_lt
  rw [tagOf, UInt64.toNat_toUInt16, UInt64.toNat_shiftRight, Nat.shiftRight_eq_div_pow]
  exact Nat.mod_eq_of_lt (by simp; omega)

theorem Address.toNat_lt (a : Address) : a.1.toNat < 2 ^ 48 := by
  rw [← a.2, toNat_and_ADRMASK]
  exact Nat.mod_lt _ (by decide)

theorem toNat_word (a : Address) (tag : UInt16) :
    (word a tag).toNat = tag.toNat * 2 ^ 48 + a.1.toNat := by
  have htag := tag.toNat_lt
  have hshift : (tag.toUInt64 <<< 48).toNat = tag.toNat * 2 ^ 48 := by
    rw [UInt64.toNat_shiftLeft, UInt16.toNat_toUInt64, Nat.shiftLeft_eq]
    exact Nat.mod_eq_of_lt (by simp; omega)
  have hor := or_shift a.1.toNat 0 tag.toNat a.toNat_lt
  rw [word, UInt64.toNat_or, hshift]
  simpa using hor

@[simp] theorem word_zero (a : Address) : word a 0 = a.1 := by
  apply UInt64.toNat_inj.mp
  simp [toNat_word]

@[simp] theorem word_and_ADRMASK (a : Address) (tag : UInt16) : word a tag &&& ADRMASK = a.1 := by
  have ha := a.toNat_lt
  apply UInt64.toNat_inj.mp
  rw [toNat_and_ADRMASK, toNat_word]
  omega

@[simp] theorem tagOf_word (a : Address) (tag : UInt16) : tagOf (word a tag) = tag := by
  have ha := a.toNat_lt
  apply UInt16.toNat_inj.mp
  rw [toNat_tagOf, toNat_word]
  omega

/-- **A round ORs the next tag into that of the word.** -/
theorem mark_word (a : Address) (tag : UInt16) (observed : UInt64) :
    mark (word a tag) observed = word a (tag ||| (tagOf observed + 1)) := by
  have htag := toNat_tagOf observed
  have hnext : ((observed &&& TAGMASK) + MAKETAG).toNat = (tagOf observed + 1).toNat * 2 ^ 48 := by
    rw [UInt64.toNat_add, toNat_and_TAGMASK, UInt16.toNat_add, htag]
    have hmake : MAKETAG.toNat = 2 ^ 48 := by decide
    rw [hmake, UInt16.toNat_one]
    omega
  apply UInt64.toNat_inj.mp
  rw [mark, UInt64.toNat_or, hnext, toNat_word, toNat_word, UInt16.toNat_or]
  exact or_shift a.1.toNat tag.toNat (tagOf observed + 1).toNat a.toNat_lt

/-! ## What a loop installs -/

/-- The tag a word read in a round asks for. -/
def nextTag (observed : UInt64) : UInt16 := tagOf observed + 1

section

variable {ρ : Type} {observed : ρ → UInt64} {succeeds : ρ → Bool}

/-- The tags of all rounds are in the word. -/
theorem retry_word (a : Address) {failed : List ρ} {last : ρ}
    (hfailed : ∀ round ∈ failed, succeeds round = false) (hlast : succeeds last = true)
    (tag : UInt16) :
    retry observed succeeds (word a tag) (failed ++ [last]) =
      some (word a ((failed.map fun round => nextTag (observed round)).foldl (· ||| ·) tag |||
        nextTag (observed last))) := by
  induction failed generalizing tag with
  | nil =>
      rw [List.nil_append, retry, if_pos hlast, mark_word]
      rfl
  | cons round failed ih =>
      have hfirst : ¬ succeeds round = true := by simp [hfailed round List.mem_cons_self]
      rw [List.cons_append, retry, if_neg hfirst, mark_word,
        ih fun other hother => hfailed other (List.mem_cons_of_mem _ hother)]
      rfl

end

/-- Bits are ORed away where each operand has none of its own. -/
theorem or_or_eq_iff {x y z : UInt16} : (x ||| y) ||| z = z ↔ x ||| z = z ∧ y ||| z = z := by
  constructor
  · intro h
    constructor
    · calc x ||| z = x ||| ((x ||| y) ||| z) := by rw [h]
        _ = z := by rw [← UInt16.or_assoc, ← UInt16.or_assoc, UInt16.or_self, h]
    · calc y ||| z = y ||| ((x ||| y) ||| z) := by rw [h]
        _ = z := by rw [UInt16.or_comm x, ← UInt16.or_assoc, ← UInt16.or_assoc, UInt16.or_self,
          UInt16.or_comm y, h]
  · rintro ⟨hx, hy⟩
    rw [UInt16.or_assoc, hy, hx]

theorem foldl_or_eq_iff {tags : List UInt16} {x z : UInt16} :
    tags.foldl (· ||| ·) x ||| z = z ↔ x ||| z = z ∧ ∀ y ∈ tags, y ||| z = z := by
  induction tags generalizing x with
  | nil => simp
  | cons y tags ih =>
      rw [List.foldl_cons, ih, or_or_eq_iff, List.forall_mem_cons, and_assoc]

/-- A loop has installed the address of the node, with the tag of the last word it has read,
plus 1. -/
def Installs (installed : Option UInt64) (node : Address) (last : UInt64) : Prop :=
  ∃ w, installed = some w ∧ w &&& ADRMASK = node.1 ∧ tagOf w = tagOf last + 1

/-- No tag an earlier round has asked for has a bit that the one of the last round has not. -/
def Covered (earlier : List UInt64) (last : UInt64) : Prop :=
  ∀ observed ∈ earlier, nextTag observed ||| nextTag last = nextTag last

theorem installs_word_iff {a : Address} {tag : UInt16} {last : UInt64} :
    Installs (some (word a tag)) a last ↔ tag = nextTag last := by
  simp [Installs, nextTag]

theorem installs_retry_iff {ρ : Type} {observed : ρ → UInt64} {succeeds : ρ → Bool} (a : Address)
    {failed : List ρ} {last : ρ} (hfailed : ∀ round ∈ failed, succeeds round = false)
    (hlast : succeeds last = true) :
    Installs (retry observed succeeds a.1 (failed ++ [last])) a (observed last) ↔
      Covered (failed.map observed) (observed last) := by
  have hword : retry observed succeeds (word a 0) (failed ++ [last]) = some (word a _) :=
    retry_word a hfailed hlast 0
  rw [word_zero] at hword
  rw [hword, installs_word_iff, foldl_or_eq_iff]
  simp [Covered]

/-- **`ChunkAlloc` installs the next tag**, whatever the earlier rounds have read. -/
theorem chunkAlloc_installs (newhead : Address) {failed : List HeadRound} {last : HeadRound}
    (hfailed : ∀ round ∈ failed, round.succeeds = false) (hlast : last.succeeds = true) :
    Installs (MemoryPool.chunkAlloc newhead (failed ++ [last])) newhead last.oldhead := by
  induction failed with
  | nil =>
      have hmark := mark_word newhead 0 last.oldhead
      rw [word_zero, UInt16.zero_or] at hmark
      rw [List.nil_append, MemoryPool.chunkAlloc, if_pos hlast, hmark, installs_word_iff]
      rfl
  | cons round failed ih =>
      have hfirst : ¬ round.succeeds = true := by simp [hfailed round List.mem_cons_self]
      rw [List.cons_append, MemoryPool.chunkAlloc, if_neg hfirst]
      exact ih fun other hother => hfailed other (List.mem_cons_of_mem _ hother)

/-- **The loops install the next tag where the tags of the earlier rounds are covered**, and
only there. -/
theorem installs_nextTag_iff (newnode : Address) (maxSize size : Int32) (hsize : size < maxSize)
    (failed : List TailRound) (last : TailRound)
    (hfailed : ∀ round ∈ failed, round.succeeds = false) (hlast : last.succeeds = true)
    (data : UInt64) (failedFree : List HeadRound) (lastFree : HeadRound)
    (hfailedFree : ∀ round ∈ failedFree, round.succeeds = false)
    (hlastFree : lastFree.succeeds = true) :
    (Installs (LFQueue.enqueue newnode (failed ++ [last])) newnode last.oldtail ↔
      Covered (failed.map TailRound.oldtail) last.oldtail) ∧
    (Installs (MAXLFQueue.enqueue maxSize size newnode (failed ++ [last])) newnode last.oldtail ↔
      Covered (failed.map TailRound.oldtail) last.oldtail) ∧
    (Installs (MemoryPool.free data (failedFree ++ [lastFree])) (realadr data) lastFree.oldhead ↔
      Covered (failedFree.map HeadRound.oldhead) lastFree.oldhead) := by
  have hqueue : Installs (LFQueue.enqueue newnode (failed ++ [last])) newnode last.oldtail ↔ _ :=
    installs_retry_iff newnode hfailed hlast
  refine ⟨hqueue, ?_, installs_retry_iff (realadr data) hfailedFree hlastFree⟩
  rw [MAXLFQueue.enqueue, if_neg (Int32.not_le.mpr hsize)]
  exact hqueue

/-- `Enqueue` succeeds at once, and `Free` after a round that has read the same tag. -/
theorem quiet_installs :
    Installs (LFQueue.enqueue (realadr 0x1000) [⟨0x0005000000002000, 0x0005000000002000, 0⟩])
      (realadr 0x1000) 0x0005000000002000 ∧
    Installs
      (MAXLFQueue.enqueue 50000 7 (realadr 0x1000) [⟨0x0005000000002000, 0x0005000000002000, 0⟩])
      (realadr 0x1000) 0x0005000000002000 ∧
    Installs
      (MemoryPool.free 0x1000
        [⟨0x0005000000002000, 0x0005000000003000⟩, ⟨0x0005000000003000, 0x0005000000003000⟩])
      (realadr 0x1000) 0x0005000000003000 := by
  have hiff := installs_nextTag_iff (realadr 0x1000) 50000 7 (by decide) []
    ⟨0x0005000000002000, 0x0005000000002000, 0⟩ (by simp) (by decide) 0x1000
    [⟨0x0005000000002000, 0x0005000000003000⟩] ⟨0x0005000000003000, 0x0005000000003000⟩ (by decide)
    (by decide)
  exact ⟨hiff.1.mpr (by simp [Covered]), hiff.2.1.mpr (by simp [Covered]),
    hiff.2.2.mpr (by simp [Covered]; decide)⟩

/-- A call that reads tag 0, and then the tag 1 of the one that comes between, installs tag 3. -/
theorem retried_installs_third :
    LFQueue.enqueue (realadr 0x1000)
        [⟨0x2000, 0x0001000000003000, 0⟩, ⟨0x0001000000003000, 0x0001000000003000, 0⟩] =
      some 0x0003000000001000 ∧
    ¬ Installs
      (LFQueue.enqueue (realadr 0x1000)
        [⟨0x2000, 0x0001000000003000, 0⟩, ⟨0x0001000000003000, 0x0001000000003000, 0⟩])
      (realadr 0x1000) 0x0001000000003000 ∧
    ¬ Installs
      (MAXLFQueue.enqueue 50000 0 (realadr 0x1000)
        [⟨0x2000, 0x0001000000003000, 0⟩, ⟨0x0001000000003000, 0x0001000000003000, 0⟩])
      (realadr 0x1000) 0x0001000000003000 ∧
    ¬ Installs
      (MemoryPool.free 0x1000
        [⟨0x2000, 0x0001000000003000⟩, ⟨0x0001000000003000, 0x0001000000003000⟩])
      (realadr 0x1000) 0x0001000000003000 := by
  have hthird : ¬ Installs (some 0x0003000000001000) (realadr 0x1000) 0x0001000000003000 := by
    rintro ⟨w, hw, -, htag⟩
    rw [← Option.some.inj hw] at htag
    exact absurd htag (by decide)
  have hqueue : LFQueue.enqueue (realadr 0x1000)
      [⟨0x2000, 0x0001000000003000, 0⟩, ⟨0x0001000000003000, 0x0001000000003000, 0⟩] =
        some 0x0003000000001000 := by decide
  have hmax : MAXLFQueue.enqueue 50000 0 (realadr 0x1000)
      [⟨0x2000, 0x0001000000003000, 0⟩, ⟨0x0001000000003000, 0x0001000000003000, 0⟩] =
        some 0x0003000000001000 := by decide
  have hfree : MemoryPool.free 0x1000
      [⟨0x2000, 0x0001000000003000⟩, ⟨0x0001000000003000, 0x0001000000003000⟩] =
        some 0x0003000000001000 := by decide
  refine ⟨hqueue, ?_, ?_, ?_⟩
  · rw [hqueue]
    exact hthird
  · rw [hmax]
    exact hthird
  · rw [hfree]
    exact hthird

/-! ## The words of the containers -/

/-- The word in a pointer that is null or holds an address and a tag. -/
def bits : Option (Address × UInt16) → UInt64
  | none => 0
  | some (a, tag) => word a tag

theorem nextTag_bits (w : Option (Address × UInt16)) :
    nextTag (bits w) = w.elim 1 fun w => w.2 + 1 := by
  cases w with
  | none => decide
  | some w => rw [bits, nextTag, tagOf_word, Option.elim_some]

/-- The word in a pointer of a container, whose node `i` is at `address i`. -/
def LFQueue.bits (address : Nat → Address) (w : LockFree.Word) : UInt64 :=
  TaggedPointer.bits (w.map fun w => (address w.node, w.tag))

/-- The word in a pointer of the pool. -/
def MemoryPool.bits (address : MemoryPool.Node → Address) (w : MemoryPool.Word) : UInt64 :=
  TaggedPointer.bits (w.map fun w => (address w.node, w.tag))

/-- The step of `Enqueue` that reads `_tail` marks `countnode`. -/
theorem enqRead_mark {n : Nat} {α : Type} (address : Nat → Address) (m : LFQueue.Memory n α)
    (t : Nat) (q : Fin n) (newnode : Nat) (tag : UInt16) (data : α) :
    ∃ tag', LFQueue.advance m t (.enqRead q newnode tag data) =
        some (m, .enqTail q newnode tag' (m.queues q).tail data) ∧
      LFQueue.bits address (some ⟨newnode, tag'⟩) =
        mark (LFQueue.bits address (some ⟨newnode, tag⟩))
          (LFQueue.bits address (m.queues q).tail) := by
  refine ⟨_, rfl, ?_⟩
  have hnext : nextTag (LFQueue.bits address (m.queues q).tail) = (m.queues q).tail.nextTag := by
    rw [LFQueue.bits, nextTag_bits]
    cases (m.queues q).tail <;> rfl
  rw [← hnext]
  exact (mark_word (address newnode) tag _).symm

/-- The step of `Free` that reads `_head` marks `countnode`. -/
theorem freeRead_mark (address : MemoryPool.Node → Address) (p : MemoryPool)
    (node : MemoryPool.Node) (tag : UInt16) :
    ∃ tag', MemoryPool.advance p (.freeRead node tag) = some (p, .freeLink node tag' p.head) ∧
      MemoryPool.bits address (some ⟨node, tag'⟩) =
        mark (MemoryPool.bits address (some ⟨node, tag⟩)) (MemoryPool.bits address p.head) := by
  refine ⟨_, rfl, ?_⟩
  have hnext : nextTag (MemoryPool.bits address p.head) = p.head.nextTag := by
    rw [MemoryPool.bits, nextTag_bits]
    cases p.head <;> rfl
  rw [← hnext]
  exact (mark_word (address node) tag _).symm

/-- Thread 1 enqueues between the two rounds of thread 0, and the tail goes from tag 1 to tag 3. -/
example :
    (exec LFQueue.step (LFQueue.start (fun _ : Fin 1 => none) (fun _ => 0) (fun _ => none) 2)
      (.enqueue 0 0 7 :: .step 0 :: .alloc 0 1 :: List.replicate 3 (.step 0) ++
        .enqueue 1 0 8 :: .step 1 :: .alloc 1 2 :: List.replicate 6 (.step 1) ++
        List.replicate 3 (.step 0))).map (fun s => (s.memory.queues 0).tail) =
      some (some ⟨1, 3⟩) := by
  decide +kernel

end SessionServer.Common.TaggedPointer
