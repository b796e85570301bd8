/-
  Common/PacketRef.lean --- the reference counts of the buffers behind `CPacket`.

  The constructors, the assignment, `MakePacketPtr` and the destructor of `CPacket`, and the
  references that are taken and given back by hand.  All of them keep the counter of a buffer
  at the number of its holders but the assignment, which takes a reference to the new buffer
  and does not give the one to the old buffer back.
-/
import SessionServer.Foundation.Run

set_option autoImplicit false

namespace SessionServer.Common

open SessionServer.Foundation

/-- The buffers, by number, and who holds them. -/
structure Refs where
  refcnt : Nat → Int
  /-- how many times `BufPool` has the buffer -/
  pool : Nat → Nat
  /-- the `CPacket`s in the order of their construction; `none` once destroyed -/
  packets : List (Option Nat)
  /-- what `MakePacketPtr` has returned and no constructor has taken over -/
  ptrs : List Nat
  /-- references taken by `AddRefcnt` -/
  raws : List Nat

/-- A call.  Where a buffer comes from the pool, `b` is the pool's answer. -/
inductive RefOp where
  /-- `CPacket()` -/
  | construct (b : Nat)
  /-- `CPacket(SBuffer*)` -/
  | fromBuffer (b : Nat)
  /-- `CPacket(CPacket&)` -/
  | copy (i : Nat)
  /-- `CPacket(CPacket*)` -/
  | fromPtr (b : Nat)
  /-- `operator=(const CPacket&)` -/
  | assign (i j : Nat)
  | makePacketPtr (i : Nat)
  /-- `~CPacket()` -/
  | destroy (i : Nat)
  /-- `BufPool.Alloc()` and `AddRefcnt(1)` -/
  | alloc (b : Nat)
  | addRefcnt (b : Nat)
  | decRefcnt (b : Nat)
  deriving DecidableEq

namespace Refs

def addRefcnt (s : Refs) (b : Nat) : Refs :=
  { s with refcnt := Function.update s.refcnt b (s.refcnt b + 1) }

/-- `DecRefcnt`; the buffer goes back to the pool where the counter comes to 0. -/
def decRefcnt (s : Refs) (b : Nat) : Refs :=
  let check := s.refcnt b - 1
  { s with
      refcnt := Function.update s.refcnt b check
      pool := if check = 0 then Function.update s.pool b (s.pool b + 1) else s.pool }

def alloc (s : Refs) (b : Nat) : Refs :=
  { s with pool := Function.update s.pool b (s.pool b - 1) }

/-- The live `CPacket`s that refer to a buffer and the raw references to it. -/
def holders (s : Refs) (b : Nat) : Nat :=
  s.packets.count (some b) + s.ptrs.count b + s.raws.count b

/-- The buffer of a live `CPacket`. -/
def buffer (s : Refs) (i : Nat) : Option Nat := s.packets[i]?.join

/-- A call, by a program that refers to the buffers it names, takes over each pointer once
and gives back what it has taken. -/
def step (s : Refs) : RefOp → Option Refs
  | .construct b =>
      if 0 < s.pool b then
        some { (s.alloc b).addRefcnt b with packets := s.packets ++ [some b] }
      else none
  | .fromBuffer b =>
      if 0 < s.holders b then some { s.addRefcnt b with packets := s.packets ++ [some b] }
      else none
  | .copy i =>
      (s.buffer i).map fun b => { s.addRefcnt b with packets := s.packets ++ [some b] }
  | .fromPtr b =>
      if b ∈ s.ptrs then
        some { s with packets := s.packets ++ [some b], ptrs := s.ptrs.erase b }
      else none
  | .assign i j =>
      if (s.buffer i).isSome then
        (s.buffer j).map fun b => { s.addRefcnt b with packets := s.packets.set i (some b) }
      else none
  | .makePacketPtr i => (s.buffer i).map fun b => { s.addRefcnt b with ptrs := b :: s.ptrs }
  | .destroy i =>
      (s.buffer i).map fun b => { s.decRefcnt b with packets := s.packets.set i none }
  | .alloc b =>
      if 0 < s.pool b then some { (s.alloc b).addRefcnt b with raws := b :: s.raws } else none
  | .addRefcnt b =>
      if 0 < s.holders b then some { s.addRefcnt b with raws := b :: s.raws } else none
  | .decRefcnt b =>
      if b ∈ s.raws then some { s.decRefcnt b with raws := s.raws.erase b } else none

/-- Every buffer is in the pool. -/
def start : Refs where
  refcnt _ := 0
  pool _ := 1
  packets := []
  ptrs := []
  raws := []

/-- The counters are the numbers of holders, and the pool has exactly the buffers without
one, each once. -/
def Exact (s : Refs) : Prop :=
  ∀ b, s.refcnt b = s.holders b ∧ s.pool b = if s.holders b = 0 then 1 else 0

/-! ## Changes of one counter -/

variable {s t : Refs} {b : Nat}

theorem Exact.keep (h : s.Exact) (hrefcnt : t.refcnt = s.refcnt) (hpool : t.pool = s.pool)
    (hholders : ∀ x, t.holders x = s.holders x) : t.Exact := by
  intro x
  rw [hrefcnt, hpool, hholders]
  exact h x

/-- One more holder of a buffer that has one. -/
theorem Exact.add (h : s.Exact) (hheld : 0 < s.holders b)
    (hrefcnt : t.refcnt = (s.addRefcnt b).refcnt) (hpool : t.pool = s.pool)
    (hholders : ∀ x, t.holders x = s.holders x + if x = b then 1 else 0) : t.Exact := by
  intro x
  obtain ⟨hcount, hfree⟩ := h x
  rw [hrefcnt, hpool, hholders, addRefcnt]
  by_cases hx : x = b
  · subst hx
    rw [if_neg (by omega)] at hfree
    rw [if_pos rfl, if_neg (Nat.succ_ne_zero _)]
    exact ⟨by simp only [Function.update_self]; omega, hfree⟩
  · rw [if_neg hx]
    exact ⟨by simp only [Function.update_of_ne hx]; exact hcount, hfree⟩

/-- The first holder of a buffer that comes from the pool. -/
theorem Exact.alloc (h : s.Exact) (hpooled : 0 < s.pool b)
    (hrefcnt : t.refcnt = (s.addRefcnt b).refcnt) (hpool : t.pool = (s.alloc b).pool)
    (hholders : ∀ x, t.holders x = s.holders x + if x = b then 1 else 0) : t.Exact := by
  intro x
  obtain ⟨hcount, hfree⟩ := h x
  rw [hrefcnt, hpool, hholders, addRefcnt, Refs.alloc]
  by_cases hx : x = b
  · subst hx
    rw [if_pos rfl, if_neg (Nat.succ_ne_zero _)]
    simp only [Function.update_self]
    split at hfree <;> omega
  · rw [if_neg hx]
    simp only [Function.update_of_ne hx]
    exact ⟨hcount, hfree⟩

/-- One holder less; the last one gives the buffer back. -/
theorem Exact.dec (h : s.Exact) (hrefcnt : t.refcnt = (s.decRefcnt b).refcnt)
    (hpool : t.pool = (s.decRefcnt b).pool)
    (hholders : ∀ x, t.holders x + (if x = b then 1 else 0) = s.holders x) : t.Exact := by
  intro x
  obtain ⟨hcount, hfree⟩ := h x
  have hx := hholders x
  have hb := hholders b
  obtain ⟨hcountB, _⟩ := h b
  rw [if_pos rfl] at hb
  rw [hrefcnt, hpool, decRefcnt]
  by_cases heq : x = b
  · subst heq
    rw [if_neg (by omega)] at hfree
    simp only [Function.update_self]
    refine ⟨by omega, ?_⟩
    by_cases hlast : t.holders x = 0
    · rw [if_pos (by omega), if_pos hlast, Function.update_self, hfree]
    · rw [if_neg (by omega), if_neg hlast, hfree]
  · rw [if_neg heq, Nat.add_zero] at hx
    rw [hx]
    simp only [Function.update_of_ne heq]
    refine ⟨hcount, ?_⟩
    split
    · rw [Function.update_of_ne heq, hfree]
    · exact hfree

/-! ## One call -/

theorem holders_packet (x b : Nat) (packets : List (Option Nat)) :
    (packets ++ [some b]).count (some x) = packets.count (some x) + if x = b then 1 else 0 := by
  rw [List.count_append, List.count_singleton]
  by_cases hx : x = b
  · simp [hx]
  · simp [hx, Ne.symm hx]

theorem holders_cons (x b : Nat) (l : List Nat) :
    (b :: l).count x = l.count x + if x = b then 1 else 0 := by
  rw [List.count_cons]
  by_cases hx : x = b
  · simp [hx]
  · simp [hx, Ne.symm hx]

theorem holders_erase {b : Nat} {l : List Nat} (h : b ∈ l) (x : Nat) :
    (l.erase b).count x + (if x = b then 1 else 0) = l.count x := by
  have hpos := List.count_pos_iff.mpr h
  by_cases hx : x = b
  · subst hx
    rw [List.count_erase_self, if_pos rfl]
    omega
  · rw [List.count_erase_of_ne hx, if_neg hx, Nat.add_zero]

theorem packets_of_buffer {i : Nat} (h : s.buffer i = some b) :
    s.packets[i]? = some (some b) := Option.join_eq_some_iff.mp h

theorem holders_pos_of_buffer {i : Nat} (h : s.buffer i = some b) : 0 < s.holders b := by
  have hpos := List.count_pos_iff.mpr (List.mem_of_getElem? (packets_of_buffer h))
  unfold holders
  omega

/-- A `CPacket` refers to another buffer, or to none. -/
theorem packets_set {i : Nat} (h : s.buffer i = some b) (next : Option Nat) (x : Nat) :
    (s.packets.set i next).count (some x) + (if x = b then 1 else 0) =
      s.packets.count (some x) + if next = some x then 1 else 0 := by
  obtain ⟨hlt, hat⟩ := List.getElem?_eq_some_iff.mp (packets_of_buffer h)
  have hpos := List.count_pos_iff.mpr (List.getElem_mem hlt)
  rw [hat] at hpos
  rw [List.count_set hlt, hat]
  by_cases hx : x = b
  · subst hx
    simp only [beq_self_eq_true, if_true, beq_iff_eq]
    omega
  · simp [hx, Ne.symm hx]

theorem start_exact : start.Exact := fun _ => ⟨rfl, rfl⟩

/-- **Every call but the assignment keeps the counters exact.** -/
theorem Exact.step {op : RefOp} (h : s.Exact) (hop : ∀ i j, op ≠ .assign i j)
    (hstep : s.step op = some t) : t.Exact := by
  cases op with
  | construct b =>
      simp only [Refs.step, Option.ite_none_right_eq_some, Option.some.injEq] at hstep
      obtain ⟨hpool, rfl⟩ := hstep
      refine h.alloc hpool rfl rfl fun x => ?_
      simp only [holders, addRefcnt, Refs.alloc, holders_packet]
      omega
  | fromBuffer b =>
      simp only [Refs.step, Option.ite_none_right_eq_some, Option.some.injEq] at hstep
      obtain ⟨hheld, rfl⟩ := hstep
      refine h.add hheld rfl rfl fun x => ?_
      simp only [holders, addRefcnt, holders_packet]
      omega
  | copy i =>
      simp only [Refs.step, Option.map_eq_some_iff] at hstep
      obtain ⟨b, hb, rfl⟩ := hstep
      refine h.add (holders_pos_of_buffer hb) rfl rfl fun x => ?_
      simp only [holders, addRefcnt, holders_packet]
      omega
  | fromPtr b =>
      simp only [Refs.step, Option.ite_none_right_eq_some, Option.some.injEq] at hstep
      obtain ⟨hptr, rfl⟩ := hstep
      refine h.keep rfl rfl fun x => ?_
      have herase := holders_erase hptr x
      simp only [holders, holders_packet]
      omega
  | assign i j => exact absurd rfl (hop i j)
  | makePacketPtr i =>
      simp only [Refs.step, Option.map_eq_some_iff] at hstep
      obtain ⟨b, hb, rfl⟩ := hstep
      refine h.add (holders_pos_of_buffer hb) rfl rfl fun x => ?_
      simp only [holders, addRefcnt, holders_cons]
      omega
  | destroy i =>
      simp only [Refs.step, Option.map_eq_some_iff] at hstep
      obtain ⟨b, hb, rfl⟩ := hstep
      refine h.dec rfl rfl fun x => ?_
      have hset := packets_set hb none x
      simp only [reduceCtorEq, if_false] at hset
      simp only [holders, decRefcnt]
      omega
  | alloc b =>
      simp only [Refs.step, Option.ite_none_right_eq_some, Option.some.injEq] at hstep
      obtain ⟨hpool, rfl⟩ := hstep
      refine h.alloc hpool rfl rfl fun x => ?_
      simp only [holders, addRefcnt, Refs.alloc, holders_cons]
      omega
  | addRefcnt b =>
      simp only [Refs.step, Option.ite_none_right_eq_some, Option.some.injEq] at hstep
      obtain ⟨hheld, rfl⟩ := hstep
      refine h.add hheld rfl rfl fun x => ?_
      simp only [holders, Refs.addRefcnt, holders_cons]
      omega
  | decRefcnt b =>
      simp only [Refs.step, Option.ite_none_right_eq_some, Option.some.injEq] at hstep
      obtain ⟨hraw, rfl⟩ := hstep
      refine h.dec rfl rfl fun x => ?_
      have herase := holders_erase hraw x
      simp only [holders, Refs.decRefcnt]
      omega

/-- **An assignment never does**: the new buffer counts one reference too many, or the old one
still counts the one it has lost. -/
theorem assign_not_exact {i j : Nat} (h : s.Exact) (hstep : s.step (.assign i j) = some t) :
    ¬ t.Exact := by
  intro ht
  simp only [Refs.step, Option.ite_none_right_eq_some, Option.map_eq_some_iff] at hstep
  obtain ⟨hlive, b, hb, rfl⟩ := hstep
  obtain ⟨a, ha⟩ := Option.isSome_iff_exists.mp hlive
  have hset := packets_set ha (some b)
  have hbefore := (h a).1
  have hafter := (ht a).1
  have hchange := hset a
  simp only [holders, addRefcnt, if_true] at hbefore hafter hchange
  by_cases hab : b = a
  · subst hab
    simp only [Function.update_self, if_true] at hafter hchange
    omega
  · rw [Function.update_of_ne (Ne.symm hab)] at hafter
    rw [if_neg (by simpa using hab)] at hchange
    omega

/-! ## Whole runs -/

theorem Exact.exec {ops : List RefOp} (h : s.Exact) (hops : ∀ i j, RefOp.assign i j ∉ ops)
    (hrun : exec Refs.step s ops = some t) : t.Exact := by
  induction ops generalizing s with
  | nil =>
      rw [exec_nil, Option.some.injEq] at hrun
      exact hrun ▸ h
  | cons op ops ih =>
      obtain ⟨m, hm, hrest⟩ := exec_cons_eq_some.mp hrun
      have hfirst : m.Exact := h.step (fun i j hop => hops i j (hop ▸ List.mem_cons_self)) hm
      exact ih hfirst (fun i j hmem => hops i j (List.mem_cons_of_mem _ hmem)) hrest

end Refs

open Refs

/-- **The reference counts are exact in every state of a run** exactly where it has no
assignment. -/
theorem refs_exact_iff {ops : List RefOp} {t : Refs} (hrun : exec Refs.step start ops = some t) :
    (∀ before after s, ops = before ++ after → exec Refs.step start before = some s →
      s.Exact) ↔ ∀ i j, RefOp.assign i j ∉ ops := by
  constructor
  · intro hexact i j hmem
    obtain ⟨before, after, rfl⟩ := List.append_of_mem hmem
    rw [exec_append, Option.bind_eq_some_iff] at hrun
    obtain ⟨s, hs, hrest⟩ := hrun
    obtain ⟨u, hu, _⟩ := exec_cons_eq_some.mp hrest
    exact assign_not_exact (hexact before _ s rfl hs) hu (hexact (before ++ [.assign i j]) after
      u (by simp) (exec_concat_eq_some.mpr ⟨s, hs, hu⟩))
  · rintro hops before after s rfl hs
    exact start_exact.exec (fun i j hmem => hops i j (List.mem_append_left _ hmem)) hs

/-- A packet that is copied, sent on as a pointer and taken over. -/
def handedOver : List RefOp :=
  [.alloc 3, .fromBuffer 3, .decRefcnt 3, .copy 0, .makePacketPtr 1, .destroy 0, .destroy 1,
    .fromPtr 3, .destroy 2, .construct 3]

theorem handedOver_exact : ∃ t, exec Refs.step start handedOver = some t ∧ t.Exact := by
  have hrun : (exec Refs.step start handedOver).isSome = true := by decide +kernel
  obtain ⟨t, ht⟩ := Option.isSome_iff_exists.mp hrun
  refine ⟨t, ht, (refs_exact_iff ht).mpr (fun i j hmem => ?_) handedOver [] t (by simp) ht⟩
  simp [handedOver] at hmem

/-- One `CPacket` is assigned to another: the buffer of the first keeps a reference that
nobody holds. -/
def reassigned : List RefOp := [.construct 0, .construct 1, .assign 0 1, .destroy 0, .destroy 1]

theorem reassigned_inexact :
    ¬ ∀ ops t, exec Refs.step start ops = some t →
      ∀ before after s, ops = before ++ after → exec Refs.step start before = some s →
        s.Exact := by
  intro h
  have hrun : (exec Refs.step start reassigned).isSome = true ∧
      (exec Refs.step start reassigned).map (fun t => (t.refcnt 0, t.holders 0)) =
        some (1, 0) := by decide +kernel
  obtain ⟨t, ht⟩ := Option.isSome_iff_exists.mp hrun.1
  have hexact := (h reassigned t ht reassigned [] t (by simp) ht 0).1
  have hcounts := hrun.2
  rw [ht, Option.map_some, Option.some.injEq, Prod.mk.injEq] at hcounts
  rw [hcounts.1, hcounts.2] at hexact
  revert hexact
  decide

end SessionServer.Common
