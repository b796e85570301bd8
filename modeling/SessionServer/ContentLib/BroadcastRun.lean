/-
  ContentLib/BroadcastRun.lean --- a packet is framed once.

  The call that holds the lock is the only one between the two reads of the flag and the
  release.  What the rest of a framing makes of the buffer does not change while it goes on
  (`FramePc.finish`), and nothing is enqueued before the flag is set; the references keep the
  buffer out of the pool as long as an entry stands for it.
-/
import SessionServer.ContentLib.Broadcast
import SessionServer.Foundation.Stacks

set_option autoImplicit false

namespace SessionServer.ContentLib

open SessionServer.Foundation

variable {cfg : WireConfig} {msg : SBuffer} {s t : Broadcast}

/-! ## Framing -/

namespace FramePc

/-- What the rest of a framing makes of the buffer. -/
def finish (cfg : WireConfig) (msg : SBuffer) : FramePc → SBuffer
  | read header =>
      finishStore cfg header
        { msg with read := header.start, dataSize := msg.dataSize + header.size }
  | size header => finishStore cfg header { msg with dataSize := msg.dataSize + header.size }
  | store header => finishStore cfg header msg
  | encode len randkey i state =>
      { msg with
          buffer := scan (encodeRound cfg.fixedKey randkey) (len + 1 - i) (4 + i) state
            msg.buffer }
  | exchange => msg
where
  finishStore (cfg : WireConfig) (header : Header) (msg : SBuffer) : SBuffer :=
    if cfg.type = .netServer then encodeNet cfg.fixedKey (header.store msg) else header.store msg

/-- How often `Encode` has been entered. -/
def encodings (cfg : WireConfig) : FramePc → Nat
  | read _ => 0
  | size _ => 0
  | store _ => 0
  | encode _ _ _ _ => if cfg.type = .netServer then 1 else 0
  | exchange => if cfg.type = .netServer then 1 else 0

theorem finish_next (msg : SBuffer) (pc : FramePc) :
    finish cfg (pc.next cfg msg).1 (pc.next cfg msg).2 = finish cfg msg pc := by
  cases pc with
  | read header => rfl
  | size header => rfl
  | store header =>
      by_cases hnet : cfg.type = .netServer
      · simp only [next, if_pos hnet, finish, finish.finishStore]
        rfl
      · simp only [next, if_neg hnet, finish, finish.finishStore]
  | encode len randkey i state =>
      simp only [next]
      by_cases hround : i < len + 1
      · have hleft : len + 1 - i = len + 1 - (i + 1) + 1 := by omega
        rw [if_pos hround]
        cases hcell : msg.buffer[4 + i]? with
        | none => simp only [finish, hleft, scan, hcell]
        | some D =>
            simp only [finish, hleft, scan, hcell]
            rfl
      · have hleft : len + 1 - i = 0 := by omega
        simp only [if_neg hround, finish, hleft, scan]
  | exchange => rfl

theorem finish_make (rand : Nat) (msg : SBuffer) :
    finish cfg msg (read (Header.make cfg rand msg)) = framed cfg rand msg := by
  obtain ⟨type, code, fixedKey⟩ := cfg
  cases type <;> rfl

theorem encodings_next (msg : SBuffer) {pc : FramePc} (h : ∀ header, pc ≠ store header) :
    (pc.next cfg msg).2.encodings cfg = pc.encodings cfg := by
  cases pc with
  | read header => rfl
  | size header => rfl
  | store header => exact absurd rfl (h header)
  | encode len randkey i state =>
      simp only [next]
      split
      · split <;> rfl
      · rfl
  | exchange => rfl

theorem encodings_store (msg : SBuffer) (header : Header) :
    ((store header).next cfg msg).2.encodings cfg = if cfg.type = .netServer then 1 else 0 := by
  simp only [next]
  split <;> simp [encodings, *]

end FramePc

/-! ## The buffer -/

/-- Nothing has been done to the packet. -/
structure Fresh (msg : SBuffer) (b : Msgbuf) : Prop where
  same : b.msg = msg
  eFlag : b.eFlag = false
  headers : b.headers = []
  encodings : b.encodings = 0

/-- A call is at work. -/
structure Partly (cfg : WireConfig) (msg : SBuffer) (b : Msgbuf) (pc : FramePc) : Prop where
  eFlag : b.eFlag = false
  framing : ∃ rand, b.headers = [rand] ∧ pc.finish cfg b.msg = framed cfg rand msg
  encodings : b.encodings = pc.encodings cfg

/-- The packet has been framed once. -/
structure Done (cfg : WireConfig) (msg : SBuffer) (b : Msgbuf) : Prop where
  eFlag : b.eFlag = true
  framed : ∃ rand, b.headers = [rand] ∧ b.msg = framed cfg rand msg
  encodings : b.encodings = if cfg.type = .netServer then 1 else 0

/-- What the point a call has reached says about the buffer. -/
def SendPc.Ok (cfg : WireConfig) (msg : SBuffer) (b : Msgbuf) (i : Nat) : SendPc → Prop
  | find => b.eKey ≠ some i
  | addRef => b.eKey ≠ some i
  | check => b.eKey ≠ some i
  | acquire => b.eKey ≠ some i
  | recheck => b.eKey = some i ∧ (Fresh msg b ∨ Done cfg msg b)
  | header => b.eKey = some i ∧ Fresh msg b
  | framing pc => b.eKey = some i ∧ Partly cfg msg b pc
  | release => b.eKey = some i ∧ Done cfg msg b
  | addQueue => b.eKey ≠ some i ∧ Done cfg msg b
  | enqueue => b.eKey ≠ some i ∧ Done cfg msg b
  | decQueue => b.eKey ≠ some i ∧ Done cfg msg b
  | decRef => b.eKey ≠ some i ∧ Done cfg msg b
  | leave => b.eKey ≠ some i
  | done => b.eKey ≠ some i

/-- What an entry has read is what the buffer still says. -/
def Entry.Ok (b : Msgbuf) : Entry → Prop
  | queued => True
  | taken => True
  | pointed buf => buf = b.msg.read
  | posted buf len => buf = b.msg.read ∧ len = b.msg.dataSize
  | dropped => True

theorem Entry.Ok.bytes {b : Msgbuf} {entry : Entry} (h : entry.Ok b) (hlive : entry ≠ .dropped) :
    entry.bytes b.msg = b.msg.wire := by
  cases entry with
  | queued => rfl
  | taken => rfl
  | pointed buf =>
      cases h
      rfl
  | posted buf len =>
      obtain ⟨rfl, rfl⟩ := h
      rfl
  | dropped => exact absurd rfl hlive

/-- What holds as long as the buffer has not gone back to the pool. -/
structure Framing (cfg : WireConfig) (msg : SBuffer) (s : Broadcast) : Prop where
  calls : ∀ (i : Nat) (pc : SendPc), s.calls[i]? = some pc → pc.Ok cfg msg s.buf i
  holder : ∀ i, s.buf.eKey = some i → i < s.calls.length
  idle : s.buf.eKey = none → Fresh msg s.buf ∨ Done cfg msg s.buf
  phase : Fresh msg s.buf ∨ (∃ pc, Partly cfg msg s.buf pc) ∨ Done cfg msg s.buf
  entries : ∀ entry ∈ s.entries, entry ≠ .dropped → Done cfg msg s.buf ∧ entry.Ok s.buf

/-! ## References -/

namespace Broadcast

/-- The references that have been taken. -/
def refs (s : Broadcast) : Nat :=
  s.handles + (s.calls.map SendPc.refs).sum + (s.entries.map Entry.refs).sum

/-- The counter is right until the buffer goes back to the pool, and then nobody refers to it. -/
def Counted (s : Broadcast) : Prop :=
  (s.freed = false ∧ s.refcnt = s.refs ∧ 0 < s.refs) ∨ (s.freed = true ∧ s.refs = 0)

theorem Counted.live (h : s.Counted) (hrefs : 0 < s.refs) :
    s.freed = false ∧ s.refcnt = s.refs := by
  rcases h with ⟨hfreed, hcount, _⟩ | ⟨_, hnone⟩
  · exact ⟨hfreed, hcount⟩
  · omega

theorem Counted.keep (h : s.Counted) (hfreed : t.freed = s.freed) (hcount : t.refcnt = s.refcnt)
    (hrefs : t.refs = s.refs) : t.Counted := by
  unfold Counted
  rw [hfreed, hcount, hrefs]
  exact h

theorem Counted.add (h : s.Counted) (hlive : 0 < s.refs) (hfreed : t.freed = s.freed)
    (hcount : t.refcnt = s.refcnt + 1) (hrefs : t.refs = s.refs + 1) : t.Counted := by
  obtain ⟨hnot, hexact⟩ := h.live hlive
  refine Or.inl ⟨hfreed.trans hnot, ?_, by omega⟩
  rw [hcount, hrefs, hexact]
  push_cast
  rfl

theorem Counted.dec (h : s.Counted) (hfreed : t.freed = s.decRefcnt.freed)
    (hcount : t.refcnt = s.refcnt - 1) (hrefs : t.refs + 1 = s.refs) : t.Counted := by
  obtain ⟨hnot, hexact⟩ := h.live (by omega)
  have hzero : t.freed = decide (t.refcnt = 0) := by
    rw [hfreed, decRefcnt, hnot, Bool.false_or, hcount]
  have hnext : t.refcnt = t.refs := by omega
  by_cases hnone : t.refs = 0
  · exact Or.inr ⟨by rw [hzero, hnext, hnone]; rfl, hnone⟩
  · exact Or.inl ⟨by rw [hzero, decide_eq_false]; omega, hnext, by omega⟩

end Broadcast

theorem goto_refs {i : Nat} {pc : SendPc} (next : SendPc) (hpc : s.calls[i]? = some pc) :
    (s.goto i next).refs + pc.refs = s.refs + next.refs := by
  have hset := sum_map_set SendPc.refs next hpc
  unfold Broadcast.refs Broadcast.goto
  dsimp only
  omega

theorem entry_refs {j : Nat} {entry : Entry} (next : Entry)
    (hentry : s.entries[j]? = some entry) :
    { s with entries := s.entries.set j next }.refs + entry.refs = s.refs + next.refs := by
  have hset := sum_map_set Entry.refs next hentry
  unfold Broadcast.refs
  dsimp only
  omega

/-! ## The counter, step by step -/

/-- A call that has not returned holds a reference. -/
theorem refs_pos_of_call {i : Nat} {pc : SendPc} (hpc : s.calls[i]? = some pc)
    (hrefs : 0 < pc.refs) : 0 < s.refs := by
  have hmem : pc.refs ∈ s.calls.map SendPc.refs :=
    List.mem_map_of_mem (List.mem_of_getElem? hpc)
  have hle := List.le_sum_of_mem hmem
  unfold Broadcast.refs
  omega

theorem refs_pos_of_entry {entry : Entry} (hentry : entry ∈ s.entries)
    (hlive : entry ≠ .dropped) : 0 < s.refs := by
  have hle := List.le_sum_of_mem (List.mem_map_of_mem (f := Entry.refs) hentry)
  have hone : entry.refs = 1 := by
    cases entry <;> first | rfl | exact absurd rfl hlive
  unfold Broadcast.refs
  omega

namespace Broadcast

variable {i : Nat} {pc : SendPc}

/-- A call moves on with the references it has. -/
theorem Counted.move (h : s.Counted) (next : SendPc) (hpc : s.calls[i]? = some pc)
    (heq : next.refs = pc.refs) (hsame : t.refs = (s.goto i next).refs)
    (hfreed : t.freed = s.freed) (hcount : t.refcnt = s.refcnt) : t.Counted := by
  have hrefs := goto_refs next hpc
  exact h.keep hfreed hcount (by omega)

/-- A call takes a reference. -/
theorem Counted.take (h : s.Counted) (next : SendPc) (hpc : s.calls[i]? = some pc)
    (heq : next.refs = pc.refs + 1) (hpos : 0 < pc.refs) :
    (s.addRefcnt.goto i next).Counted := by
  have hrefs := goto_refs next hpc
  exact h.add (refs_pos_of_call hpc hpos) rfl rfl
    (show (s.goto i next).refs = s.refs + 1 by omega)

/-- A call gives a reference back. -/
theorem Counted.give (h : s.Counted) (next : SendPc) (hpc : s.calls[i]? = some pc)
    (heq : next.refs + 1 = pc.refs) : (s.decRefcnt.goto i next).Counted := by
  have hrefs := goto_refs next hpc
  exact h.dec rfl rfl (show (s.goto i next).refs + 1 = s.refs by omega)

end Broadcast

theorem sendStep_counted {i : Nat} {answer : SendAnswer} {pc : SendPc}
    (hpc : s.calls[i]? = some pc) (h : s.Counted) (hstep : sendStep cfg s i answer pc = some t) :
    t.Counted := by
  cases pc with
  | find =>
      cases hstep
      exact h.move (if answer.found then .addRef else .leave) hpc (by split <;> rfl) rfl rfl rfl
  | addRef =>
      cases hstep
      exact h.take .check hpc rfl (by decide)
  | check =>
      cases hstep
      exact h.move (if s.buf.eFlag then .addQueue else .acquire) hpc (by split <;> rfl) rfl rfl rfl
  | acquire =>
      simp only [sendStep] at hstep
      split at hstep
      · cases hstep
        exact h.move .recheck hpc rfl rfl rfl rfl
      · cases hstep
  | recheck =>
      cases hstep
      exact h.move (if s.buf.eFlag then .release else .header) hpc (by split <;> rfl) rfl rfl rfl
  | header =>
      cases hstep
      exact h.move (.framing (.read (Header.make cfg answer.rand s.buf.msg))) hpc rfl rfl rfl rfl
  | framing pc =>
      cases pc with
      | exchange =>
          cases hstep
          exact h.move .release hpc rfl rfl rfl rfl
      | store header =>
          cases hstep
          exact h.move (.framing (FramePc.next cfg s.buf.msg (.store header)).2) hpc rfl rfl rfl rfl
      | read header =>
          cases hstep
          exact h.move (.framing (FramePc.next cfg s.buf.msg (.read header)).2) hpc rfl rfl rfl rfl
      | size header =>
          cases hstep
          exact h.move (.framing (FramePc.next cfg s.buf.msg (.size header)).2) hpc rfl rfl rfl rfl
      | encode len randkey k state =>
          cases hstep
          exact h.move (.framing (FramePc.next cfg s.buf.msg (.encode len randkey k state)).2) hpc
            rfl rfl rfl rfl
  | release =>
      cases hstep
      exact h.move .addQueue hpc rfl rfl rfl rfl
  | addQueue =>
      cases hstep
      exact h.take .enqueue hpc rfl (by decide)
  | enqueue =>
      simp only [sendStep] at hstep
      split at hstep
      · cases hstep
        -- The reference taken for the queue goes over to the entry.
        have hrefs := goto_refs .decRef hpc
        refine h.keep rfl rfl ?_
        simp only [Broadcast.refs, Broadcast.goto, SendPc.refs, List.map_append,
          List.sum_append, List.map_cons, List.map_nil, List.sum_cons, List.sum_nil,
          Entry.refs] at hrefs ⊢
        omega
      · cases hstep
        exact h.move .decQueue hpc rfl rfl rfl rfl
  | decQueue =>
      cases hstep
      exact h.give .decRef hpc rfl
  | decRef =>
      cases hstep
      exact h.give .leave hpc rfl
  | leave =>
      cases hstep
      exact h.give .done hpc rfl
  | done => cases hstep

theorem step_counted {label : BroadcastLabel} (h : s.Counted)
    (hstep : s.step cfg label = some t) : t.Counted := by
  cases label with
  | copy =>
      simp only [Broadcast.step, Option.ite_none_right_eq_some, Option.some.injEq] at hstep
      obtain ⟨hhandles, rfl⟩ := hstep
      refine h.add ?_ rfl rfl ?_
      · unfold Broadcast.refs
        omega
      · unfold Broadcast.refs Broadcast.addRefcnt
        dsimp only
        omega
  | destroy =>
      simp only [Broadcast.step, Option.ite_none_right_eq_some, Option.some.injEq] at hstep
      obtain ⟨hhandles, rfl⟩ := hstep
      refine h.dec rfl rfl ?_
      unfold Broadcast.refs Broadcast.decRefcnt
      dsimp only
      omega
  | call =>
      simp only [Broadcast.step, Option.ite_none_right_eq_some, Option.some.injEq] at hstep
      obtain ⟨hhandles, rfl⟩ := hstep
      refine h.add ?_ rfl rfl ?_
      · unfold Broadcast.refs
        omega
      · simp only [Broadcast.refs, Broadcast.addRefcnt, SendPc.refs, List.map_append,
          List.sum_append, List.map_cons, List.map_nil, List.sum_cons, List.sum_nil]
        omega
  | sender i answer =>
      obtain ⟨pc, hpc, hpcstep⟩ := Option.bind_eq_some_iff.mp hstep
      exact sendStep_counted hpc h hpcstep
  | sendPost j =>
      simp only [Broadcast.step, Option.map_eq_some_iff, Option.bind_eq_some_iff] at hstep
      obtain ⟨next, ⟨entry, hentry, hpost⟩, rfl⟩ := hstep
      have hrefs := entry_refs next hentry
      have heq : next.refs = entry.refs := by
        cases entry <;> cases hpost <;> rfl
      exact h.keep rfl rfl (by omega)
  | drop j =>
      simp only [Broadcast.step] at hstep
      split at hstep
      · cases hstep
      · cases hstep
      · rename_i entry hlive hentry
        cases hstep
        have hrefs := entry_refs .dropped hentry
        have hone : entry.refs = 1 := by
          cases entry <;> first | rfl | exact absurd rfl hlive
        change _ = _ + 0 at hrefs
        rw [hone] at hrefs
        exact h.dec rfl rfl hrefs
  | reuse msg eFlag refcnt =>
      simp only [Broadcast.step, Option.ite_none_right_eq_some, Option.some.injEq] at hstep
      obtain ⟨hfreed, rfl⟩ := hstep
      rcases h with ⟨hnot, _⟩ | ⟨_, hnone⟩
      · rw [hnot] at hfreed
        cases hfreed
      · exact Or.inr ⟨hfreed, hnone⟩

/-! ## The buffer, step by step -/

section

variable {b b' : Msgbuf} {i j : Nat} {pc pc' : SendPc}

theorem Done.key (h : Done cfg msg b) (eKey : Option Nat) :
    Done cfg msg { b with eKey := eKey } := ⟨h.eFlag, h.framed, h.encodings⟩

theorem Fresh.key (h : Fresh msg b) (eKey : Option Nat) : Fresh msg { b with eKey := eKey } :=
  ⟨h.same, h.eFlag, h.headers, h.encodings⟩

theorem Fresh.not_done (h : Fresh msg b) : ¬ Done cfg msg b := fun hdone => by
  have hflag := h.eFlag.symm.trans hdone.eFlag
  cases hflag

theorem Partly.not_done {framing : FramePc} (h : Partly cfg msg b framing) : ¬ Done cfg msg b :=
  fun hdone => by
    have hflag := h.eFlag.symm.trans hdone.eFlag
    cases hflag

/-- The calls that do not hold the lock depend on the buffer only where it is done. -/
theorem SendPc.Ok.other (h : pc.Ok cfg msg b j) (hkey : b.eKey ≠ some j)
    (hkey' : b'.eKey ≠ some j) (hdone : Done cfg msg b → Done cfg msg b') :
    pc.Ok cfg msg b' j := by
  cases pc with
  | find => exact hkey'
  | addRef => exact hkey'
  | check => exact hkey'
  | acquire => exact hkey'
  | recheck => exact absurd h.1 hkey
  | header => exact absurd h.1 hkey
  | framing pc => exact absurd h.1 hkey
  | release => exact absurd h.1 hkey
  | addQueue => exact ⟨hkey', hdone h.2⟩
  | enqueue => exact ⟨hkey', hdone h.2⟩
  | decQueue => exact ⟨hkey', hdone h.2⟩
  | decRef => exact ⟨hkey', hdone h.2⟩
  | leave => exact hkey'
  | done => exact hkey'

theorem Entry.Ok.congr {entry : Entry} (h : entry.Ok b) (hmsg : b'.msg = b.msg) :
    entry.Ok b' := by
  cases entry with
  | queued => trivial
  | taken => trivial
  | pointed buf => exact h.trans (congrArg SBuffer.read hmsg.symm)
  | posted buf len =>
      exact ⟨h.1.trans (congrArg SBuffer.read hmsg.symm),
        h.2.trans (congrArg SBuffer.dataSize hmsg.symm)⟩
  | dropped => trivial

/-- A call moves on and leaves the buffer alone. -/
theorem Framing.move (h : Framing cfg msg s) (hbuf : t.buf = s.buf)
    (hcalls : t.calls = s.calls.set i pc') (hentries : t.entries = s.entries)
    (hnext : pc'.Ok cfg msg s.buf i) : Framing cfg msg t := by
  refine ⟨fun j pc hpc => ?_, ?_, ?_, ?_, ?_⟩
  · rw [hcalls] at hpc
    rw [hbuf]
    rcases getElem?_set_cases hpc with ⟨rfl, rfl⟩ | ⟨_, hother⟩
    · exact hnext
    · exact h.calls j pc hother
  · rw [hbuf, hcalls, List.length_set]
    exact h.holder
  · rw [hbuf]
    exact h.idle
  · rw [hbuf]
    exact h.phase
  · rw [hbuf, hentries]
    exact h.entries

/-- The call that has the lock, or takes it, changes the buffer. -/
theorem Framing.write (h : Framing cfg msg s) (hpc : s.calls[i]? = some pc)
    (hcalls : t.calls = s.calls.set i pc') (hentries : t.entries = s.entries)
    (hkey : ∀ j, j ≠ i → s.buf.eKey ≠ some j ∧ t.buf.eKey ≠ some j)
    (hdone : Done cfg msg s.buf → Done cfg msg t.buf ∧ t.buf.msg = s.buf.msg)
    (hnext : pc'.Ok cfg msg t.buf i)
    (hidle : t.buf.eKey = none → Fresh msg t.buf ∨ Done cfg msg t.buf)
    (hphase : Fresh msg t.buf ∨ (∃ pc, Partly cfg msg t.buf pc) ∨ Done cfg msg t.buf) :
    Framing cfg msg t := by
  refine ⟨fun j pc hpc => ?_, fun j hj => ?_, hidle, hphase, fun entry hentry hlive => ?_⟩
  · rw [hcalls] at hpc
    rcases getElem?_set_cases hpc with ⟨rfl, rfl⟩ | ⟨hne, hother⟩
    · exact hnext
    · obtain ⟨hbefore, hafter⟩ := hkey j hne
      exact (h.calls j pc hother).other hbefore hafter fun hd => (hdone hd).1
  · have hij : j = i := not_not.mp fun hne => (hkey j hne).2 hj
    rw [hcalls, List.length_set, hij]
    exact (List.getElem?_eq_some_iff.mp hpc).1
  · rw [hentries] at hentry
    obtain ⟨hd, hok⟩ := h.entries entry hentry hlive
    exact ⟨(hdone hd).1, hok.congr (hdone hd).2⟩

/-- A framing goes on. -/
theorem Partly.next {framing : FramePc} (h : Partly cfg msg b framing) (encodings : Nat)
    (hencodings : encodings = (framing.next cfg b.msg).2.encodings cfg) :
    Partly cfg msg { b with msg := (framing.next cfg b.msg).1, encodings := encodings }
      (framing.next cfg b.msg).2 := by
  obtain ⟨rand, hheaders, hfinish⟩ := h.framing
  exact ⟨h.eFlag, ⟨rand, hheaders, (FramePc.finish_next b.msg framing).trans hfinish⟩, hencodings⟩

theorem Framing.next (h : Framing cfg msg s) {framing : FramePc}
    (hpc : s.calls[i]? = some (.framing framing)) (encodings : Nat)
    (hencodings : encodings = (framing.next cfg s.buf.msg).2.encodings cfg) :
    Framing cfg msg ({ s with buf := { s.buf with
      msg := (framing.next cfg s.buf.msg).1, encodings := encodings } }.goto i
        (.framing (framing.next cfg s.buf.msg).2)) := by
  obtain ⟨hkey, hpartly⟩ := h.calls i _ hpc
  have hnext := hpartly.next encodings hencodings
  refine h.write hpc rfl rfl (fun j hne => ?_) (fun hdone => absurd hdone hpartly.not_done)
    ⟨hkey, hnext⟩ (fun hnone => ?_) (Or.inr (Or.inl ⟨_, hnext⟩))
  · have hother : s.buf.eKey ≠ some j := by
      rw [hkey]
      exact fun heq => hne (Option.some.inj heq).symm
    exact ⟨hother, hother⟩
  · exact absurd (hkey.symm.trans hnone) (Option.some_ne_none i)

/-- **One step of a call** keeps the framing. -/
theorem sendStep_framing {answer : SendAnswer} (hpc : s.calls[i]? = some pc)
    (h : Framing cfg msg s) (hstep : sendStep cfg s i answer pc = some t) :
    Framing cfg msg t := by
  have hok := h.calls i pc hpc
  have hothers : s.buf.eKey = some i → ∀ j, j ≠ i → s.buf.eKey ≠ some j :=
    fun hkey j hne heq => hne (Option.some.inj (heq.symm.trans hkey))
  cases pc with
  | find =>
      cases hstep
      refine h.move rfl rfl rfl ?_
      split <;> exact hok
  | addRef =>
      cases hstep
      exact h.move rfl rfl rfl hok
  | check =>
      cases hstep
      refine h.move rfl rfl rfl ?_
      split
      · rename_i hflag
        rcases h.phase with hfresh | ⟨framing, hpartly⟩ | hdone
        · exact absurd (hfresh.eFlag.symm.trans hflag) Bool.false_ne_true
        · exact absurd (hpartly.eFlag.symm.trans hflag) Bool.false_ne_true
        · exact ⟨hok, hdone⟩
      · exact hok
  | acquire =>
      simp only [sendStep, Option.ite_none_right_eq_some, Option.some.injEq] at hstep
      obtain ⟨hfree, rfl⟩ := hstep
      have hsettled : Fresh msg { s.buf with eKey := some i } ∨
          Done cfg msg { s.buf with eKey := some i } :=
        (h.idle hfree).imp (fun hfresh => hfresh.key _) fun hdone => hdone.key _
      refine h.write hpc rfl rfl (fun j hne => ⟨?_, ?_⟩) (fun hdone => ⟨hdone.key _, rfl⟩)
        ⟨rfl, hsettled⟩ (fun hnone => absurd hnone (Option.some_ne_none i)) ?_
      · rw [hfree]
        exact (Option.some_ne_none j).symm
      · exact fun heq => hne (Option.some.inj heq).symm
      · exact hsettled.imp_right Or.inr
  | recheck =>
      cases hstep
      obtain ⟨hkey, hsettled⟩ := hok
      refine h.move rfl rfl rfl ?_
      split
      · rename_i hflag
        refine ⟨hkey, hsettled.resolve_left fun hfresh => ?_⟩
        exact absurd (hfresh.eFlag.symm.trans hflag) Bool.false_ne_true
      · rename_i hflag
        exact ⟨hkey, hsettled.resolve_right fun hdone => hflag hdone.eFlag⟩
  | header =>
      cases hstep
      obtain ⟨hkey, hfresh⟩ := hok
      have hnext : Partly cfg msg { s.buf with headers := s.buf.headers ++ [answer.rand] }
          (.read (Header.make cfg answer.rand s.buf.msg)) := by
        refine ⟨hfresh.eFlag, ⟨answer.rand, ?_, ?_⟩, hfresh.encodings⟩
        · rw [hfresh.headers]
          rfl
        · rw [FramePc.finish_make, hfresh.same]
      exact h.write hpc rfl rfl (fun j hne => ⟨hothers hkey j hne, hothers hkey j hne⟩)
        (fun hdone => absurd hdone hfresh.not_done) ⟨hkey, hnext⟩
        (fun hnone => absurd (hkey.symm.trans hnone) (Option.some_ne_none i))
        (Or.inr (Or.inl ⟨_, hnext⟩))
  | framing framing =>
      obtain ⟨hkey, hpartly⟩ := hok
      have hcount := hpartly.encodings
      cases framing with
      | exchange =>
          cases hstep
          obtain ⟨rand, hheaders, hfinish⟩ := hpartly.framing
          have hdone : Done cfg msg { s.buf with eFlag := true } :=
            ⟨rfl, ⟨rand, hheaders, hfinish⟩, hcount⟩
          exact h.write hpc rfl rfl (fun j hne => ⟨hothers hkey j hne, hothers hkey j hne⟩)
            (fun hbefore => absurd hbefore hpartly.not_done) ⟨hkey, hdone⟩
            (fun hnone => absurd (hkey.symm.trans hnone) (Option.some_ne_none i))
            (Or.inr (Or.inr hdone))
      | store header =>
          cases hstep
          refine h.next hpc _ ?_
          rw [FramePc.encodings_store]
          change s.buf.encodings = 0 at hcount
          split <;> omega
      | read header =>
          cases hstep
          exact h.next hpc s.buf.encodings hcount
      | size header =>
          cases hstep
          exact h.next hpc s.buf.encodings hcount
      | encode len randkey k state =>
          cases hstep
          refine h.next hpc s.buf.encodings (hcount.trans ?_)
          exact (FramePc.encodings_next _ fun _ => FramePc.noConfusion).symm
  | release =>
      cases hstep
      obtain ⟨hkey, hdone⟩ := hok
      refine h.write hpc rfl rfl (fun j hne => ⟨hothers hkey j hne, ?_⟩)
        (fun _ => ⟨hdone.key _, rfl⟩) ⟨?_, hdone.key _⟩ (fun _ => Or.inr (hdone.key _))
        (Or.inr (Or.inr (hdone.key _)))
      · exact (Option.some_ne_none j).symm
      · exact (Option.some_ne_none i).symm
  | addQueue =>
      cases hstep
      exact h.move rfl rfl rfl hok
  | enqueue =>
      simp only [sendStep] at hstep
      split at hstep
      · cases hstep
        have hmoved : Framing cfg msg (s.goto i .decRef) := h.move rfl rfl rfl hok
        refine ⟨hmoved.calls, hmoved.holder, hmoved.idle, hmoved.phase,
          fun entry hentry hlive => ?_⟩
        rcases List.mem_append.mp hentry with hold | hnew
        · exact h.entries entry hold hlive
        · rw [List.mem_singleton.mp hnew]
          exact ⟨hok.2, trivial⟩
      · cases hstep
        exact h.move rfl rfl rfl hok
  | decQueue =>
      cases hstep
      exact h.move rfl rfl rfl hok
  | decRef =>
      cases hstep
      exact h.move rfl rfl rfl hok.1
  | leave =>
      cases hstep
      exact h.move rfl rfl rfl hok
  | done => cases hstep

/-- An entry is replaced by one that is right. -/
theorem Framing.entry (h : Framing cfg msg s) {entry entry' : Entry} (hbuf : t.buf = s.buf)
    (hcalls : t.calls = s.calls) (hentries : t.entries = s.entries.set j entry')
    (hentry : entry ∈ s.entries) (hlive : entry' ≠ .dropped → entry ≠ .dropped)
    (hok : entry.Ok s.buf → entry'.Ok s.buf) : Framing cfg msg t := by
  refine ⟨?_, ?_, ?_, ?_, fun x hx hxlive => ?_⟩
  · rw [hbuf, hcalls]
    exact h.calls
  · rw [hbuf, hcalls]
    exact h.holder
  · rw [hbuf]
    exact h.idle
  · rw [hbuf]
    exact h.phase
  · rw [hbuf]
    rw [hentries] at hx
    rcases List.mem_or_eq_of_mem_set hx with hold | rfl
    · exact h.entries x hold hxlive
    · obtain ⟨hdone, hentryOk⟩ := h.entries entry hentry (hlive hxlive)
      exact ⟨hdone, hok hentryOk⟩

end

theorem step_framing {label : BroadcastLabel} (h : Framing cfg msg s)
    (hlive : s.freed = false) (hstep : s.step cfg label = some t) :
    Framing cfg msg t := by
  cases label with
  | copy =>
      simp only [Broadcast.step, Option.ite_none_right_eq_some, Option.some.injEq] at hstep
      obtain ⟨_, rfl⟩ := hstep
      exact ⟨h.calls, h.holder, h.idle, h.phase, h.entries⟩
  | destroy =>
      simp only [Broadcast.step, Option.ite_none_right_eq_some, Option.some.injEq] at hstep
      obtain ⟨_, rfl⟩ := hstep
      exact ⟨h.calls, h.holder, h.idle, h.phase, h.entries⟩
  | call =>
      simp only [Broadcast.step, Option.ite_none_right_eq_some, Option.some.injEq] at hstep
      obtain ⟨_, rfl⟩ := hstep
      refine ⟨fun i pc hpc => ?_, fun i hi => ?_, h.idle, h.phase, h.entries⟩
      · change (s.calls ++ [SendPc.find])[i]? = some pc at hpc
        by_cases hlt : i < s.calls.length
        · rw [List.getElem?_append_left hlt] at hpc
          exact h.calls i pc hpc
        · rw [List.getElem?_append_right (Nat.not_lt.mp hlt)] at hpc
          rw [List.mem_singleton.mp (List.mem_of_getElem? hpc)]
          exact fun hkey => hlt (h.holder i hkey)
      · show i < (s.calls ++ [SendPc.find]).length
        rw [List.length_append]
        exact Nat.lt_add_right _ (h.holder i hi)
  | sender i answer =>
      obtain ⟨pc, hpc, hpcstep⟩ := Option.bind_eq_some_iff.mp hstep
      exact sendStep_framing hpc h hpcstep
  | sendPost j =>
      simp only [Broadcast.step, Option.map_eq_some_iff, Option.bind_eq_some_iff] at hstep
      obtain ⟨next, ⟨entry, hentry, hpost⟩, rfl⟩ := hstep
      refine h.entry rfl rfl rfl (List.mem_of_getElem? hentry) ?_ ?_
      · rintro _ rfl
        cases hpost
      · intro hok
        cases entry with
        | queued =>
            cases hpost
            trivial
        | taken =>
            cases hpost
            rfl
        | pointed buf =>
            cases hpost
            exact ⟨hok, rfl⟩
        | posted buf len => cases hpost
        | dropped => cases hpost
  | drop j =>
      simp only [Broadcast.step] at hstep
      split at hstep
      · cases hstep
      · cases hstep
      · rename_i entry hnot hentry
        cases hstep
        exact h.entry rfl rfl rfl (List.mem_of_getElem? hentry) (fun hne => absurd rfl hne)
          fun _ => trivial
  | reuse msg eFlag refcnt =>
      simp only [Broadcast.step, Option.ite_none_right_eq_some, Option.some.injEq] at hstep
      obtain ⟨hfreed, rfl⟩ := hstep
      rw [hlive] at hfreed
      cases hfreed

/-! ## Whole runs -/

theorem sendStep_headers {i : Nat} {answer : SendAnswer} {pc : SendPc}
    (hstep : sendStep cfg s i answer pc = some t) : s.buf.headers <+: t.buf.headers := by
  cases pc with
  | header =>
      cases hstep
      exact List.prefix_append _ _
  | acquire =>
      simp only [sendStep, Option.ite_none_right_eq_some, Option.some.injEq] at hstep
      obtain ⟨_, rfl⟩ := hstep
      exact List.prefix_rfl
  | enqueue =>
      simp only [sendStep] at hstep
      split at hstep <;> cases hstep <;> exact List.prefix_rfl
  | framing framing =>
      cases framing <;> cases hstep <;> exact List.prefix_rfl
  | done => cases hstep
  | _ =>
      cases hstep
      exact List.prefix_rfl

/-- The record of the headers only grows. -/
theorem step_headers {label : BroadcastLabel} (hstep : s.step cfg label = some t) :
    s.buf.headers <+: t.buf.headers := by
  cases label with
  | sender i answer =>
      obtain ⟨pc, _, hpcstep⟩ := Option.bind_eq_some_iff.mp hstep
      exact sendStep_headers hpcstep
  | sendPost j =>
      simp only [Broadcast.step, Option.map_eq_some_iff] at hstep
      obtain ⟨_, _, rfl⟩ := hstep
      exact List.prefix_rfl
  | drop j =>
      simp only [Broadcast.step] at hstep
      split at hstep <;> cases hstep
      exact List.prefix_rfl
  | _ =>
      simp only [Broadcast.step, Option.ite_none_right_eq_some, Option.some.injEq] at hstep
      obtain ⟨_, rfl⟩ := hstep
      exact List.prefix_rfl

/-- Once the buffer is in the pool, the only step left is that the pool hands it out. -/
theorem step_of_freed {label : BroadcastLabel} (h : s.Counted) (hfreed : s.freed = true)
    (hstep : s.step cfg label = some t) :
    t.freed = true ∧ t.buf.headers = s.buf.headers ∧ t.buf.encodings = s.buf.encodings := by
  have hnone : ¬ 0 < s.refs := fun hpos => by
    rw [(h.live hpos).1] at hfreed
    cases hfreed
  have hhandles : ¬ 0 < s.handles := fun hpos => hnone (by unfold Broadcast.refs; omega)
  cases label with
  | copy => exact absurd (Option.ite_none_right_eq_some.mp hstep).1 hhandles
  | destroy => exact absurd (Option.ite_none_right_eq_some.mp hstep).1 hhandles
  | call => exact absurd (Option.ite_none_right_eq_some.mp hstep).1 hhandles
  | sender i answer =>
      obtain ⟨pc, hpc, hpcstep⟩ := Option.bind_eq_some_iff.mp hstep
      refine absurd (refs_pos_of_call hpc ?_) hnone
      cases pc <;> first | exact Nat.succ_pos _ | cases hpcstep
  | sendPost j =>
      simp only [Broadcast.step, Option.map_eq_some_iff, Option.bind_eq_some_iff] at hstep
      obtain ⟨_, ⟨entry, hentry, hpost⟩, _⟩ := hstep
      refine absurd (refs_pos_of_entry (List.mem_of_getElem? hentry) ?_) hnone
      rintro rfl
      cases hpost
  | drop j =>
      simp only [Broadcast.step] at hstep
      split at hstep
      · cases hstep
      · cases hstep
      · rename_i entry hlive hentry
        exact absurd (refs_pos_of_entry (List.mem_of_getElem? hentry) hlive) hnone
  | reuse msg eFlag refcnt =>
      simp only [Broadcast.step, Option.ite_none_right_eq_some, Option.some.injEq] at hstep
      obtain ⟨_, rfl⟩ := hstep
      exact ⟨hfreed, rfl, rfl⟩

/-- **A packet is framed at most once, and every entry stands for the frame made with the
header of `rand`.** -/
structure FramedOnce (cfg : WireConfig) (msg : SBuffer) (rand : Nat) (s : Broadcast) : Prop where
  headers_le : s.buf.headers.length ≤ 1
  encodings_le : s.buf.encodings ≤ if cfg.type = .netServer then 1 else 0
  entries : ∀ entry ∈ s.entries, entry ≠ .dropped →
    s.buf.headers = [rand] ∧ (s.buf.encodings = if cfg.type = .netServer then 1 else 0) ∧
      entry.bytes s.buf.msg = (framed cfg rand msg).wire

/-- At most one header, and for NETSERVER at most one encoding. -/
structure Once (cfg : WireConfig) (s : Broadcast) : Prop where
  headers_le : s.buf.headers.length ≤ 1
  encodings_le : s.buf.encodings ≤ if cfg.type = .netServer then 1 else 0

theorem Framing.once (h : Framing cfg msg s) : Once cfg s := by
  rcases h.phase with hfresh | ⟨framing, hpartly⟩ | hdone
  · exact ⟨by rw [hfresh.headers]; decide, by rw [hfresh.encodings]; exact Nat.zero_le _⟩
  · obtain ⟨rand, hheaders, _⟩ := hpartly.framing
    refine ⟨by rw [hheaders]; exact le_rfl, ?_⟩
    rw [hpartly.encodings]
    cases framing <;> first | exact Nat.zero_le _ | exact le_rfl
  · obtain ⟨rand, hheaders, _⟩ := hdone.framed
    exact ⟨by rw [hheaders]; exact le_rfl, hdone.encodings.le⟩

/-- The invariant of a broadcast. -/
structure Inv (cfg : WireConfig) (msg : SBuffer) (s : Broadcast) : Prop where
  counted : s.Counted
  framing : s.freed = false → Framing cfg msg s
  once : Once cfg s

theorem Inv.start (cfg : WireConfig) (msg : SBuffer) : Inv cfg msg (Broadcast.start msg) where
  counted := Or.inl ⟨rfl, rfl, Nat.one_pos⟩
  framing _ := by
    have hfresh : Fresh msg (Broadcast.start msg).buf := ⟨rfl, rfl, rfl, rfl⟩
    exact ⟨fun _ _ hpc => absurd hpc (by simp [Broadcast.start]),
      fun _ hkey => absurd hkey (by simp [Broadcast.start]), fun _ => Or.inl hfresh, Or.inl hfresh,
      fun _ hentry => absurd hentry (by simp [Broadcast.start])⟩
  once := ⟨Nat.zero_le _, Nat.zero_le _⟩

theorem Inv.step {label : BroadcastLabel} (h : Inv cfg msg s)
    (hstep : s.step cfg label = some t) : Inv cfg msg t := by
  have hcounted := step_counted h.counted hstep
  cases hfreed : s.freed with
  | false =>
      have hframing := step_framing (h.framing hfreed) hfreed hstep
      exact ⟨hcounted, fun _ => hframing, hframing.once⟩
  | true =>
      obtain ⟨hstill, hheaders, hencodings⟩ := step_of_freed h.counted hfreed hstep
      refine ⟨hcounted, fun hlive => ?_, ?_, ?_⟩
      · rw [hstill] at hlive
        cases hlive
      · rw [hheaders]
        exact h.once.headers_le
      · rw [hencodings]
        exact h.once.encodings_le

theorem Inv.framedOnce (h : Inv cfg msg s) {rand : Nat}
    (hrand : ∀ r, s.buf.headers = [r] → r = rand) : FramedOnce cfg msg rand s := by
  refine ⟨h.once.headers_le, h.once.encodings_le, fun entry hentry hlive => ?_⟩
  have hfreed := (h.counted.live (refs_pos_of_entry hentry hlive)).1
  obtain ⟨hdone, hok⟩ := (h.framing hfreed).entries entry hentry hlive
  obtain ⟨r, hheaders, hframed⟩ := hdone.framed
  have hr := hrand r hheaders
  subst hr
  exact ⟨hheaders, hdone.encodings, by rw [hok.bytes hlive, hframed]⟩

/-- **A broadcast is framed once**: in any two states of a run the header has been written
and the payload encoded at most once, and all entries of both stand for the same bytes. -/
theorem broadcast_framed_once {labels more : List BroadcastLabel}
    (hs : exec (Broadcast.step cfg) (Broadcast.start msg) labels = some s)
    (ht : exec (Broadcast.step cfg) s more = some t) :
    ∃ rand, FramedOnce cfg msg rand s ∧ FramedOnce cfg msg rand t := by
  have hkeep : ∀ s label t, Inv cfg msg s → Broadcast.step cfg s label = some t → Inv cfg msg t :=
    fun _ _ _ h hstep => h.step hstep
  have hsInv := exec_invariant hkeep (Inv.start cfg msg) hs
  have htInv := exec_invariant hkeep hsInv ht
  have hgrow : s.buf.headers <+: t.buf.headers := by
    refine exec_invariant (I := fun u => s.buf.headers <+: u.buf.headers) ?_ List.prefix_rfl ht
    exact fun _ _ _ h hstep => h.trans (step_headers hstep)
  refine ⟨t.buf.headers.headD 0, hsInv.framedOnce fun r hr => ?_, htInv.framedOnce fun r hr => ?_⟩
  · rw [hr] at hgrow
    obtain ⟨rest, hrest⟩ := hgrow
    rw [← hrest]
    rfl
  · rw [hr]
    rfl

/-- Two sessions get a packet of one byte.  The second call finds the flag down as well and
waits for the lock; the first entry is posted before the second is made. -/
def twoRecipients : List BroadcastLabel :=
  let go i := BroadcastLabel.sender i ⟨true, 7, true⟩
  [.call, .call] ++ List.replicate 4 (go 0) ++ List.replicate 3 (go 1) ++
    List.replicate 12 (go 0) ++ List.replicate 3 (.sendPost 0) ++ List.replicate 5 (go 1)

def oneByte : SBuffer where
  buffer := Vector.replicate BUFFER_DEFAULT 1
  read := 5
  dataSize := 1

theorem twoRecipients_framed :
    ∃ s rand, exec (Broadcast.step ⟨.netServer, 0x77, 0x32⟩) (Broadcast.start oneByte)
        twoRecipients = some s ∧ s.entries.length = 2 ∧
      FramedOnce ⟨.netServer, 0x77, 0x32⟩ oneByte rand s := by
  have hrun : (exec (Broadcast.step ⟨.netServer, 0x77, 0x32⟩) (Broadcast.start oneByte)
      twoRecipients).any (fun s => s.entries.length == 2) = true := by decide +kernel
  obtain ⟨s, hs, hentries⟩ := (Option.any_eq_true _ _).mp hrun
  obtain ⟨rand, hframed, _⟩ := broadcast_framed_once hs (exec_nil s)
  exact ⟨s, rand, hs, eq_of_beq hentries, hframed⟩

end SessionServer.ContentLib
