/-
  Common/LockFreeStackRun.lean --- the lock-free stack under the steps of many threads.

  A `Pop` that has passed the size test has a node of the stack reserved, so the top is not
  null when it reads it.  A word that a call has read is still on the stack or does not come
  back as long as the call has it; so what `Pop` has read of its node is still so when its
  compare-exchange succeeds.
-/
import SessionServer.Common.LockFreeStack

set_option autoImplicit false

namespace SessionServer.Common

open SessionServer.Foundation

open LockFree

namespace LFStack

variable {α : Type}

/-! ## What the calls know -/

/-- The values on the stack, the top first. -/
def values (s : LFStack α) (words : List Tagged) : List α := words.map fun w => s.data w.node

/-- The stack is the words, linked from the top. -/
structure Stacked (s : LFStack α) (words : List Tagged) : Prop where
  chain : Chain (fun w => s.next w.node) s.top words
  nodup : (words.map Tagged.node).Nodup
  home : ∀ w ∈ words, s.home w.node = .container 0
  history : Lifo s.history (s.values words)

/-- The word of a `Push` that is not on the stack yet. -/
structure Holds (s : LFStack α) (t : Nat) (w : Tagged) (a : α) : Prop where
  home : s.home w.node = .thread t
  data : s.data w.node = a

/-- What a call of the thread knows.  What `Pop` has read is right as long as the word is
on the stack. -/
def Knows (s : LFStack α) (words : List Tagged) (t : Nat) : Pc α → Prop
  | .pushData newnode _ => s.home newnode = .thread t
  | .pushKey newnode a => s.home newnode = .thread t ∧ s.data newnode = a
  | .pushRead w a | .pushNext w a _ => s.Holds t w a
  | .pushCas w a oldtop => s.Holds t w a ∧ s.next w.node = oldtop
  | .popNext oldtop => ∃ w, oldtop = some w
  | .popData w newtop => w ∈ words → s.next w.node = newtop
  | .popCas w newtop a => w ∈ words → s.next w.node = newtop ∧ s.data w.node = a
  | .popFree realadr _ => s.home realadr = .thread t
  | _ => True

/-- **What a step of thread `t` leaves to the others**: their nodes, and what is in the node of
a word that a call has, if the word is still on the stack. -/
structure Frame (t : Nat) (threads : List (Pc α)) (s s' : LFStack α) (words words' : List Tagged) :
    Prop where
  theirs : ∀ u node, u ≠ t → s.home node = .thread u →
    s'.home node = .thread u ∧ s'.data node = s.data node ∧ s'.next node = s.next node
  stays : ∀ pc ∈ threads, ∀ w ∈ held pc, w ∈ words' →
    w ∈ words ∧ s'.next w.node = s.next w.node ∧ s'.data w.node = s.data w.node

section

variable {s s' : LFStack α} {words words' : List Tagged} {t u : Nat} {w : Tagged} {a : α}
  {pc : Pc α} {threads : List (Pc α)}

theorem Holds.frame (h : s.Holds u w a) (hframe : Frame t threads s s' words words')
    (hne : u ≠ t) : s'.Holds u w a ∧ s'.next w.node = s.next w.node := by
  obtain ⟨hhome, hdata, hnext⟩ := hframe.theirs u w.node hne h.home
  exact ⟨⟨hhome, hdata.trans h.data⟩, hnext⟩

/-- **What the others know stays so.** -/
theorem Knows.frame (h : s.Knows words u pc) (hframe : Frame t threads s s' words words')
    (hpc : pc ∈ threads) (hne : u ≠ t) : s'.Knows words' u pc := by
  cases pc with
  | pushData newnode a => exact (hframe.theirs u newnode hne h).1
  | pushKey newnode a =>
      obtain ⟨hhome, hdata, -⟩ := hframe.theirs u newnode hne h.1
      exact ⟨hhome, hdata.trans h.2⟩
  | pushRead w a => exact (Holds.frame h hframe hne).1
  | pushNext w a oldtop => exact (Holds.frame h hframe hne).1
  | pushCas w a oldtop =>
      obtain ⟨hholds, hnext⟩ := h.1.frame hframe hne
      exact ⟨hholds, hnext.trans h.2⟩
  | popNext oldtop => exact h
  | popData w newtop =>
      intro hw
      obtain ⟨hold, hnext, -⟩ := hframe.stays _ hpc w List.mem_cons_self hw
      exact hnext.trans (h hold)
  | popCas w newtop a =>
      intro hw
      obtain ⟨hold, hnext, hdata⟩ := hframe.stays _ hpc w List.mem_cons_self hw
      exact ⟨hnext.trans (h hold).1, hdata.trans (h hold).2⟩
  | popFree realadr a => exact (hframe.theirs u realadr hne h).1
  | idle => trivial
  | pushSize w => trivial
  | popSize => trivial
  | popRestore => trivial
  | popRead => trivial

/-- The node of a word of the stack is not a thread's, nor the pool's. -/
theorem Stacked.home_ne (h : s.Stacked words) (hw : w ∈ words) :
    s.home w.node ≠ .thread t ∧ s.home w.node ≠ .free := by
  simp [h.home w hw]

theorem Stacked.ne_of_thread (h : s.Stacked words) {node : Nat} (hmine : s.home node = .thread t)
    (hw : w ∈ words) : w.node ≠ node := by
  rintro rfl
  exact (h.home_ne hw).1 hmine

/-- A step that leaves the top and the nodes of the stack alone. -/
theorem Stacked.congr (h : s.Stacked words) (htop : s'.top = s.top)
    (hhistory : s'.history = s.history)
    (hnodes : ∀ w ∈ words, s'.next w.node = s.next w.node ∧ s'.data w.node = s.data w.node ∧
      s'.home w.node = s.home w.node) : s'.Stacked words where
  chain := by
    rw [htop]
    exact h.chain.congr fun w hw => (hnodes w hw).1
  nodup := h.nodup
  home := fun w hw => (hnodes w hw).2.2.trans (h.home w hw)
  history := by
    have hvalues : s'.values words = s.values words :=
      List.map_congr_left fun w hw => (hnodes w hw).2.1
    rw [hhistory, hvalues]
    exact h.history

/-- **A node is pushed.** -/
theorem Stacked.push (h : s.Stacked words) (hholds : s.Holds t w a)
    (hlink : s.next w.node = s.top) {tags : UInt16 → TagUse} :
    Stacked { s with
      top := some w
      home := Function.update s.home w.node (.container 0)
      tags := tags
      history := s.history ++ [.push a] } (w :: words) where
  chain := by
    refine ⟨rfl, ?_⟩
    simp only [hlink]
    exact h.chain
  nodup := by
    rw [List.map_cons, List.nodup_cons]
    refine ⟨fun hmem => ?_, h.nodup⟩
    obtain ⟨w', hw', heq⟩ := List.mem_map.mp hmem
    exact h.ne_of_thread hholds.home hw' heq
  home := by
    intro w' hw'
    rcases List.mem_cons.mp hw' with rfl | hold
    · exact Function.update_self ..
    · simp only [Function.update_of_ne (h.ne_of_thread hholds.home hold)]
      exact h.home w' hold
  history := by
    have hlifo := h.history.push a
    rw [← hholds.data] at hlifo ⊢
    exact hlifo

/-- No call has the word that is pushed. -/
theorem Holds.frame_push (hholds : s.Holds t w a) (hunheld : ∀ pc ∈ threads, w ∉ held pc)
    {tags : UInt16 → TagUse} {history : List (Event α)} :
    Frame t threads s { s with
      top := some w
      home := Function.update s.home w.node (.container 0)
      tags := tags
      history := history } words (w :: words) where
  theirs := by
    intro u node hne hnode
    have hother : node ≠ w.node := by
      rintro rfl
      rw [hholds.home] at hnode
      exact hne (Home.thread.inj hnode).symm
    exact ⟨(Function.update_of_ne hother ..).trans hnode, rfl, rfl⟩
  stays := by
    intro pc hpc w' hheld hw'
    rcases List.mem_cons.mp hw' with rfl | hold
    · exact absurd hheld (hunheld pc hpc)
    · exact ⟨hold, rfl, rfl⟩

/-- **The top is popped.** -/
theorem Stacked.pop {rest : List Tagged} (h : s.Stacked (w :: rest)) :
    Stacked { s with
      top := s.next w.node
      home := Function.update s.home w.node (.thread t)
      history := s.history ++ [.pop (s.data w.node)] } rest where
  chain := h.chain.2
  nodup := (List.nodup_cons.mp h.nodup).2
  home := by
    intro w' hw'
    have hne : w'.node ≠ w.node := fun heq =>
      (List.nodup_cons.mp h.nodup).1 (heq ▸ List.mem_map_of_mem hw')
    simp only [Function.update_of_ne hne]
    exact h.home w' (List.mem_cons_of_mem w hw')
  history := Lifo.pop h.history

theorem Stacked.frame_pop {rest : List Tagged} (h : s.Stacked (w :: rest)) {top : Word}
    {history : List (Event α)} :
    Frame t threads s { s with
      top := top
      home := Function.update s.home w.node (.thread t)
      history := history } (w :: rest) rest where
  theirs := by
    intro u node hne hnode
    have hother : node ≠ w.node := fun heq =>
      h.ne_of_thread hnode List.mem_cons_self heq.symm
    exact ⟨(Function.update_of_ne hother ..).trans hnode, rfl, rfl⟩
  stays := fun _ _ w' _ hw' => ⟨List.mem_cons_of_mem w hw', rfl, rfl⟩

end

/-! ## What a step does -/

/-- The word of a `Push` that is not counted yet; it is on the stack or has been popped. -/
def uncounted : Pc α → List Tagged
  | .pushSize w => [w]
  | _ => []

/-- The call is about to give back what it has taken of the counter in vain. -/
def failing : Pc α → Nat
  | .popRestore => 1
  | _ => 0

/-- The call has a node reserved. -/
def claim : Pc α → Nat
  | .popRead | .popNext _ | .popData _ _ | .popCas _ _ _ => 1
  | _ => 0

/-- What the counter is short of the number of nodes on the stack because of the call. -/
def debt (pc : Pc α) : Nat := (uncounted pc).length + failing pc + claim pc

/-- The value of a `Push` that is not on the stack yet. -/
def inProgress : Pc α → List α
  | .pushData _ a | .pushKey _ a | .pushRead _ a | .pushNext _ a _ | .pushCas _ a _ => [a]
  | _ => []

theorem claim_le_debt (pc : Pc α) : claim pc ≤ debt pc := Nat.le_add_left ..

theorem held_of_uncounted {pc : Pc α} {w : Tagged} (h : w ∈ uncounted pc) : w ∈ held pc := by
  cases pc with
  | pushSize _ => exact h
  | _ => exact absurd h List.not_mem_nil

/-- **All that a step of thread `t` does.** -/
structure Does (t : Nat) (threads : List (Pc α)) (s : LFStack α) (pc : Pc α) (s' : LFStack α)
    (pc' : Pc α) (words words' : List Tagged) : Prop where
  stacked : s'.Stacked words'
  frame : Frame t threads s s' words words'
  knows : s'.Knows words' t pc'
  arrived : ∀ w ∈ words', w ∈ words ∨ w ∈ uncounted pc'
  held : ∀ w ∈ held pc', w ∈ words ∨ w ∈ LFStack.held pc ∨ w ∈ uncounted pc'
  uncounted : ∀ w ∈ uncounted pc', ∀ other ∈ threads, w ∉ LFStack.held other
  size : s'.size + debt pc' + words.length = s.size + debt pc + words'.length
  claims : claim pc' + words.length ≤ claim pc + words'.length ∨
    (1 ≤ s.size ∧ claim pc' = 1 ∧ claim pc = 0 ∧ words' = words)

variable {s s' : LFStack α} {words : List Tagged} {t : Nat} {pc pc' : Pc α}
  {threads : List (Pc α)}

/-- A step that only reads, moves the counter, or takes, writes or gives back a node. -/
theorem Stacked.does_own (h : s.Stacked words) (htop : s'.top = s.top)
    (hhistory : s'.history = s.history) (hhome : ∀ node, HomeKept t (s.home node) (s'.home node))
    (hnodes : ∀ node, s.home node ≠ .thread t →
      s'.data node = s.data node ∧ s'.next node = s.next node)
    (hknows : s'.Knows words t pc') (hheld : ∀ w ∈ held pc', w ∈ words ∨ w ∈ held pc)
    (huncounted : uncounted pc' = []) (hsize : s'.size + debt pc' = s.size + debt pc)
    (hclaims : claim pc' ≤ claim pc ∨ (1 ≤ s.size ∧ claim pc' = 1 ∧ claim pc = 0)) :
    Does t threads s pc s' pc' words words where
  stacked := by
    refine h.congr htop hhistory fun w hw => ?_
    obtain ⟨hdata, hnext⟩ := hnodes w.node (h.home_ne hw).1
    exact ⟨hnext, hdata, (hhome w.node).eq (h.home_ne hw).1 (h.home_ne (t := t) hw).2⟩
  frame :=
    { theirs := by
        intro u node hne hnode
        have hother : s.home node ≠ .thread t := by
          rw [hnode]
          exact fun heq => hne (Home.thread.inj heq)
        have hfree : s.home node ≠ .free := by simp [hnode]
        obtain ⟨hdata, hnext⟩ := hnodes node hother
        exact ⟨((hhome node).eq hother hfree).trans hnode, hdata, hnext⟩
      stays := by
        intro _ _ w _ hw
        obtain ⟨hdata, hnext⟩ := hnodes w.node (h.home_ne hw).1
        exact ⟨hw, hnext, hdata⟩ }
  knows := hknows
  arrived := fun _ hw => Or.inl hw
  held := fun w hw => (hheld w hw).imp_right Or.inl
  uncounted := by
    intro w hw
    rw [huncounted] at hw
    exact absurd hw List.not_mem_nil
  size := by omega
  claims := by
    rcases hclaims with hle | hreserved
    · exact Or.inl (Nat.add_le_add_right hle _)
    · exact Or.inr ⟨hreserved.1, hreserved.2.1, hreserved.2.2, rfl⟩

/-- A step that only reads. -/
theorem Stacked.does_read (h : s.Stacked words) (hknows : s.Knows words t pc')
    (hheld : ∀ w ∈ held pc', w ∈ words ∨ w ∈ held pc) (huncounted : uncounted pc' = [])
    (hdebt : debt pc' = debt pc) (hclaim : claim pc' = claim pc) :
    Does t threads s pc s pc' words words :=
  h.does_own rfl rfl (fun _ => Or.inl rfl) (fun _ _ => ⟨rfl, rfl⟩) hknows hheld huncounted
    (by rw [hdebt]) (Or.inl hclaim.le)

/-- A step that moves the counter. -/
theorem Stacked.does_count (h : s.Stacked words) {size : Int}
    (hknows : Knows { s with size := size } words t pc') (hheld : held pc' = [])
    (hsize : size + debt pc' = s.size + debt pc)
    (hclaims : claim pc' ≤ claim pc ∨ (1 ≤ s.size ∧ claim pc' = 1 ∧ claim pc = 0)) :
    Does t threads s pc { s with size := size } pc' words words := by
  have huncounted : uncounted pc' = [] := List.eq_nil_iff_forall_not_mem.mpr fun w hw => by
    have hmem := held_of_uncounted hw
    rw [hheld] at hmem
    exact absurd hmem List.not_mem_nil
  refine h.does_own rfl rfl (fun _ => Or.inl rfl) (fun _ _ => ⟨rfl, rfl⟩) hknows (fun w hw => ?_)
    huncounted hsize hclaims
  rw [hheld] at hw
  exact absurd hw List.not_mem_nil

/-- **What one step does.** -/
theorem advance_does (h : s.Stacked words) (hknows : s.Knows words t pc)
    (hunheld : s.Unheld threads pc) (hclaim : claim pc ≤ words.length)
    (hstep : advance s t pc = some (s', pc')) : ∃ words', Does t threads s pc s' pc' words words' := by
  cases pc with
  | idle => simp [advance] at hstep
  | pushData newnode a =>
      obtain ⟨rfl, rfl⟩ := Prod.mk.inj (Option.some.inj hstep)
      refine ⟨words, h.does_own rfl rfl (fun _ => Or.inl rfl) (fun node hnode => ?_)
        ⟨hknows, Function.update_self ..⟩ (fun w hw => absurd hw List.not_mem_nil) rfl rfl
        (Or.inl le_rfl)⟩
      have hne : node ≠ newnode := by
        rintro rfl
        exact hnode hknows
      exact ⟨Function.update_of_ne hne _ _, rfl⟩
  | pushKey newnode a =>
      obtain ⟨rfl, rfl⟩ := Prod.mk.inj (Option.some.inj hstep)
      exact ⟨words, h.does_own rfl rfl (fun _ => Or.inl rfl) (fun _ _ => ⟨rfl, rfl⟩)
        ⟨hknows.1, hknows.2⟩ (fun w hw => absurd hw List.not_mem_nil) rfl rfl (Or.inl le_rfl)⟩
  | pushRead w a =>
      obtain ⟨rfl, rfl⟩ := Prod.mk.inj (Option.some.inj hstep)
      exact ⟨words, h.does_read hknows (fun w hw => absurd hw List.not_mem_nil) rfl rfl rfl⟩
  | pushNext w a oldtop =>
      obtain ⟨rfl, rfl⟩ := Prod.mk.inj (Option.some.inj hstep)
      refine ⟨words, h.does_own rfl rfl (fun _ => Or.inl rfl) (fun node hnode => ?_)
        ⟨⟨hknows.home, hknows.data⟩, Function.update_self ..⟩
        (fun w hw => absurd hw List.not_mem_nil) rfl rfl (Or.inl le_rfl)⟩
      have hne : node ≠ w.node := by
        rintro rfl
        exact hnode hknows.home
      exact ⟨rfl, Function.update_of_ne hne _ _⟩
  | pushCas w a oldtop =>
      obtain ⟨hholds, hlink⟩ := hknows
      simp only [advance] at hstep
      split at hstep
      · rename_i htop
        obtain ⟨rfl, rfl⟩ := Prod.mk.inj (Option.some.inj hstep)
        have hnobody : ∀ pc ∈ threads, w ∉ held pc := hunheld htop
        refine ⟨w :: words, h.push hholds (hlink.trans htop.symm), hholds.frame_push hnobody,
          trivial, fun x hx => ?_, fun x hx => Or.inr (Or.inr hx), fun x hx => ?_, ?_, Or.inl ?_⟩
        · exact (List.mem_cons.mp hx).symm.imp_right List.mem_singleton.mpr
        · rw [List.mem_singleton.mp hx]
          exact hnobody
        · simp only [debt, uncounted, failing, claim, List.length_cons, List.length_nil]
          omega
        · simp only [claim, List.length_cons]
          omega
      · obtain ⟨rfl, rfl⟩ := Prod.mk.inj (Option.some.inj hstep)
        exact ⟨words, h.does_read hholds (fun w hw => absurd hw List.not_mem_nil) rfl rfl rfl⟩
  | pushSize w =>
      obtain ⟨rfl, rfl⟩ := Prod.mk.inj (Option.some.inj hstep)
      exact ⟨words, h.does_count trivial rfl (by simp [debt, uncounted, failing, claim])
        (Or.inl le_rfl)⟩
  | popSize =>
      obtain ⟨rfl, hpc⟩ := Prod.mk.inj (Option.some.inj hstep)
      by_cases hsize : s.size - 1 < 0
      · rw [if_pos hsize] at hpc
        subst hpc
        exact ⟨words, h.does_count trivial rfl (by simp [debt, uncounted, failing, claim])
          (Or.inl le_rfl)⟩
      · rw [if_neg hsize] at hpc
        subst hpc
        exact ⟨words, h.does_count trivial rfl (by simp [debt, uncounted, failing, claim])
          (Or.inr ⟨by omega, rfl, rfl⟩)⟩
  | popRestore =>
      obtain ⟨rfl, rfl⟩ := Prod.mk.inj (Option.some.inj hstep)
      exact ⟨words, h.does_count trivial rfl (by simp [debt, uncounted, failing, claim])
        (Or.inl le_rfl)⟩
  | popRead =>
      obtain ⟨rfl, rfl⟩ := Prod.mk.inj (Option.some.inj hstep)
      -- A node is reserved, so there is one.
      obtain ⟨w, rest, rfl, htop, -⟩ := h.chain.pop hclaim
      refine ⟨_, h.does_read ⟨w, htop⟩ (fun x hx => Or.inl ?_) rfl rfl rfl⟩
      rw [htop] at hx
      rw [List.mem_singleton.mp hx]
      exact List.mem_cons_self
  | popNext oldtop =>
      obtain ⟨w, rfl⟩ := hknows
      obtain ⟨rfl, rfl⟩ := Prod.mk.inj (Option.some.inj hstep)
      exact ⟨words, h.does_read (fun _ => rfl) (fun x hx => Or.inr hx) rfl rfl rfl⟩
  | popData w newtop =>
      obtain ⟨rfl, rfl⟩ := Prod.mk.inj (Option.some.inj hstep)
      exact ⟨words, h.does_read (fun hw => ⟨hknows hw, rfl⟩) (fun x hx => Or.inr hx) rfl rfl rfl⟩
  | popCas w newtop a =>
      simp only [advance] at hstep
      split at hstep
      · rename_i htop
        obtain ⟨rfl, rfl⟩ := Prod.mk.inj (Option.some.inj hstep)
        obtain ⟨w', rest, rfl, htop', -⟩ := h.chain.pop hclaim
        obtain rfl := Option.some.inj (htop.symm.trans htop')
        obtain ⟨rfl, rfl⟩ := hknows List.mem_cons_self
        refine ⟨rest, h.pop, h.frame_pop, Function.update_self ..,
          fun x hx => Or.inl (List.mem_cons_of_mem w hx), fun x hx => absurd hx List.not_mem_nil,
          fun x hx => absurd hx List.not_mem_nil, ?_, Or.inl ?_⟩
        · simp only [debt, uncounted, failing, claim, List.length_cons, List.length_nil]
          omega
        · simp only [claim, List.length_cons]
          omega
      · obtain ⟨rfl, rfl⟩ := Prod.mk.inj (Option.some.inj hstep)
        exact ⟨words, h.does_read trivial (fun x hx => absurd hx List.not_mem_nil) rfl rfl rfl⟩
  | popFree realadr a =>
      obtain ⟨rfl, rfl⟩ := Prod.mk.inj (Option.some.inj hstep)
      refine ⟨words, h.does_own rfl rfl (fun node => ?_) (fun _ _ => ⟨rfl, rfl⟩) trivial
        (fun x hx => absurd hx List.not_mem_nil) rfl rfl (Or.inl le_rfl)⟩
      by_cases hnode : node = realadr
      · subst hnode
        exact Or.inr ⟨Or.inl hknows, Or.inr (Function.update_self ..)⟩
      · exact Or.inl (Function.update_of_ne hnode _ _)

/-! ## Runs -/

/-- What holds of the system between the steps. -/
structure Sound (s : System α) (words : List Tagged) : Prop where
  stacked : s.stack.Stacked words
  knows : ∀ (t : Nat) (pc : Pc α), s.threads[t]? = some pc → s.stack.Knows words t pc
  uncounted : (hands uncounted s.threads).Nodup
  size : s.stack.size + load debt s.threads = words.length
  claims : load claim s.threads ≤ words.length
  begun : s.begun.Perm (pushed s.stack.history ++ hands inProgress s.threads)

/-- Where the words come from that are on the stack and that the calls have after a step. -/
structure Sources (s u : System α) (words words' : List Tagged) : Prop where
  arrived : ∀ w ∈ words', w ∈ words ∨ w ∈ hands LFStack.uncounted u.threads
  held : ∀ w ∈ hands held u.threads,
    w ∈ words ∨ w ∈ hands LFStack.held s.threads ∨ w ∈ hands LFStack.uncounted u.threads

theorem Does.sources {s : System α} (ht : s.threads[t]? = some pc) {stack : LFStack α}
    {words' : List Tagged} (hdoes : Does t s.threads s.stack pc stack pc' words words')
    (begun : List α) : Sources s ⟨stack, s.threads.set t pc', begun⟩ words words' := by
  have hself : (s.threads.set t pc')[t]? = some pc' :=
    List.getElem?_set_self (List.getElem?_eq_some_iff.mp ht).1
  refine ⟨fun w hw => ?_, fun w hw => ?_⟩
  · exact (hdoes.arrived w hw).imp_right fun hnew => mem_hands.mpr ⟨t, pc', hself, hnew⟩
  · obtain ⟨u, other, hu, hmem⟩ := mem_hands.mp hw
    rcases getElem?_set_cases hu with ⟨rfl, rfl⟩ | ⟨-, hold⟩
    · rcases hdoes.held w hmem with hline | hmine | hnew
      · exact Or.inl hline
      · exact Or.inr (Or.inl (mem_hands.mpr ⟨u, pc, ht, hmine⟩))
      · exact Or.inr (Or.inr (mem_hands.mpr ⟨u, other, hself, hnew⟩))
    · exact Or.inr (Or.inl (mem_hands.mpr ⟨u, other, hold, hmem⟩))

theorem load_claim_le_debt (threads : List (Pc α)) : load claim threads ≤ load debt threads :=
  List.sum_le_sum fun pc _ => claim_le_debt pc

/-- A value is in progress until it is pushed. -/
theorem advance_values (h : advance s t pc = some (s', pc')) :
    pushed s'.history ++ inProgress pc' = pushed s.history ++ inProgress pc := by
  cases pc with
  | idle => simp [advance] at h
  | pushCas w a oldtop =>
      simp only [advance] at h
      split at h
      · obtain ⟨rfl, rfl⟩ := Prod.mk.inj (Option.some.inj h)
        simp only [pushed_append, pushed, inProgress, List.append_nil]
      · obtain ⟨rfl, rfl⟩ := Prod.mk.inj (Option.some.inj h)
        rfl
  | popSize =>
      obtain ⟨rfl, rfl⟩ := Prod.mk.inj (Option.some.inj h)
      split <;> rfl
  | popNext oldtop =>
      cases oldtop with
      | none => simp [advance] at h
      | some w =>
          obtain ⟨rfl, rfl⟩ := Prod.mk.inj (Option.some.inj h)
          rfl
  | popCas w newtop a =>
      simp only [advance] at h
      split at h
      · obtain ⟨rfl, rfl⟩ := Prod.mk.inj (Option.some.inj h)
        simp only [pushed_append, pushed, inProgress, List.append_nil]
      · obtain ⟨rfl, rfl⟩ := Prod.mk.inj (Option.some.inj h)
        rfl
  | _ =>
      obtain ⟨rfl, rfl⟩ := Prod.mk.inj (Option.some.inj h)
      rfl

/-- **A thread moves.** -/
theorem Sound.move {s : System α} (h : Sound s words) (ht : s.threads[t]? = some pc)
    {stack : LFStack α} {words' : List Tagged} {new : List α}
    (hdoes : Does t s.threads s.stack pc stack pc' words words')
    (hvalues : pushed stack.history ++ inProgress pc' =
      pushed s.stack.history ++ inProgress pc ++ new) :
    Sound ⟨stack, s.threads.set t pc', s.begun ++ new⟩ words' where
  stacked := hdoes.stacked
  knows := by
    intro u other hu
    rcases getElem?_set_cases hu with ⟨rfl, rfl⟩ | ⟨hne, hold⟩
    · exact hdoes.knows
    · exact (h.knows u other hold).frame hdoes.frame (List.mem_of_getElem? hold) hne
  uncounted := by
    refine nodup_hands_set h.uncounted ht ?_ fun other hother w hw => Or.inr fun hmem => ?_
    · cases pc' with
      | pushSize w => exact List.nodup_singleton w
      | _ => exact List.nodup_nil
    · exact hdoes.uncounted w hw other hother (held_of_uncounted hmem)
  size := by
    have hset := load_set debt ht pc'
    have hsize := h.size
    have hstep := hdoes.size
    simp only
    omega
  claims := by
    have hset := load_set claim ht pc'
    have hclaims := h.claims
    simp only
    rcases hdoes.claims with hstep | ⟨hpos, hclaim', hclaim, rfl⟩
    · omega
    · -- The counter was positive, so there are more nodes than are reserved.
      have hle := load_claim_le_debt s.threads
      have hsize := h.size
      omega
  begun := by
    classical
    refine (h.begun.append_right new).trans (List.perm_iff_count.mpr fun a => ?_)
    have hset := count_hands_set inProgress ht pc' a
    have hcount := congrArg (List.count a) hvalues
    simp only [List.count_append] at hcount ⊢
    omega

/-- It begins no `Push`. -/
theorem Sound.move_silent {s : System α} (h : Sound s words) (ht : s.threads[t]? = some pc)
    {stack : LFStack α} {words' : List Tagged}
    (hdoes : Does t s.threads s.stack pc stack pc' words words')
    (hvalues : pushed stack.history ++ inProgress pc' =
      pushed s.stack.history ++ inProgress pc) :
    Sound ⟨stack, s.threads.set t pc', s.begun⟩ words' := by
  rw [← List.append_nil s.begun]
  refine h.move ht hdoes ?_
  rw [List.append_nil]
  exact hvalues

/-- **One step keeps the system sound.** -/
theorem Sound.step {s u : System α} {label : Label α} (h : Sound s words)
    (hunheld : s.Unheld label) (hstep : step s label = some u) :
    ∃ words', Sound u words' ∧ Sources s u words words' := by
  cases label with
  | push t a newnode =>
      simp only [LFStack.step] at hstep
      split at hstep
      · rename_i ht
        split at hstep
        · rename_i hfree
          obtain rfl := Option.some.inj hstep
          have hdoes : Does t s.threads s.stack .idle
              { s.stack with home := Function.update s.stack.home newnode (.thread t) }
              (.pushData newnode a) words words := by
            refine h.stacked.does_own rfl rfl (fun node => ?_) (fun _ _ => ⟨rfl, rfl⟩)
              (Function.update_self ..) (fun x hx => absurd hx List.not_mem_nil) rfl rfl
              (Or.inl le_rfl)
            by_cases hnode : node = newnode
            · subst hnode
              exact Or.inr ⟨Or.inr hfree, Or.inl (Function.update_self ..)⟩
            · exact Or.inl (Function.update_of_ne hnode _ _)
          exact ⟨words, h.move ht hdoes (by simp [inProgress]), hdoes.sources ht _⟩
        · simp at hstep
      · simp at hstep
  | pop t =>
      simp only [LFStack.step] at hstep
      split at hstep
      · rename_i ht
        obtain rfl := Option.some.inj hstep
        have hdoes : Does t s.threads s.stack .idle s.stack .popSize words words :=
          h.stacked.does_read trivial (fun x hx => absurd hx List.not_mem_nil) rfl rfl rfl
        exact ⟨words, h.move_silent ht hdoes rfl, hdoes.sources ht _⟩
      · simp at hstep
  | step t =>
      simp only [LFStack.step] at hstep
      split at hstep
      · simp at hstep
      · rename_i pc ht
        obtain ⟨⟨stack, pc'⟩, hadvance, rfl⟩ := Option.map_eq_some_iff.mp hstep
        have hclaim : claim pc ≤ words.length := (weight_le_load ht).trans h.claims
        obtain ⟨words', hdoes⟩ := advance_does h.stacked (h.knows t pc ht)
          (hunheld pc ht) hclaim hadvance
        exact ⟨words', h.move_silent ht hdoes (advance_values hadvance), hdoes.sources ht _⟩

theorem exists_sound_step {s u : System α} {label : Label α} (h : ∃ words, Sound s words)
    (hunheld : s.Unheld label) (hstep : LFStack.step s label = some u) : ∃ words, Sound u words := by
  obtain ⟨words, hsound⟩ := h
  obtain ⟨words', hsound', -⟩ := hsound.step hunheld hstep
  exact ⟨words', hsound'⟩

theorem sound_start (data : Nat → α) (next : Nat → Word) (n : Nat) :
    Sound (start data next n) [] where
  stacked := ⟨rfl, List.nodup_nil, fun _ h => absurd h List.not_mem_nil, Lifo.empty⟩
  knows := by
    intro t pc ht
    rw [List.eq_of_mem_replicate (List.mem_of_getElem? ht)]
    trivial
  uncounted := by
    have hhands : hands uncounted (List.replicate n (.idle : Pc α)) = [] := hands_replicate rfl n
    simp [start, hhands]
  size := by
    have hload : load debt (List.replicate n (.idle : Pc α)) = 0 := load_replicate debt rfl n
    simp [start, new, hload]
  claims := by
    have hload : load claim (List.replicate n (.idle : Pc α)) = 0 := load_replicate claim rfl n
    simp [start, hload]
  begun := by
    have hhands : hands inProgress (List.replicate n (.idle : Pc α)) = [] := hands_replicate rfl n
    simp [start, new, hhands, pushed]

/-- Where no word comes back that a call still has. -/
theorem sound_run {data : Nat → α} {next : Nat → Word} {n : Nat} {labels : List (Label α)}
    {s : System α} (hunheld : Along step System.Unheld (start data next n) labels)
    (h : exec step (start data next n) labels = some s) : ∃ words, Sound s words :=
  exec_invariant_along (I := fun s => ∃ words, Sound s words)
    (fun _ _ _ => exists_sound_step)
    ⟨[], sound_start data next n⟩ hunheld h

/-! ## Tags that do not repeat -/

/-- The word of a `Push` that is not on the stack yet. -/
def pending : Pc α → List Tagged
  | .pushRead w _ | .pushNext w _ _ | .pushCas w _ _ => [w]
  | _ => []

/-- What a step of thread `t` makes of the tags. -/
structure Stamps (t : Nat) (s : LFStack α) (pc : Pc α) (s' : LFStack α) (pc' : Pc α) : Prop where
  used : ∀ tag, s.tags tag = .used → s'.tags tag = .used
  theirs : ∀ u tag, u ≠ t → s.tags tag = .pending u → s'.tags tag = .pending u
  mine : ∀ w ∈ pending pc', s'.tags w.tag = .pending t
  pushed : ∀ w ∈ uncounted pc', s'.tags w.tag = .used

theorem stamps_of_eq {s' : LFStack α} (hmine : ∀ w ∈ pending pc, s.tags w.tag = .pending t)
    (htags : s'.tags = s.tags) (hpending : ∀ w ∈ pending pc', w ∈ pending pc)
    (huncounted : uncounted pc' = []) : Stamps t s pc s' pc' where
  used := fun tag hused => htags ▸ hused
  theirs := fun u tag _ hpending => htags ▸ hpending
  mine := fun w hw => htags ▸ hmine w (hpending w hw)
  pushed := by
    intro w hw
    rw [huncounted] at hw
    exact absurd hw List.not_mem_nil

theorem advance_stamps (hfresh : s.Fresh pc) (hmine : ∀ w ∈ pending pc, s.tags w.tag = .pending t)
    (hstep : advance s t pc = some (s', pc')) : Stamps t s pc s' pc' := by
  have hnothing : ∀ w ∈ ([] : List Tagged), w ∈ pending pc := fun _ hw => absurd hw List.not_mem_nil
  cases pc with
  | idle => simp [advance] at hstep
  | pushKey newnode a =>
      obtain ⟨rfl, rfl⟩ := Prod.mk.inj (Option.some.inj hstep)
      have hkey : ∀ tag, s.tags tag ≠ .unused →
          Function.update s.tags (s.key + 1) (.pending t) tag = s.tags tag := by
        intro tag hused
        refine Function.update_of_ne ?_ _ _
        rintro rfl
        exact hused hfresh
      refine ⟨fun tag hused => ?_, fun u tag _ htag => ?_, fun w hw => ?_,
        fun _ hw => absurd hw List.not_mem_nil⟩
      · exact (hkey tag (by simp [hused])).trans hused
      · exact (hkey tag (by simp [htag])).trans htag
      · rw [List.mem_singleton.mp hw]
        exact Function.update_self ..
  | pushCas w a oldtop =>
      simp only [advance] at hstep
      split at hstep
      · obtain ⟨rfl, rfl⟩ := Prod.mk.inj (Option.some.inj hstep)
        have hw : s.tags w.tag = .pending t := hmine w List.mem_cons_self
        refine ⟨fun tag hused => ?_, fun u tag hne htag => ?_,
          fun _ hx => absurd hx List.not_mem_nil, fun x hx => ?_⟩
        · have hother : tag ≠ w.tag := by
            rintro rfl
            rw [hw] at hused
            exact absurd hused (by simp)
          exact (Function.update_of_ne hother ..).trans hused
        · have hother : tag ≠ w.tag := by
            rintro rfl
            rw [hw] at htag
            exact hne (TagUse.pending.inj htag).symm
          exact (Function.update_of_ne hother ..).trans htag
        · rw [List.mem_singleton.mp hx]
          exact Function.update_self ..
      · obtain ⟨rfl, rfl⟩ := Prod.mk.inj (Option.some.inj hstep)
        exact stamps_of_eq hmine rfl (fun _ hw => hw) rfl
  | pushRead w a =>
      obtain ⟨rfl, rfl⟩ := Prod.mk.inj (Option.some.inj hstep)
      exact stamps_of_eq hmine rfl (fun _ hw => hw) rfl
  | pushNext w a oldtop =>
      obtain ⟨rfl, rfl⟩ := Prod.mk.inj (Option.some.inj hstep)
      exact stamps_of_eq hmine rfl (fun _ hw => hw) rfl
  | popSize =>
      obtain ⟨rfl, rfl⟩ := Prod.mk.inj (Option.some.inj hstep)
      split
      · exact stamps_of_eq hmine rfl hnothing rfl
      · exact stamps_of_eq hmine rfl hnothing rfl
  | popNext oldtop =>
      cases oldtop with
      | none => simp [advance] at hstep
      | some w =>
          obtain ⟨rfl, rfl⟩ := Prod.mk.inj (Option.some.inj hstep)
          exact stamps_of_eq hmine rfl hnothing rfl
  | popCas w newtop a =>
      simp only [advance] at hstep
      split at hstep
      · obtain ⟨rfl, rfl⟩ := Prod.mk.inj (Option.some.inj hstep)
        exact stamps_of_eq hmine rfl hnothing rfl
      · obtain ⟨rfl, rfl⟩ := Prod.mk.inj (Option.some.inj hstep)
        exact stamps_of_eq hmine rfl hnothing rfl
  | _ =>
      obtain ⟨rfl, rfl⟩ := Prod.mk.inj (Option.some.inj hstep)
      exact stamps_of_eq hmine rfl hnothing rfl

/-- The tags of the words that are on the stack or that the calls have are used, and those of
the words that are not on the stack yet are kept for them. -/
structure Stamped (s : System α) (words : List Tagged) : Prop where
  words : ∀ w ∈ words, s.stack.tags w.tag = .used
  held : ∀ w ∈ hands held s.threads, s.stack.tags w.tag = .used
  pending : ∀ (t : Nat) (pc : Pc α), s.threads[t]? = some pc →
    ∀ w ∈ pending pc, s.stack.tags w.tag = .pending t

/-- So a word that is not on the stack yet is not one that a call has. -/
theorem Stamped.unheld {s : System α} {label : Label α} (h : Stamped s words) : s.Unheld label := by
  cases label with
  | step t =>
      intro pc ht
      cases pc with
      | pushCas w a oldtop =>
          intro _ other hother hmem
          have hused := h.held w (List.mem_flatMap.mpr ⟨other, hother, hmem⟩)
          rw [h.pending t _ ht w List.mem_cons_self] at hused
          exact absurd hused (by simp)
      | _ => trivial
  | _ => trivial

/-- A thread moves. -/
theorem Stamped.move {s : System α} (h : Stamped s words) (ht : s.threads[t]? = some pc)
    {stack : LFStack α} {begun : List α} {words' : List Tagged}
    (hstamps : Stamps t s.stack pc stack pc')
    (hsources : Sources s ⟨stack, s.threads.set t pc', begun⟩ words words') :
    Stamped ⟨stack, s.threads.set t pc', begun⟩ words' := by
  have hpushed : ∀ w ∈ hands uncounted (s.threads.set t pc'), stack.tags w.tag = .used := by
    intro w hw
    obtain ⟨u, other, hu, hmem⟩ := mem_hands.mp hw
    rcases getElem?_set_cases hu with ⟨rfl, rfl⟩ | ⟨-, hold⟩
    · exact hstamps.pushed w hmem
    · exact hstamps.used w.tag (h.held w (mem_hands.mpr ⟨u, other, hold, held_of_uncounted hmem⟩))
  refine ⟨fun w hw => ?_, fun w hw => ?_, fun u other hu w hw => ?_⟩
  · rcases hsources.arrived w hw with hold | hnew
    · exact hstamps.used w.tag (h.words w hold)
    · exact hpushed w hnew
  · rcases hsources.held w hw with hline | hold | hnew
    · exact hstamps.used w.tag (h.words w hline)
    · exact hstamps.used w.tag (h.held w hold)
    · exact hpushed w hnew
  · rcases getElem?_set_cases hu with ⟨rfl, rfl⟩ | ⟨hne, hold⟩
    · exact hstamps.mine w hw
    · exact hstamps.theirs u w.tag hne (h.pending u other hold w hw)

/-- **One step keeps it so.** -/
theorem Stamped.step {s u : System α} {label : Label α} {words' : List Tagged}
    (h : Stamped s words) (hfresh : s.Fresh label) (hstep : step s label = some u)
    (hsources : Sources s u words words') : Stamped u words' := by
  cases label with
  | push t a newnode =>
      simp only [LFStack.step] at hstep
      split at hstep
      · rename_i ht
        split at hstep
        · obtain rfl := Option.some.inj hstep
          exact h.move ht (stamps_of_eq (h.pending t _ ht) rfl
            (fun _ hw => absurd hw List.not_mem_nil) rfl) hsources
        · simp at hstep
      · simp at hstep
  | pop t =>
      simp only [LFStack.step] at hstep
      split at hstep
      · rename_i ht
        obtain rfl := Option.some.inj hstep
        exact h.move ht (stamps_of_eq (h.pending t _ ht) rfl
          (fun _ hw => absurd hw List.not_mem_nil) rfl) hsources
      · simp at hstep
  | step t =>
      simp only [LFStack.step] at hstep
      split at hstep
      · simp at hstep
      · rename_i pc ht
        obtain ⟨⟨stack, pc'⟩, hadvance, rfl⟩ := Option.map_eq_some_iff.mp hstep
        exact h.move ht (advance_stamps (hfresh pc ht) (h.pending t pc ht) hadvance) hsources

theorem stamped_run {data : Nat → α} {next : Nat → Word} {n : Nat} {labels : List (Label α)}
    {s : System α} (hfresh : Along step System.Fresh (start data next n) labels)
    (h : exec step (start data next n) labels = some s) :
    ∃ words, Sound s words ∧ Stamped s words := by
  refine exec_invariant_along (I := fun s => ∃ words, Sound s words ∧ Stamped s words)
    (fun s label u hinv hok hstep => ?_) ⟨[], sound_start data next n, ?_, ?_, ?_⟩ hfresh h
  · obtain ⟨words, hsound, hstamped⟩ := hinv
    obtain ⟨words', hsound', hsources⟩ := hsound.step hstamped.unheld hstep
    exact ⟨words', hsound', hstamped.step hok hstep hsources⟩
  · exact fun _ hw => absurd hw List.not_mem_nil
  · intro w hw
    have hhands : hands held (List.replicate n (.idle : Pc α)) = [] := hands_replicate rfl n
    simp only [start, hhands] at hw
    exact absurd hw List.not_mem_nil
  · intro t pc ht w hw
    rw [List.eq_of_mem_replicate (List.mem_of_getElem? ht)] at hw
    exact absurd hw List.not_mem_nil

/-- **The stack loses and duplicates nothing** where the tags do not repeat: a `Pop` that has
passed the size test does not find the top null; the compare-exchanges are, in their order,
the history of a stack with the values that are on it; and the values of all `Push` calls are
those popped, those on the stack and those in progress. -/
theorem stack_run {data : Nat → α} {next : Nat → Word} {n : Nat} {labels : List (Label α)}
    {s : System α} (hfresh : Along step System.Fresh (start data next n) labels)
    (h : exec step (start data next n) labels = some s) :
    (∀ t : Nat, s.threads[t]? = some .popRead → s.stack.top ≠ none) ∧
      (∀ t : Nat, s.threads[t]? ≠ some (.popNext none)) ∧
      ∃ words, Chain (fun w : Tagged => s.stack.next w.node) s.stack.top words ∧
        Lifo s.stack.history (s.stack.values words) ∧
        s.begun.Perm (popped s.stack.history ++ s.stack.values words ++
          hands inProgress s.threads) := by
  obtain ⟨words, hsound, -⟩ := stamped_run hfresh h
  refine ⟨fun t ht hnone => ?_, fun t ht => ?_, words, hsound.stacked.chain,
    hsound.stacked.history, ?_⟩
  · have hclaim : claim (.popRead : Pc α) ≤ words.length := (weight_le_load ht).trans hsound.claims
    obtain ⟨w, rest, -, htop, -⟩ := hsound.stacked.chain.pop hclaim
    rw [hnone] at htop
    exact absurd htop (by simp)
  · obtain ⟨w, hw⟩ := hsound.knows t _ ht
    exact absurd hw (by simp)
  · exact hsound.begun.trans (hsound.stacked.history.perm.append_right _)

/-- Two threads; the second one pops while the first one pushes. -/
def pushAndPop : List (Label Nat) :=
  [.push 0 7 0] ++ List.replicate 6 (.step 0) ++ [.pop 1, .step 1, .push 0 8 1] ++
    List.replicate 5 (.step 0) ++ List.replicate 3 (.step 1)

theorem pushAndPop_run :
    ∃ s, exec step (start (fun _ => 0) (fun _ => none) 2) pushAndPop = some s ∧
      ∃ words, Lifo s.stack.history (s.stack.values words) := by
  obtain ⟨s, hs⟩ := Option.isSome_iff_exists.mp
    (show (exec step (start (fun _ => 0) (fun _ => none) 2) pushAndPop).isSome by decide +kernel)
  obtain ⟨-, -, words, -, hlifo, -⟩ := stack_run (by decide +kernel) hs
  exact ⟨s, hs, words, hlifo⟩

end LFStack

end SessionServer.Common
