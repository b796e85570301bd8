/-
  ContentLib/SlotRun.lean --- the life of a session.

  A session is accepted, released, reported to `OnRelease`, and only then is its index
  pushed back, each at most once; `_sessionCount` counts the sessions between the first
  two.  `Lives` states this on top of `Sound`, and a server whose sweep meets a slot that
  was never accepted breaks it.
-/
import SessionServer.ContentLib.Slots

set_option autoImplicit false

namespace SessionServer.ContentLib

open SessionServer.Foundation ContentLib.Frame

/-! ## Lives -/

/-- The events of a session, in their order. -/
def lifeCycle : List Event := [.onAccept, .release, .onRelease, .push]

/-- **The histories of the sessions**, against the owners of their slots. -/
structure Lives (s : ContentsServer) : Prop where
  fresh : ∀ id, s.history id ≠ [] →
    (s.sessionArray id.index).armed = true ∧ id.key < s.sessionKey
  ordered : ∀ id, s.history id <+: lifeCycle
  past : ∀ id, id ≠ (s.sessionArray id.index).sessionID →
    s.history id = [] ∨ s.history id = lifeCycle
  current : ∀ i, (s.sessionArray i).armed = true →
    (s.history (s.sessionArray i).sessionID).length + s.tally entering i =
      4 * s.indexArray.count i + s.tally progress i + (s.sessionArray i).live
  issued : ∀ id, s.issued.count id = if s.history id = [] then 0 else 1
  sessionCount : s.sessionCount =
    s.issued.countP (fun id => s.history id = [.onAccept]) + total counted s.threads

theorem lives_started (cfg : Config) (others : Nat) : Lives (startedServer cfg others) where
  fresh := by simp [startedServer]
  ordered := by simp [startedServer]
  past := by simp [startedServer]
  current := by simp [startedServer, emptySession]
  issued := by simp [startedServer]
  sessionCount := by simp [startedServer, total_replicate_nil]

variable {cfg : Config} {s s' : ContentsServer} {frame : Frame} {frames : List Frame}

/-- The history of a session is its first events. -/
theorem Lives.history_eq (h : Lives s) (id : SessionID) :
    s.history id = lifeCycle.take (s.history id).length :=
  List.prefix_iff_eq_take.mp (h.ordered id)

/-- A state with the same sessions, owners and weights. -/
theorem Lives.of_same (h : Lives s) (hhistory : s'.history = s.history)
    (hissued : s'.issued = s.issued) (hindex : s'.indexArray = s.indexArray)
    (hkey : s.sessionKey ≤ s'.sessionKey)
    (hid : ∀ i, (s'.sessionArray i).sessionID = (s.sessionArray i).sessionID)
    (harmed : ∀ i, (s'.sessionArray i).armed = (s.sessionArray i).armed)
    (hlive : ∀ i, (s'.sessionArray i).live = (s.sessionArray i).live)
    (hentering : ∀ i, s'.tally entering i = s.tally entering i)
    (hprogress : ∀ i, s'.tally progress i = s.tally progress i)
    (hcount : s'.sessionCount - total counted s'.threads =
      s.sessionCount - total counted s.threads) : Lives s' where
  fresh := by
    intro id hne
    rw [hhistory] at hne
    obtain ⟨h1, h2⟩ := h.fresh id hne
    exact ⟨by rw [harmed]; exact h1, Nat.lt_of_lt_of_le h2 hkey⟩
  ordered := by rw [hhistory]; exact h.ordered
  past := by
    intro id hne
    rw [hid] at hne
    rw [hhistory]
    exact h.past id hne
  current := by
    intro i hi
    rw [harmed] at hi
    rw [hhistory, hid, hentering, hindex, hprogress, hlive]
    exact h.current i hi
  issued := by rw [hissued, hhistory]; exact h.issued
  sessionCount := by
    have := h.sessionCount
    rw [hissued, hhistory]
    omega

/-- One step of a frame that changes no session and no weight but the references. -/
theorem Lives.of_sameRest (h : Lives s) {t : Nat} {rest : List Frame}
    (hstack : s.threads[t]? = some (frame :: rest)) (hthreads : s'.threads = s.threads)
    (hslot : ∀ next ∈ frames, next.slot = frame.slot) (hrest : SameRest frame frames)
    (hhistory : s'.history = s.history) (hissued : s'.issued = s.issued)
    (hindex : s'.indexArray = s.indexArray) (hkey : s.sessionKey ≤ s'.sessionKey)
    (hid : ∀ i, (s'.sessionArray i).sessionID = (s.sessionArray i).sessionID)
    (harmed : ∀ i, (s'.sessionArray i).armed = (s.sessionArray i).armed)
    (hlive : ∀ i, (s'.sessionArray i).live = (s.sessionArray i).live)
    (hcount : s'.sessionCount = s.sessionCount) : Lives (s'.start t (frames ++ rest)) := by
  have htally : ∀ w : Frame → Nat, (frames.map w).sum = w frame → ∀ i,
      (s'.start t (frames ++ rest)).tally w i = s.tally w i := by
    intro w hw i
    have := tally_run frames hstack hthreads w i
    rw [sum_weightAt hslot, hw] at this
    simp only [weightAt] at this
    omega
  refine h.of_same hhistory hissued hindex hkey hid harmed hlive
    (htally entering hrest.entering) (htally progress hrest.progress) ?_
  have := total_set_cons (w := counted) frames hstack
  show s'.sessionCount - total counted (s'.threads.set t (frames ++ rest)) = _
  rw [hcount, hthreads]
  have := hrest.counted
  omega

/-! ## The owner of a slot -/

theorem progress_le : ∀ frame : Frame, frame.progress ≤ 4 * frame.owns := by
  intro frame
  cases frame with
  | release i pc => cases pc <;> simp [progress, owns]
  | accept i pc => cases pc <;> simp [progress, owns]
  | _ => simp [progress]

theorem entering_confirmed (h : frame.entering ≠ 0) : frame.confirmed = true := by
  cases frame with
  | accept i pc => cases pc <;> simp_all [entering, confirmed, holds]
  | _ => simp [entering] at h

/-- A slot that is not live has nobody entering. -/
theorem Sound.entering_zero (h : Sound cfg s) {i : Nat} (hlive : (s.sessionArray i).live = 0) :
    s.tally entering i = 0 := by
  refine total_eq_zero fun other hother => ?_
  unfold weightAt
  split
  · rename_i hslot
    by_contra hne
    have := h.live_of_confirmed hother (entering_confirmed hne) hslot
    omega
  · rfl

/-- The progress of a slot is that of its owner. -/
theorem Sound.progress_owner (h : Sound cfg s) {t : Nat} {rest : List Frame}
    (hstack : s.threads[t]? = some (frame :: rest)) (howns : frame.owns = 1) {i : Nat}
    (hslot : frame.slot = some i) : s.tally progress i = frame.progress := by
  have hpresent : Present s.threads frame := present_of_getElem? hstack (by simp)
  obtain ⟨_, htally, _, _⟩ := h.owner hpresent howns hslot
  exact tally_of_owner progress_le hstack hslot (by rw [htally, howns])

/-- A slot without an owner has made no progress out of its life. -/
theorem Sound.progress_zero {i : Nat} (howns : s.tally owns i = 0) : s.tally progress i = 0 := by
  have := tally_le_mul (s := s) progress_le i
  omega

/-! ## Events -/

theorem countP_congr_off {α : Type} [DecidableEq α] {p q : α → Bool} {a : α}
    (h : ∀ x, x ≠ a → q x = p x) (l : List α) :
    l.countP q + (if p a then l.count a else 0) = l.countP p + if q a then l.count a else 0 := by
  induction l with
  | nil => simp
  | cons x l ih =>
      by_cases hx : x = a
      · subst hx
        simp only [List.countP_cons, List.count_cons_self]
        split <;> split <;> simp_all <;> omega
      · have hcount : (x :: l).count a = l.count a := List.count_cons_of_ne hx
        rw [hcount, List.countP_cons, List.countP_cons, h x hx]
        omega

theorem prefix_append_getElem? {α : Type} {xs ys : List α} {e : α} (h : xs <+: ys)
    (he : ys[xs.length]? = some e) : xs ++ [e] <+: ys := by
  obtain ⟨zs, rfl⟩ := h
  rw [List.getElem?_append_right (Nat.le_refl _), Nat.sub_self] at he
  cases zs with
  | nil => simp at he
  | cons z zs =>
      simp only [List.getElem?_cons_zero, Option.some.injEq] at he
      exact ⟨zs, by simp [he]⟩

/-- How an event changes the number of sessions accepted and not yet released. -/
def Event.gain : Event → Int
  | .onAccept => 1
  | .release => -1
  | .onRelease => 0
  | .push => 0

/-- The first event is `OnAccept`, the second one `Release`, and the others count nothing. -/
theorem lifeCycle_next {n : Nat} {e : Event} (h : lifeCycle[n]? = some e) :
    (n = 0 ∧ e = .onAccept) ∨ (n = 1 ∧ e = .release) ∨
      (1 < n ∧ e ≠ .onAccept ∧ e.gain = 0) := by
  rcases n with _ | _ | _ | _ | n
  · exact Or.inl ⟨rfl, (Option.some.inj h).symm⟩
  · exact Or.inr (Or.inl ⟨rfl, (Option.some.inj h).symm⟩)
  · obtain rfl : e = .onRelease := (Option.some.inj h).symm
    exact Or.inr (Or.inr ⟨by omega, by decide, rfl⟩)
  · obtain rfl : e = .push := (Option.some.inj h).symm
    exact Or.inr (Or.inr ⟨by omega, by decide, rfl⟩)
  · simp [lifeCycle] at h

/-- The sessions issued are those with an event. -/
theorem Lives.issued_append (h : Lives s) {cur : SessionID} {e : Event}
    (he : lifeCycle[(s.history cur).length]? = some e)
    (hself : s'.history cur = s.history cur ++ [e])
    (hsame : ∀ id, id ≠ cur → s'.history id = s.history id)
    (hissued : s'.issued = if e = .onAccept then cur :: s.issued else s.issued)
    (id : SessionID) : s'.issued.count id = if s'.history id = [] then 0 else 1 := by
  have hcount := h.issued id
  rw [hissued]
  by_cases heq : id = cur
  · subst heq
    rw [hself, if_neg (List.append_ne_nil_of_right_ne_nil _ (List.cons_ne_nil e []))]
    rcases lifeCycle_next he with ⟨hlen, rfl⟩ | ⟨hlen, rfl⟩ | ⟨hlen, hne, _⟩
    · rw [if_pos (List.length_eq_zero_iff.mp hlen)] at hcount
      rw [if_pos rfl, List.count_cons_self, hcount]
    · rw [if_neg (List.ne_nil_of_length_pos (by omega))] at hcount
      rw [if_neg (by decide), hcount]
    · rw [if_neg (List.ne_nil_of_length_pos (by omega))] at hcount
      rw [if_neg hne, hcount]
  · rw [hsame id heq, ← hcount]
    split
    · exact List.count_cons_of_ne (fun hc => heq hc.symm)
    · rfl

/-- The sessions accepted and not yet released differ in this one at most. -/
theorem Lives.sessionCount_append (h : Lives s) {cur : SessionID} {e : Event}
    (he : lifeCycle[(s.history cur).length]? = some e)
    (hself : s'.history cur = s.history cur ++ [e])
    (hsame : ∀ id, id ≠ cur → s'.history id = s.history id)
    (hissued : s'.issued = if e = .onAccept then cur :: s.issued else s.issued)
    (hcount : s'.sessionCount - total counted s'.threads =
      s.sessionCount - total counted s.threads + e.gain) :
    s'.sessionCount =
      s'.issued.countP (fun id => s'.history id = [.onAccept]) + total counted s'.threads := by
  have hold := h.sessionCount
  have honce := h.issued cur
  have hswap := countP_congr_off (p := fun id => s.history id = [.onAccept])
    (q := fun id => s'.history id = [.onAccept]) (a := cur)
    (fun id hne => by rw [hsame id hne]) s.issued
  rw [hself] at hswap
  rw [hissued]
  rcases lifeCycle_next he with ⟨hlen, rfl⟩ | ⟨hlen, rfl⟩ | ⟨hlen, hne, hgain⟩
  · have hnil := List.length_eq_zero_iff.mp hlen
    rw [hnil, if_pos rfl] at honce
    simp only [hnil, honce, List.nil_append, ite_self, Nat.add_zero] at hswap
    rw [if_pos rfl, List.countP_cons_of_pos (by rw [hself, hnil]; rfl), hswap]
    simp only [Event.gain] at hcount
    omega
  · have hone : s.history cur = [.onAccept] := by
      have hlist := h.history_eq cur
      rwa [hlen] at hlist
    rw [hone, if_neg (List.cons_ne_nil _ _)] at honce
    simp only [hone, honce] at hswap
    simp only [Event.gain] at hcount
    simp at hswap ⊢
    omega
  · have hp : s.history cur ≠ [.onAccept] := by
      intro heq
      rw [heq] at hlen
      exact absurd hlen (Nat.lt_irrefl 1)
    have hq : s.history cur ++ [e] ≠ [.onAccept] := by
      intro heq
      have hlength := congrArg List.length heq
      rw [List.length_append] at hlength
      simp only [List.length_cons, List.length_nil] at hlength
      omega
    simp only [hp, hq, decide_false, Bool.false_eq_true, if_false, Nat.add_zero] at hswap
    rw [if_neg hne, hswap]
    rw [hgain] at hcount
    omega

/-- The next event of a session is recorded. -/
theorem Lives.append (h : Lives s) (hsound : Sound cfg s) {j : Nat} {e : Event}
    (harmed : (s.sessionArray j).armed = true)
    (hlt : (s.sessionArray j).sessionID.key < s.sessionKey)
    (he : lifeCycle[(s.history (s.sessionArray j).sessionID).length]? = some e)
    (hhistory : s'.history = Function.update s.history (s.sessionArray j).sessionID
      (s.history (s.sessionArray j).sessionID ++ [e]))
    (hissued : s'.issued =
      if e = .onAccept then (s.sessionArray j).sessionID :: s.issued else s.issued)
    (hkey : s'.sessionKey = s.sessionKey)
    (hid : ∀ i, (s'.sessionArray i).sessionID = (s.sessionArray i).sessionID)
    (harmed' : ∀ i, (s'.sessionArray i).armed = (s.sessionArray i).armed)
    (hother : ∀ i, i ≠ j → s'.tally entering i = s.tally entering i ∧
      s'.indexArray.count i = s.indexArray.count i ∧ s'.tally progress i = s.tally progress i ∧
      (s'.sessionArray i).live = (s.sessionArray i).live)
    (hcurrent : (s.history (s.sessionArray j).sessionID).length + 1 + s'.tally entering j =
      4 * s'.indexArray.count j + s'.tally progress j + (s'.sessionArray j).live)
    (hcount : s'.sessionCount - total counted s'.threads =
      s.sessionCount - total counted s.threads + e.gain) : Lives s' := by
  have hname := hsound.named j harmed
  generalize hcur : (s.sessionArray j).sessionID = cur at *
  have hsame : ∀ id, id ≠ cur → s'.history id = s.history id := by
    intro id hne
    rw [hhistory, Function.update_of_ne hne]
  have hself : s'.history cur = s.history cur ++ [e] := by
    rw [hhistory, Function.update_self]
  constructor
  · intro id hne
    rw [harmed', hkey]
    by_cases heq : id = cur
    · subst heq
      rw [hname]
      exact ⟨harmed, hlt⟩
    · rw [hsame id heq] at hne
      exact h.fresh id hne
  · intro id
    by_cases heq : id = cur
    · subst heq
      rw [hself]
      exact prefix_append_getElem? (h.ordered id) he
    · rw [hsame id heq]
      exact h.ordered id
  · intro id hne
    rw [hid] at hne
    have heq : id ≠ cur := by
      rintro rfl
      rw [hname, hcur] at hne
      exact hne rfl
    rw [hsame id heq]
    exact h.past id hne
  · intro i hi
    rw [harmed'] at hi
    rw [hid]
    by_cases hij : i = j
    · subst hij
      rw [hcur, hself, List.length_append]
      exact hcurrent
    · have heq : (s.sessionArray i).sessionID ≠ cur := by
        intro heq
        have hi' := hsound.named i hi
        rw [heq, hname] at hi'
        exact hij hi'.symm
      obtain ⟨h1, h2, h3, h4⟩ := hother i hij
      rw [hsame _ heq, h1, h2, h3, h4]
      exact h.current i hi
  · exact h.issued_append he hself hsame hissued
  · exact h.sessionCount_append he hself hsame hissued hcount

/-! ## Steps keep it -/

/-- A frame records the next event of the session in its slot. -/
theorem Lives.event (h : Lives s) (hsound : Sound cfg s) {t j : Nat} {rest : List Frame}
    (hstack : s.threads[t]? = some (frame :: rest)) (hslot : frame.slot = some j)
    (hframes : ∀ next ∈ frames, next.slot = some j) {e : Event}
    (harmed : (s.sessionArray j).armed = true)
    (hlt : (s.sessionArray j).sessionID.key < s.sessionKey)
    (he : lifeCycle[(s.history (s.sessionArray j).sessionID).length]? = some e)
    (hthreads : s'.threads = s.threads)
    (hhistory : s'.history = Function.update s.history (s.sessionArray j).sessionID
      (s.history (s.sessionArray j).sessionID ++ [e]))
    (hissued : s'.issued =
      if e = .onAccept then (s.sessionArray j).sessionID :: s.issued else s.issued)
    (hkey : s'.sessionKey = s.sessionKey)
    (hid : ∀ i, (s'.sessionArray i).sessionID = (s.sessionArray i).sessionID)
    (harmed' : ∀ i, (s'.sessionArray i).armed = (s.sessionArray i).armed)
    (hother : ∀ i, i ≠ j → s'.indexArray.count i = s.indexArray.count i ∧
      (s'.sessionArray i).live = (s.sessionArray i).live)
    (hcurrent : (s.history (s.sessionArray j).sessionID).length + 1 +
        (s.tally entering j + (frames.map entering).sum) + frame.progress =
      4 * s'.indexArray.count j + (s.tally progress j + (frames.map progress).sum) +
        (s'.sessionArray j).live + frame.entering)
    (hcount : s'.sessionCount + frame.counted =
      s.sessionCount + (frames.map counted).sum + e.gain) :
    Lives (s'.start t (frames ++ rest)) := by
  have htally := fun w i => tally_run_slot hstack hthreads hslot hframes w i
  refine h.append hsound harmed hlt he hhistory hissued hkey hid harmed' ?_ ?_ ?_
  · intro i hij
    have hji : ¬ j = i := fun heq => hij heq.symm
    have h1 := htally entering i
    have h2 := htally progress i
    simp only [hji, if_false, Nat.add_zero] at h1 h2
    exact ⟨h1, (hother i hij).1, h2, (hother i hij).2⟩
  · have h1 := htally entering j
    have h2 := htally progress j
    simp only [if_true] at h1 h2
    show _ = 4 * s'.indexArray.count j + _ + (s'.sessionArray j).live
    omega
  · have := total_set_cons (w := counted) frames hstack
    show s'.sessionCount - total counted (s'.threads.set t (frames ++ rest)) = _
    rw [hthreads]
    omega

/-- The numbers of a slot whose owner steps. -/
theorem Lives.owned (h : Lives s) (hsound : Sound cfg s) {t i : Nat} {rest : List Frame}
    (hstack : s.threads[t]? = some (frame :: rest)) (howns : frame.owns = 1)
    (hslot : frame.slot = some i) :
    s.indexArray.count i = 0 ∧ (s.sessionArray i).live = 0 ∧ s.tally entering i = 0 ∧
      s.tally progress i = frame.progress ∧
      ((s.sessionArray i).armed = true →
        (s.history (s.sessionArray i).sessionID).length = frame.progress) := by
  have hpresent : Present s.threads frame := present_of_getElem? hstack (by simp)
  obtain ⟨hfree, _, hlive, _⟩ := hsound.owner hpresent howns hslot
  have hentering := hsound.entering_zero hlive
  have hprogress := hsound.progress_owner hstack howns hslot
  refine ⟨hfree, hlive, hentering, hprogress, fun harmed => ?_⟩
  have hcurrent := h.current i harmed
  omega

/-- The numbers of a live slot. -/
theorem Lives.living (h : Lives s) (hsound : Sound cfg s) {i : Nat}
    (hlive : (s.sessionArray i).live = 1) :
    s.indexArray.count i = 0 ∧ s.tally progress i = 0 ∧
      (s.history (s.sessionArray i).sessionID).length + s.tally entering i = 1 := by
  have htoken := hsound.token i
  have hprogress : s.tally progress i = 0 := Sound.progress_zero (by split at htoken <;> omega)
  have hcurrent := h.current i (Session.live_eq_one.mp hlive).1
  refine ⟨by split at htoken <;> omega, hprogress, ?_⟩
  split at htoken <;> omega

/-- A slot whose `_ioCount` is 0 has nothing outstanding and nobody with a reference. -/
theorem Sound.unused (h : Sound cfg s) {i : Nat} (hzero : (s.sessionArray i).ioCount = 0) :
    (s.sessionArray i).io = [] ∧
      ∀ other, Present s.threads other → other.slot = some i → other.holds = 0 := by
  constructor
  · have := h.account i
    exact List.eq_nil_of_length_eq_zero (by omega)
  · intro other hother hslot
    have := h.holds_le hother hslot
    omega

/-- The compare-exchange of `Release` succeeds on a session that has been accepted and
not released yet. -/
theorem Lives.accepted_of_isZero (h : Lives s) (hsound : Sound cfg s) {t i : Nat}
    {rest : List Frame} (hstack : s.threads[t]? = some (.release i .cas :: rest))
    (hzero : s.isZero i = true) :
    (s.sessionArray i).live = 1 ∧ s.tally entering i = 0 ∧
      s.history (s.sessionArray i).sessionID = [.onAccept] := by
  have hpresent : Present s.threads (.release i .cas) := present_of_getElem? hstack (by simp)
  have harmed := (hsound.placed _ hpresent).armed rfl i rfl
  simp only [ContentsServer.isZero, Bool.and_eq_true, Bool.not_eq_true', beq_iff_eq] at hzero
  have hlive : (s.sessionArray i).live = 1 := Session.live_eq_one.mpr ⟨harmed, hzero.1⟩
  obtain ⟨hfree, hprogress, hone⟩ := h.living hsound hlive
  -- Whoever enters the slot holds a reference.
  have hentering : s.tally entering i = 0 := by
    refine total_eq_zero fun other hother => ?_
    unfold weightAt
    split
    · rename_i hslot
      by_contra hne
      have := (hsound.unused hzero.2).2 other hother hslot
      have := confirmed_holds (entering_confirmed hne)
      omega
    · rfl
  have hlength : (s.history (s.sessionArray i).sessionID).length = 1 := by omega
  refine ⟨hlive, hentering, ?_⟩
  rw [h.history_eq, hlength]
  rfl

/-- The body of `Release` starts. -/
theorem Lives.cas (h : Lives s) (hsound : Sound cfg s) {t i : Nat} {rest : List Frame}
    (hstack : s.threads[t]? = some (.release i .cas :: rest)) (hzero : s.isZero i = true) :
    Lives (((s.modify i fun x => { x with releaseFlag := true }).record
      (s.sessionArray i).sessionID .release).start t ([Frame.release i (.drop 0)] ++ rest)) := by
  obtain ⟨hlive, hentering, hone⟩ := h.accepted_of_isZero hsound hstack hzero
  obtain ⟨hfree, hprogress, _⟩ := h.living hsound hlive
  have harmed := (Session.live_eq_one.mp hlive).1
  have hne : s.history (s.sessionArray i).sessionID ≠ [] := by rw [hone]; simp
  refine h.event hsound hstack rfl (by simp [slot]) harmed (h.fresh _ hne).2 (e := .release) ?_ rfl
    rfl rfl rfl ?_ ?_ ?_ ?_ ?_
  · rw [hone]
    rfl
  · intro k
    rw [ContentsServer.record_sessionArray, s.modify_field Session.sessionID i fun _ => by rfl]
  · intro k
    rw [ContentsServer.record_sessionArray, s.modify_field Session.armed i fun _ => by rfl]
  · intro k hk
    rw [ContentsServer.record_sessionArray, s.modify_of_ne hk]
    exact ⟨rfl, rfl⟩
  · rw [ContentsServer.record_sessionArray, ContentsServer.modify_self, hone, hentering,
      hprogress]
    show 1 + 1 + (0 + 0) + 0 = 4 * s.indexArray.count i + (0 + 2) + _ + 0
    rw [hfree]
    simp [Session.live]
  · show s.sessionCount + 0 = s.sessionCount + 1 + -1
    omega

/-- A session with an event has got its key. -/
theorem Lives.key_lt (h : Lives s) {id : SessionID} (hlength : 0 < (s.history id).length) :
    id.key < s.sessionKey :=
  (h.fresh id (List.ne_nil_of_length_pos hlength)).2

/-- `OnRelease` is called. -/
theorem Lives.onRelease (h : Lives s) (hsound : Sound cfg s) {t i : Nat} {rest : List Frame}
    (hstack : s.threads[t]? = some (.release i .onRelease :: rest)) :
    Lives ((s.record (s.sessionArray i).sessionID .onRelease).start t
      ([Frame.release i .push] ++ rest)) := by
  have hpresent : Present s.threads (.release i .onRelease) :=
    present_of_getElem? hstack (by simp)
  have harmed := (hsound.placed _ hpresent).armed rfl i rfl
  obtain ⟨hfree, hlive, hentering, hprogress, hlength⟩ := h.owned hsound hstack rfl rfl
  have hlength := hlength harmed
  have hlt : (s.sessionArray i).sessionID.key < s.sessionKey :=
    h.key_lt (by rw [hlength]; exact Nat.succ_pos _)
  refine h.event hsound hstack rfl (by simp [slot]) harmed hlt (e := .onRelease) ?_
    rfl rfl rfl rfl (fun _ => rfl) (fun _ => rfl) (fun _ _ => ⟨rfl, rfl⟩) ?_ ?_
  · rw [hlength]
    rfl
  · rw [ContentsServer.record_sessionArray, hlength, hentering, hprogress, hlive]
    show 2 + 1 + (0 + 0) + 2 = 4 * s.indexArray.count i + (2 + 3) + 0 + 0
    rw [hfree]
  · show s.sessionCount + 0 = s.sessionCount + 0 + 0
    omega

/-- The index goes back on the stack. -/
theorem Lives.push (h : Lives s) (hsound : Sound cfg s) {t i : Nat} {rest : List Frame}
    (hstack : s.threads[t]? = some (.release i .push :: rest)) :
    Lives (({ s with indexArray := findSession (s.sessionArray i).sessionID :: s.indexArray }.record
      (s.sessionArray i).sessionID .push).start t ([] ++ rest)) := by
  have hpresent : Present s.threads (.release i .push) := present_of_getElem? hstack (by simp)
  have harmed := (hsound.placed _ hpresent).armed rfl i rfl
  have hname := hsound.named i harmed
  obtain ⟨hfree, hlive, hentering, hprogress, hlength⟩ := h.owned hsound hstack rfl rfl
  have hlength := hlength harmed
  have hlt : (s.sessionArray i).sessionID.key < s.sessionKey :=
    h.key_lt (by rw [hlength]; exact Nat.succ_pos _)
  refine h.event hsound hstack rfl (by simp) harmed hlt (e := .push) ?_ rfl rfl rfl
    rfl (fun _ => rfl) (fun _ => rfl) ?_ ?_ ?_
  · rw [hlength]
    rfl
  · intro k hk
    refine ⟨?_, rfl⟩
    show (findSession (s.sessionArray i).sessionID :: s.indexArray).count k = _
    rw [findSession, hname, List.count_cons_of_ne (fun heq => hk heq.symm)]
  · rw [ContentsServer.record_sessionArray, hlength, hentering, hprogress, hlive]
    show 3 + 1 + (0 + 0) + 3 =
      4 * (findSession (s.sessionArray i).sessionID :: s.indexArray).count i + (3 + 0) + 0 + 0
    rw [findSession, hname, List.count_cons_self, hfree]
  · show s.sessionCount + 0 = s.sessionCount + 0 + 0
    omega

/-- `OnAccept` is called. -/
theorem Lives.onAccept (h : Lives s) (hsound : Sound cfg s) {t i : Nat} {rest : List Frame}
    (hstack : s.threads[t]? = some (.accept i .onAccept :: rest)) :
    Lives (({ s with issued := (s.sessionArray i).sessionID :: s.issued }.record
      (s.sessionArray i).sessionID .onAccept).start t ([Frame.accept i .enter] ++ rest)) := by
  have hpresent : Present s.threads (.accept i .onAccept) := present_of_getElem? hstack (by simp)
  have hplaced := hsound.placed _ hpresent
  have harmed := hplaced.armed rfl i rfl
  have hlive := hsound.live_of_confirmed hpresent rfl rfl
  obtain ⟨hfree, hprogress, hone⟩ := h.living hsound hlive
  have hentering : 1 ≤ s.tally entering i := by
    have := hpresent.le_total (w := weightAt entering i)
    simpa [ContentsServer.tally, weightAt, slot, entering] using this
  have hlength : (s.history (s.sessionArray i).sessionID).length = 0 := by omega
  refine h.event hsound hstack rfl (by simp [slot]) harmed (hplaced.renewed rfl i rfl)
    (e := .onAccept) ?_ rfl rfl rfl rfl (fun _ => rfl) (fun _ => rfl) (fun _ _ => ⟨rfl, rfl⟩) ?_ ?_
  · rw [hlength]
    rfl
  · rw [ContentsServer.record_sessionArray, hlength, hprogress]
    show 0 + 1 + (s.tally entering i + 0) + 0 =
      4 * s.indexArray.count i + (0 + 0) + (s.sessionArray i).live + 1
    rw [hfree, hlive]
    omega
  · show s.sessionCount + 1 = s.sessionCount + 0 + 1
    omega

/-- The frames of a slot weigh nothing at another one. -/
theorem sum_weightAt_elsewhere {w : Frame → Nat} {i j : Nat} (hij : i ≠ j)
    (hslots : ∀ next ∈ frame :: frames, ∀ k, next.slot = some k → k = j) :
    (frames.map (weightAt w i)).sum = weightAt w i frame := by
  have hzero : ∀ next ∈ frame :: frames, weightAt w i next = 0 :=
    fun next hnext => if_neg fun heq => hij (hslots next hnext i heq)
  rw [hzero frame List.mem_cons_self]
  exact List.sum_eq_zero fun n hn => by
    obtain ⟨next, hnext, rfl⟩ := List.mem_map.mp hn
    exact hzero next (List.mem_cons_of_mem _ hnext)

/-- A step of an owner that touches its slot's numbers only. -/
theorem Lives.hand (h : Lives s) {t j : Nat} {rest : List Frame}
    (hstack : s.threads[t]? = some (frame :: rest)) (hthreads : s'.threads = s.threads)
    (hslots : ∀ next ∈ frame :: frames, ∀ i, next.slot = some i → i = j)
    (hhistory : s'.history = s.history) (hissued : s'.issued = s.issued)
    (hkey : s'.sessionKey = s.sessionKey)
    (hid : ∀ i, i ≠ j → s'.sessionArray i = s.sessionArray i)
    (hindex : ∀ i, i ≠ j → s'.indexArray.count i = s.indexArray.count i)
    (harmed : ∀ i, (s.sessionArray i).armed = true → (s'.sessionArray i).armed = true)
    (hpast : ∀ id, id.index = j → id ≠ (s'.sessionArray j).sessionID →
      s.history id = [] ∨ s.history id = lifeCycle)
    (hcurrent : (s'.sessionArray j).armed = true →
      (s.history (s'.sessionArray j).sessionID).length + s.tally entering j +
          (frames.map (weightAt entering j)).sum + weightAt progress j frame =
        4 * s'.indexArray.count j + s.tally progress j +
          (frames.map (weightAt progress j)).sum + (s'.sessionArray j).live +
          weightAt entering j frame)
    (hcount : s'.sessionCount + frame.counted = s.sessionCount + (frames.map counted).sum) :
    Lives (s'.start t (frames ++ rest)) := by
  have htally := fun w i => tally_run frames hstack hthreads w i
  have hat := fun w i (hi : i ≠ j) => sum_weightAt_elsewhere (w := w) hi hslots
  constructor
  · intro id hne
    rw [ContentsServer.start, hhistory] at hne
    obtain ⟨h1, h2⟩ := h.fresh id hne
    exact ⟨harmed _ h1, h2.trans_le (Nat.le_of_eq hkey.symm)⟩
  · rw [ContentsServer.start, hhistory]
    exact h.ordered
  · intro id hne
    have hne : id ≠ (s'.sessionArray id.index).sessionID := hne
    rw [ContentsServer.start, hhistory]
    by_cases hj : id.index = j
    · exact hpast id hj (hj ▸ hne)
    · rw [hid _ hj] at hne
      exact h.past id hne
  · intro i hi
    have hi : (s'.sessionArray i).armed = true := hi
    have h1 := htally entering i
    have h2 := htally progress i
    show (s'.history (s'.sessionArray i).sessionID).length + _ =
      4 * s'.indexArray.count i + _ + (s'.sessionArray i).live
    rw [hhistory]
    by_cases hij : i = j
    · subst hij
      have := hcurrent hi
      omega
    · rw [hid i hij] at hi ⊢
      rw [hindex i hij]
      have h3 := hat entering i hij
      have h4 := hat progress i hij
      have := h.current i hi
      omega
  · rw [ContentsServer.start, hissued, hhistory]
    exact h.issued
  · have := total_set_cons (w := counted) frames hstack
    have hold := h.sessionCount
    show s'.sessionCount = s'.issued.countP (fun id => s'.history id = [.onAccept]) +
      total counted (s'.threads.set t (frames ++ rest))
    rw [hissued, hhistory, hthreads]
    omega

/-- `AcceptThread` takes an index. -/
theorem Lives.pop (h : Lives s) {t i : Nat} {rest : List Frame}
    {indices : List Nat} (hstack : s.threads[t]? = some (.pop :: rest))
    (hindex : s.indexArray = i :: indices) :
    Lives ({ s with indexArray := indices }.start t ([Frame.accept i .sessionCount] ++ rest)) := by
  refine h.hand (j := i) hstack rfl (by simp [slot]) rfl rfl rfl (fun _ _ => rfl) ?_
    (fun _ ha => ha) ?_ ?_ ?_
  · intro k hk
    rw [hindex, List.count_cons_of_ne (fun heq => hk heq.symm)]
  · intro id hid hne
    exact h.past id (by rw [hid]; exact hne)
  · intro harmed
    have hcurrent := h.current i harmed
    rw [hindex, List.count_cons_self] at hcurrent
    simp only [weightAt, slot, reduceCtorEq, if_true, if_false, List.map_cons, List.map_nil,
      List.sum_cons, List.sum_nil, entering, progress]
    omega
  · rfl

/-- `AcceptThread` stores a new session ID. -/
theorem Lives.identify (h : Lives s) (hsound : Sound cfg s) {t i : Nat} {rest : List Frame}
    (hstack : s.threads[t]? = some (.accept i .sessionID :: rest)) :
    Lives ((s.modify i fun x => { x with sessionID := ⟨i, s.sessionKey⟩ }).start t
      ([Frame.accept i .time] ++ rest)) := by
  obtain ⟨hfree, hlive, hentering, hprogress, hlength⟩ := h.owned hsound hstack rfl rfl
  have hnew : s.history ⟨i, s.sessionKey⟩ = [] := by
    by_contra hne
    exact Nat.lt_irrefl _ (h.fresh _ hne).2
  refine h.hand (j := i) hstack rfl (by simp [slot]) rfl rfl rfl
    (fun k hk => s.modify_of_ne hk _) (fun _ _ => rfl) ?_ ?_ ?_ ?_
  · intro k ha
    rwa [s.modify_field Session.armed i fun _ => by rfl]
  · intro id hid hne
    by_cases hold : id = (s.sessionArray id.index).sessionID
    · -- The session the slot had before is over.
      cases harmed : (s.sessionArray i).armed with
      | false =>
          refine Or.inl ?_
          by_contra hsome
          have := (h.fresh id hsome).1
          rw [hid, harmed] at this
          simp at this
      | true =>
          refine Or.inr ?_
          rw [h.history_eq id, hold, hid, hlength harmed]
          rfl
    · exact h.past id hold
  · intro harmed
    rw [ContentsServer.modify_self]
    rw [s.modify_field Session.armed i fun _ => by rfl] at harmed
    show (s.history ⟨i, s.sessionKey⟩).length + _ + _ + _ =
      4 * s.indexArray.count i + _ + _ + (s.sessionArray i).live + _
    rw [hnew, hentering, hprogress, hfree, hlive]
    simp [weightAt, slot, entering, progress]
  · rfl

/-- `AcceptThread` clears `RELEASEFLAG`. -/
theorem Lives.arm (h : Lives s) (hsound : Sound cfg s) {t i : Nat} {rest : List Frame}
    (hstack : s.threads[t]? = some (.accept i .and :: rest)) :
    Lives ((s.modify i fun x => { x with releaseFlag := false, armed := true }).start t
      ([Frame.accept i .contentsNum] ++ rest)) := by
  have hpresent : Present s.threads (.accept i .and) := present_of_getElem? hstack (by simp)
  obtain ⟨hindex, _⟩ := (hsound.placed _ hpresent).identified rfl i rfl
  obtain ⟨hfree, hlive, hentering, hprogress, hlength⟩ := h.owned hsound hstack rfl rfl
  have hnew : (s.history (s.sessionArray i).sessionID).length = 0 := by
    cases harmed : (s.sessionArray i).armed with
    | false =>
        rw [List.length_eq_zero_iff]
        by_contra hne
        have := (h.fresh _ hne).1
        rw [hindex, harmed] at this
        simp at this
    | true => exact hlength harmed
  refine h.hand (j := i) hstack rfl (by simp [slot]) rfl rfl rfl
    (fun k hk => s.modify_of_ne hk _) (fun _ _ => rfl) ?_ ?_ ?_ ?_
  · intro k ha
    by_cases hk : k = i
    · rw [hk, ContentsServer.modify_self]
    · rwa [s.modify_of_ne hk]
  · intro id hid hne
    rw [ContentsServer.modify_self] at hne
    exact h.past id (by rw [hid]; exact hne)
  · intro _
    rw [ContentsServer.modify_self]
    show (s.history (s.sessionArray i).sessionID).length + _ + _ + _ =
      4 * s.indexArray.count i + _ + _ + 1 + _
    rw [hnew, hentering, hprogress, hfree]
    simp [weightAt, slot, entering, progress]
  · rfl

/-- One step of a frame keeps the lives. -/
theorem Lives.run (h : Lives s) (hsound : Sound cfg s) {t : Nat} {rest : List Frame}
    (hstack : s.threads[t]? = some (frame :: rest)) (hran : Ran cfg s frame s' frames) :
    Lives (s'.start t (frames ++ rest)) := by
  cases hran with
  | quiet frame s' frames hsame hfollows hrest hholds =>
      exact h.of_sameRest hstack hsame.threads (fun next hnext => (hfollows next hnext).1.slot)
        hrest hsame.history hsame.issued hsame.indexArray (Nat.le_of_eq hsame.sessionKey.symm)
        hsame.sessionID hsame.armed hsame.live hsame.sessionCount
  | increment frame j frames hslot hfollows hrest hholds =>
      refine h.of_sameRest hstack rfl (fun next hnext => (hfollows next hnext).1.slot)
        hrest rfl rfl rfl (Nat.le_refl _) ?_ ?_ ?_ rfl
      · exact s.modify_field Session.sessionID j fun _ => by rfl
      · exact s.modify_field Session.armed j fun _ => by rfl
      · exact s.modify_field Session.live j fun _ => by rfl
  | decrement j direct frames hframes =>
      refine h.of_sameRest hstack rfl ?_ ?_ rfl rfl rfl (Nat.le_refl _) ?_ ?_ ?_ rfl
      · rcases hframes with rfl | rfl <;> simp [slot]
      · rcases hframes with rfl | rfl <;> exact ⟨rfl, rfl, rfl, rfl⟩
      · exact s.modify_field Session.sessionID j fun _ => by rfl
      · exact s.modify_field Session.armed j fun _ => by rfl
      · exact s.modify_field Session.live j fun _ => by rfl
  | post frame j message frames hslot hmessage harmed hfollows hrest hholds =>
      exact h.of_sameRest hstack rfl (fun next hnext => (hfollows next hnext).1.slot) hrest rfl rfl
        rfl (Nat.le_refl _) (fun _ => rfl) (fun _ => rfl) (fun _ => rfl) rfl
  | postIo frame j send buffers pending frames hslot hconfirmed hfollows hrest hholds =>
      refine h.of_sameRest hstack rfl (fun next hnext => (hfollows next hnext).1.slot)
        hrest rfl rfl rfl (Nat.le_refl _) ?_ ?_ ?_ rfl
      · exact s.modify_field Session.sessionID j fun _ => by rfl
      · exact s.modify_field Session.armed j fun _ => by rfl
      · exact s.modify_field Session.live j fun _ => by rfl
  | cas j hzero => exact h.cas hsound hstack hzero
  | uncount j =>
      refine h.hand (j := j) hstack rfl (by simp [slot]) rfl rfl rfl (fun _ _ => rfl)
        (fun _ _ => rfl) (fun _ ha => ha) (fun id hid hne => h.past id (hid ▸ hne)) ?_ ?_
      · intro harmed
        have := h.current j harmed
        simp only [weightAt, slot, if_true, List.map_cons, List.map_nil, List.sum_cons,
          List.sum_nil, entering, progress]
        omega
      · show s.sessionCount - 1 + 1 = s.sessionCount + 0
        omega
  | onRelease j => exact h.onRelease hsound hstack
  | push j => exact h.push hsound hstack
  | pop j rest hindex => exact h.pop hstack hindex
  | count j =>
      refine h.hand (j := j) hstack rfl (by simp [slot]) rfl rfl rfl (fun _ _ => rfl)
        (fun _ _ => rfl) (fun _ ha => ha) (fun id hid hne => h.past id (hid ▸ hne)) ?_ ?_
      · intro harmed
        have := h.current j harmed
        simp only [weightAt, slot, if_true, List.map_cons, List.map_nil, List.sum_cons,
          List.sum_nil, entering, progress]
        omega
      · show s.sessionCount + 1 + 0 = s.sessionCount + 1
        omega
  | identify j => exact h.identify hsound hstack
  | arm j => exact h.arm hsound hstack
  | nextKey j =>
      exact h.of_sameRest hstack rfl (by simp [slot]) ⟨rfl, rfl, rfl, rfl⟩ rfl rfl rfl
        (Nat.le_succ _) (fun _ => rfl) (fun _ => rfl) (fun _ => rfl) rfl
  | onAccept j => exact h.onAccept hsound hstack
  | timeOut regular now j session hexpired =>
      have htally : ∀ w i, (s.start t ([.disconnect session .inc,
          .sweep regular now (j + 1) .sessionID] ++ rest)).tally w i + weightAt w i _ = _ :=
        fun w i => tally_run _ hstack rfl w i
      refine h.of_same rfl rfl rfl (Nat.le_refl _) (fun _ => rfl) (fun _ => rfl) (fun _ => rfl)
        (fun i => ?_) (fun i => ?_) ?_
      · simpa [weightAt, entering] using htally entering i
      · simpa [weightAt, progress] using htally progress i
      · have := total_set_cons (w := counted)
          [.disconnect session .inc, .sweep regular now (j + 1) .sessionID] hstack
        simp only [List.map_cons, List.map_nil, List.sum_cons, List.sum_nil, counted,
          Nat.add_zero] at this
        show s.sessionCount - total counted (s.threads.set t _) = _
        rw [this]

/-- A frame that starts without weights keeps the lives. -/
theorem Lives.start (h : Lives s) (s' : ContentsServer) {t : Nat} {stack : List Frame}
    (hstack : s.threads[t]? = some stack) (hthreads : s'.threads = s.threads)
    (hhistory : s'.history = s.history) (hissued : s'.issued = s.issued)
    (hindex : s'.indexArray = s.indexArray) (hkey : s'.sessionKey = s.sessionKey)
    (hid : ∀ i, (s'.sessionArray i).sessionID = (s.sessionArray i).sessionID)
    (harmed : ∀ i, (s'.sessionArray i).armed = (s.sessionArray i).armed)
    (hlive : ∀ i, (s'.sessionArray i).live = (s.sessionArray i).live)
    (hcount : s'.sessionCount = s.sessionCount) (hentering : frame.entering = 0)
    (hprogress : frame.progress = 0) (hcounted : frame.counted = 0) :
    Lives (s'.start t (frame :: stack)) := by
  refine h.of_same hhistory hissued hindex (Nat.le_of_eq hkey.symm) hid harmed hlive
    (tally_start_zero hstack hthreads hentering) (tally_start_zero hstack hthreads hprogress) ?_
  have := total_set_append (w := counted) [frame] hstack
  simp only [List.singleton_append, List.map_cons, List.map_nil, List.sum_cons, List.sum_nil,
    hcounted, Nat.add_zero] at this
  show s'.sessionCount - total counted (s'.threads.set t (frame :: stack)) = _
  rw [hcount, hthreads, this]

/-- **A step keeps the lives.** -/
theorem Lives.step {step : Step} (h : Lives s) (hsound : Sound cfg s)
    (hstep : Served cfg s step s') : Lives s' := by
  cases hstep with
  | run t now outcome frame rest hstack =>
      exact h.run hsound hstack (runFrame_ran now outcome frame)
  | accept hstack =>
      exact h.start s hstack rfl rfl rfl rfl rfl (fun _ => rfl) (fun _ => rfl) (fun _ => rfl) rfl rfl
        rfl rfl
  | take t n message hstack hmessage =>
      cases message <;>
        exact h.start { s with queue := s.queue.eraseIdx n } hstack rfl rfl rfl rfl rfl
          (fun _ => rfl) (fun _ => rfl) (fun _ => rfl) rfl rfl rfl rfl
  | complete t i n io success hstack hio =>
      have hframe : (completionFrame i io success).entering = 0 ∧
          (completionFrame i io success).progress = 0 ∧
          (completionFrame i io success).counted = 0 := by
        refine completionFrame_cases i io success ?_ ?_ ?_ <;> exact ⟨rfl, rfl, rfl⟩
      refine h.start (s.modify i fun x => { x with io := x.io.eraseIdx n }) hstack rfl rfl
        rfl rfl rfl ?_ ?_ ?_ rfl hframe.1 hframe.2.1 hframe.2.2
      · exact s.modify_field Session.sessionID i fun _ => by rfl
      · exact s.modify_field Session.armed i fun _ => by rfl
      · exact s.modify_field Session.live i fun _ => by rfl
  | call t call stack hissued hstack =>
      cases call <;>
        exact h.start s hstack rfl rfl rfl rfl rfl (fun _ => rfl) (fun _ => rfl) (fun _ => rfl) rfl
          rfl rfl rfl
  | kick t i rest hstack =>
      exact h.start s hstack rfl rfl rfl rfl rfl (fun _ => rfl) (fun _ => rfl) (fun _ => rfl) rfl rfl
        rfl rfl
  | sweep regular now hstack =>
      exact h.start s hstack rfl rfl rfl rfl rfl (fun _ => rfl) (fun _ => rfl) (fun _ => rfl) rfl rfl
        rfl rfl

/-- **Both hold in every state reached** by a run whose sweeps disconnect accepted slots
only. -/
theorem sound_and_lives {others : Nat} {steps : List Step}
    (hok : Along (serverStep cfg) (SweepsAccepted cfg) (startedServer cfg others) steps)
    (h : exec (serverStep cfg) (startedServer cfg others) steps = some s) :
    Sound cfg s ∧ Lives s :=
  exec_invariant_along (I := fun s => Sound cfg s ∧ Lives s)
    (fun _ _ _ hs hok hstep => ⟨hs.1.step hok (serverStep_served hstep),
      hs.2.step hs.1 (serverStep_served hstep)⟩)
    ⟨sound_started cfg others, lives_started cfg others⟩ hok h

/-! ## The slot discipline -/

/-- **The slot discipline**, in a state. -/
structure Disciplined (s : ContentsServer) : Prop where
  /-- `_ioCount` is the I/O outstanding and the references the frames hold. -/
  account : ∀ i, (s.sessionArray i).ioCount = (s.sessionArray i).io.length + s.tally holds i
  /-- A session is accepted, released, reported to `OnRelease` and pushed back in this
  order, each at most once. -/
  ordered : ∀ id, s.history id <+: lifeCycle
  /-- The compare-exchange of `Release` succeeds for a session that has been accepted and
  not released, with no I/O outstanding and no reference held. -/
  release : ∀ (t i : Nat) (rest : List Frame),
    s.threads[t]? = some (Frame.release i .cas :: rest) → s.isZero i = true →
    s.history (s.sessionArray i).sessionID = [.onAccept] ∧ (s.sessionArray i).io = [] ∧
      ∀ frame, Present s.threads frame → frame.slot = some i → frame.holds = 0
  /-- While the body of `Release` runs, nothing is outstanding on the slot. -/
  body : ∀ (i : Nat) (pc : ReleasePc), Present s.threads (Frame.release i pc) → pc ≠ .cas →
    (s.sessionArray i).io = []
  nodup : s.indexArray.Nodup
  /-- The index of a session in use is not free. -/
  used : ∀ id, s.history id ≠ [] → s.history id ≠ lifeCycle → id.index ∉ s.indexArray
  /-- A slot has one session in use. -/
  unique : ∀ id id', s.history id ≠ [] → s.history id ≠ lifeCycle → s.history id' ≠ [] →
    s.history id' ≠ lifeCycle → id.index = id'.index → id = id'

/-- The sessions accepted and not yet released. -/
def ContentsServer.unreleased (s : ContentsServer) : List SessionID :=
  s.issued.filter fun id => s.history id = [.onAccept]

theorem Lives.mem_unreleased (h : Lives s) {id : SessionID} :
    id ∈ s.unreleased ↔ s.history id = [.onAccept] := by
  simp only [ContentsServer.unreleased, List.mem_filter, decide_eq_true_eq, and_iff_right_iff_imp]
  intro hone
  have hcount := h.issued id
  rw [hone, if_neg (by simp)] at hcount
  exact List.count_pos_iff.mp (by omega)

theorem Lives.nodup_unreleased (h : Lives s) : s.unreleased.Nodup := by
  refine List.Nodup.filter _ (List.nodup_iff_count_le_one.mpr fun id => ?_)
  rw [h.issued id]
  split <;> omega

theorem Sound.nodup (h : Sound cfg s) : s.indexArray.Nodup := by
  rw [List.nodup_iff_count_le_one]
  intro i
  have htoken := h.token i
  split at htoken <;> omega

/-- A session in use is the one its slot names. -/
theorem Lives.in_use (h : Lives s) {id : SessionID} (hsome : s.history id ≠ [])
    (hnot : s.history id ≠ lifeCycle) : id = (s.sessionArray id.index).sessionID := by
  by_contra hne
  rcases h.past id hne with hnil | hall
  · exact hsome hnil
  · exact hnot hall

theorem Lives.not_free (h : Lives s) (hsound : Sound cfg s) {id : SessionID}
    (hsome : s.history id ≠ []) (hnot : s.history id ≠ lifeCycle) :
    id.index ∉ s.indexArray := by
  intro hmem
  have hcurrent := h.current id.index (h.fresh id hsome).1
  rw [← h.in_use hsome hnot] at hcurrent
  have htoken := hsound.token id.index
  have hfree := List.count_pos_iff.mpr hmem
  have hlive : (s.sessionArray id.index).live = 0 := by split at htoken <;> omega
  have hprogress := Sound.progress_zero (s := s) (i := id.index) (by split at htoken <;> omega)
  have hentering := hsound.entering_zero hlive
  -- All four events of the session are past.
  refine hnot ?_
  rw [h.history_eq id, List.take_of_length_le]
  simp only [lifeCycle, List.length_cons, List.length_nil]
  omega

theorem Lives.disciplined (h : Lives s) (hsound : Sound cfg s) : Disciplined s where
  account := hsound.account
  ordered := h.ordered
  release := by
    intro t i rest hstack hzero
    obtain ⟨_, _, hone⟩ := h.accepted_of_isZero hsound hstack hzero
    simp only [ContentsServer.isZero, Bool.and_eq_true, beq_iff_eq] at hzero
    exact ⟨hone, hsound.unused hzero.2⟩
  body := by
    intro i pc hpresent hpc
    have howns : (Frame.release i pc).owns = 1 := by cases pc <;> first | rfl | exact absurd rfl hpc
    have hlive := (hsound.owner hpresent howns rfl).2.2.1
    by_contra hio
    have := hsound.posted i hio
    omega
  nodup := hsound.nodup
  used := fun _ => h.not_free hsound
  unique := by
    intro id id' hsome hnot hsome' hnot' hindex
    rw [h.in_use hsome hnot, h.in_use hsome' hnot', hindex]

theorem Lives.sessionCount_eq (h : Lives s) :
    s.sessionCount = s.unreleased.length + total counted s.threads := by
  rw [h.sessionCount, ContentsServer.unreleased, List.countP_eq_length_filter]

/-! ### Without the timeout thread -/

/-- A sweep of `TimeOutThread` begins. -/
def Step.isSweep : Step → Bool
  | .sweep _ _ => true
  | _ => false

/-- The frame is a sweep. -/
def Frame.isSweep : Frame → Bool
  | .sweep _ _ _ _ => true
  | _ => false

/-- A frame that takes the place of another is a sweep only where that is the same one. -/
theorem next_sweep {regular : Bool} {now : UInt64} {i : Nat} {pc : SweepPc}
    (h : Next s frame (.sweep regular now i pc)) : ∃ j pc', frame = .sweep regular now j pc' := by
  cases h with
  | sweepDFlag | sweepFirstRecv | sweepTime | sweepNext => exact ⟨_, _, rfl⟩

/-- A sweep under way after a step has begun with it or was under way before. -/
theorem Served.sweep_present {step : Step} {regular : Bool} {now : UInt64} {i : Nat} {pc : SweepPc}
    (hstep : Served cfg s step s') (hpresent : Present s'.threads (.sweep regular now i pc)) :
    step = .sweep regular now ∨ ∃ j pc', Present s.threads (.sweep regular now j pc') := by
  have hstart : ∀ {t : Nat} {stack : List Frame} {first : Frame},
      s.threads[t]? = some stack → first.isSweep = false →
      Present (s.threads.set t (first :: stack)) (.sweep regular now i pc) →
      ∃ j pc', Present s.threads (.sweep regular now j pc') := by
    intro t stack first hstack hfirst hother
    rcases Present.of_set_append [first] hstack hother with hnew | hold
    · rw [← List.mem_singleton.mp hnew] at hfirst
      simp [isSweep] at hfirst
    · exact ⟨i, pc, hold⟩
  cases hstep with
  | run t now' outcome frame rest hstack =>
      have hran : Ran cfg s frame _ _ := runFrame_ran now' outcome frame
      rw [ContentsServer.start, hran.threads] at hpresent
      rcases Present.of_set_cons hstack hpresent with hnew | ⟨hold, _⟩
      · obtain ⟨j, pc', rfl⟩ := next_sweep (runFrame_next hnew)
        exact Or.inr ⟨j, pc', present_of_getElem? hstack List.mem_cons_self⟩
      · exact Or.inr ⟨i, pc, hold⟩
  | accept hstack => exact Or.inr (hstart hstack rfl hpresent)
  | take t n message hstack hmessage =>
      cases message <;> exact Or.inr (hstart hstack rfl hpresent)
  | complete t i n io success hstack hio =>
      refine Or.inr (hstart hstack ?_ hpresent)
      exact completionFrame_cases i io success rfl rfl rfl
  | call t call stack hissued hstack => cases call <;> exact Or.inr (hstart hstack rfl hpresent)
  | kick t i rest hstack => exact Or.inr (hstart hstack rfl hpresent)
  | sweep regular' now' hstack =>
      rcases Present.of_set_append [_] hstack hpresent with hnew | hold
      · rw [List.mem_singleton, Frame.sweep.injEq] at hnew
        rw [hnew.1, hnew.2.1]
        exact Or.inl rfl
      · exact Or.inr ⟨i, pc, hold⟩

/-- No sweep is under way. -/
def Unswept (s : ContentsServer) : Prop :=
  ∀ frame, Present s.threads frame → frame.isSweep = false

theorem Unswept.step {step : Step} (h : Unswept s) (hnot : step.isSweep = false)
    (hstep : Served cfg s step s') : Unswept s' := by
  intro frame hpresent
  cases frame with
  | sweep regular now i pc =>
      rcases hstep.sweep_present hpresent with rfl | ⟨_, _, hold⟩
      · simp [Step.isSweep] at hnot
      · have hnone := h _ hold
        simp [isSweep] at hnone
  | _ => rfl

/-- Without `TimeOutThread` no sweep disconnects anything. -/
theorem unswept_along {others : Nat} {steps : List Step}
    (hsteps : ∀ step ∈ steps, step.isSweep = false) :
    Along (serverStep cfg) (SweepsAccepted cfg) (startedServer cfg others) steps := by
  refine along_of_invariant (I := Unswept) (P := fun step => step.isSweep = false) ?_ ?_ ?_ hsteps
  · intro s step hs _
    unfold SweepsAccepted
    split
    · split
      · rename_i regular now i session rest hstack
        have := hs (.sweep regular now i (.time session)) (present_of_getElem? hstack (by simp))
        simp [isSweep] at this
      · trivial
    · trivial
  · intro s step s' hs hnot hstep
    exact hs.step hnot (serverStep_served hstep)
  · exact fun frame hpresent => absurd hpresent (not_present_started cfg others frame)

/-- **The slot discipline holds in every run without the timeout thread**, and at rest
`_sessionCount` is the number of sessions accepted and not yet released. -/
theorem slots_disciplined (cfg : Config) (others : Nat) (steps : List Step) (s : ContentsServer)
    (hsteps : ∀ step ∈ steps, step.isSweep = false)
    (h : exec (serverStep cfg) (startedServer cfg others) steps = some s) :
    Disciplined s ∧ s.unreleased.Nodup ∧
      (∀ id, id ∈ s.unreleased ↔ s.history id = [.onAccept]) ∧
      ((∀ stack ∈ s.threads, stack = []) → s.sessionCount = s.unreleased.length) := by
  obtain ⟨hsound, hlives⟩ := sound_and_lives (unswept_along hsteps) h
  refine ⟨hlives.disciplined hsound, hlives.nodup_unreleased, fun _ => hlives.mem_unreleased,
    fun hrest => ?_⟩
  have hzero : total counted s.threads = 0 := by
    refine total_eq_zero ?_
    rintro frame ⟨stack, hstack, hframe⟩
    rw [hrest stack hstack] at hframe
    simp at hframe
  have := hlives.sessionCount_eq
  omega

/-- A thread runs for a number of steps, with every I/O pending. -/
def runs (t n : Nat) : List Step := List.replicate n (.run t 0 .pending)

/-- One slot, and the two timeouts of the server's configuration in seconds. -/
def oneSlot : Config := ⟨1, 10, 60, 1⟩

/-- A client is accepted. -/
def accepts : List Step := .accept :: runs 0 16

/-- The receive of the client fails, and worker 2 releases its session in `n` steps. -/
def releases (n : Nat) : List Step := .complete 2 0 0 false :: runs 2 3 ++ .take 2 0 :: runs 2 n

/-- A client connects, its receive fails, and its session is released. -/
def oneLife : List Step :=
  .accept :: runs 0 16 ++ .complete 2 0 0 false :: runs 2 3 ++ .take 2 0 :: runs 2 9

theorem oneLife_disciplined :
    ∃ s, exec (serverStep oneSlot) (startedServer oneSlot 1) oneLife = some s ∧ Disciplined s ∧
      s.history ⟨0, 1⟩ = lifeCycle ∧ s.sessionCount = s.unreleased.length := by
  have hrun : (∀ step ∈ oneLife, step.isSweep = false) ∧
      (exec (serverStep oneSlot) (startedServer oneSlot 1) oneLife).map
        (fun s => (s.history ⟨0, 1⟩, s.threads)) = some (lifeCycle, [[], [], []]) := by
    decide +kernel
  obtain ⟨s, hs, heq⟩ := Option.map_eq_some_iff.mp hrun.2
  rw [Prod.mk.injEq] at heq
  have hdisciplined := slots_disciplined oneSlot 1 oneLife s hrun.1 hs
  exact ⟨s, hs, hdisciplined.1, heq.1, hdisciplined.2.2.2 (by simp [heq.2])⟩

/-! ### With it -/

/-- **Where a sweep disconnects accepted slots only**, the slot discipline holds in every
run, and `_sessionCount` is never negative. -/
theorem sweeps_disciplined (cfg : Config) (others : Nat) (steps : List Step) (s : ContentsServer)
    (hok : Along (serverStep cfg) (SweepsAccepted cfg) (startedServer cfg others) steps)
    (h : exec (serverStep cfg) (startedServer cfg others) steps = some s) :
    Disciplined s ∧ 0 ≤ s.sessionCount := by
  obtain ⟨hsound, hlives⟩ := sound_and_lives hok h
  refine ⟨hlives.disciplined hsound, ?_⟩
  have := hlives.sessionCount_eq
  omega

/-- A client connects and never sends; a sweep disconnects it. -/
def idleClient : List Step :=
  .accept :: runs 0 16 ++ .sweep false 100000 :: runs 1 9

theorem idleClient_disciplined :
    ∃ s, exec (serverStep oneSlot) (startedServer oneSlot 1) idleClient = some s ∧
      Disciplined s ∧ 0 ≤ s.sessionCount ∧ (s.sessionArray 0).dFlag = true := by
  have hrun : Along (serverStep oneSlot) (SweepsAccepted oneSlot) (startedServer oneSlot 1)
        idleClient ∧
      (exec (serverStep oneSlot) (startedServer oneSlot 1) idleClient).map
        (fun s => (s.sessionArray 0).dFlag) = some true := by
    decide +kernel
  obtain ⟨s, hs, hflag⟩ := Option.map_eq_some_iff.mp hrun.2
  have hdisciplined := sweeps_disciplined oneSlot 1 idleClient s hrun.1 hs
  exact ⟨s, hs, hdisciplined.1, hdisciplined.2, hflag⟩

/-- A sweep meets two slots that were never accepted: the session ID both hold is that of
slot 0, which is released. -/
def sweptUnused : List Step :=
  .sweep false 100000 :: runs 1 11 ++ .take 2 0 :: runs 2 9

theorem sweptUnused_pushes_twice :
    ∃ s, exec (serverStep ⟨2, 10, 60, 1⟩) (startedServer ⟨2, 10, 60, 1⟩ 1) sweptUnused = some s ∧
      ¬ s.indexArray.Nodup ∧ s.sessionCount < 0 := by
  have hrun : (exec (serverStep ⟨2, 10, 60, 1⟩) (startedServer ⟨2, 10, 60, 1⟩ 1) sweptUnused).map
      (fun s => (s.indexArray, s.sessionCount)) = some ([0, 0, 1], -1) := by decide +kernel
  obtain ⟨s, hs, heq⟩ := Option.map_eq_some_iff.mp hrun
  rw [Prod.mk.injEq] at heq
  exact ⟨s, hs, by rw [heq.1]; decide, by omega⟩

end SessionServer.ContentLib
