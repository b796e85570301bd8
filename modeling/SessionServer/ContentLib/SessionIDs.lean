/-
  ContentLib/SessionIDs.lean --- the 64-bit words that session IDs are.

  `AcceptThread` packs the slot index above bit 48 of `_sessionKey`, and `FindSession`
  shifts it back.  The run keeps a list of the IDs that have been built.
-/
import SessionServer.ContentLib.CancelRun

set_option autoImplicit false

namespace SessionServer.ContentLib

open SessionServer.Foundation ContentLib.Frame

/-! ## Words -/

/-- `_sessionKey | temp << 48`. -/
def SessionID.word (id : SessionID) : Int64 :=
  Int64.ofNat id.key ||| (Int32.ofNat id.index).toInt64 <<< 48

/-- `FindSession`, on the word. -/
def findSessionOf (tgtID : Int64) : Int32 := (tgtID >>> 48).toInt32

section

variable {id id' : SessionID}

/-- The index and the key do not overlap, and the sign bit is clear. -/
theorem word_toInt (hindex : id.index < 2 ^ 15) (hkey : id.key < 2 ^ 48) :
    id.word.toInt = id.index * 2 ^ 48 + id.key := by
  have htemp : (Int32.ofNat id.index).toInt64 = Int64.ofNat id.index := by
    apply Int64.toInt.inj
    rw [Int32.toInt_toInt64, Int32.toInt_ofNat_of_lt (by omega), Int64.toInt_ofNat_of_lt (by omega)]
  have hcount : (48 : Int64).toBitVec.smod 64 = 48#64 := by decide
  have hnat : id.word.toBitVec.toNat = id.index * 2 ^ 48 + id.key := by
    have hshifted : (id.index % 2 ^ 64) <<< 48 % 2 ^ 64 = id.index <<< 48 := by
      rw [Nat.shiftLeft_eq, Nat.shiftLeft_eq]
      omega
    rw [SessionID.word, htemp, Int64.toBitVec_or, Int64.toBitVec_shiftLeft, hcount,
      Int64.toBitVec_ofNat', Int64.toBitVec_ofNat', BitVec.shiftLeft_eq', BitVec.toNat_or,
      BitVec.toNat_shiftLeft, BitVec.toNat_ofNat, BitVec.toNat_ofNat, BitVec.toNat_ofNat,
      Nat.mod_eq_of_lt (a := 48) (by decide), hshifted, Nat.mod_eq_of_lt (by omega), Nat.or_comm,
      ← Nat.shiftLeft_add_eq_or_of_lt hkey, Nat.shiftLeft_eq]
  rw [← Int64.toInt_toBitVec, BitVec.toInt_eq_toNat_of_lt (by omega), hnat]
  push_cast
  rfl

/-- **`FindSession` returns the index.** -/
theorem findSession_word (hindex : id.index < 2 ^ 15) (hkey : id.key < 2 ^ 48) :
    (findSessionOf id.word).toInt = findSession id := by
  have hword := word_toInt hindex hkey
  have hcount : (48 : Int64).toBitVec.smod 64 = 48#64 := by decide
  have hshift : (id.word >>> 48).toInt = id.index := by
    rw [← Int64.toInt_toBitVec, Int64.toBitVec_shiftRight, hcount, BitVec.sshiftRight_eq',
      BitVec.toInt_sshiftRight, Int64.toInt_toBitVec, hword, Int.shiftRight_eq_div_pow]
    norm_num
    omega
  rw [findSessionOf, Int64.toInt_toInt32, hshift, findSession]
  exact Int.bmod_eq_of_le (by omega) (by omega)

/-- Two words are equal if the indexes and the keys are. -/
theorem word_inj (hindex : id.index < 2 ^ 15) (hkey : id.key < 2 ^ 48)
    (hindex' : id'.index < 2 ^ 15) (hkey' : id'.key < 2 ^ 48) (h : id.word = id'.word) :
    id = id' := by
  have hword := congrArg Int64.toInt h
  rw [word_toInt hindex hkey, word_toInt hindex' hkey'] at hword
  have hsame : id.index = id'.index ∧ id.key = id'.key := by omega
  cases id
  cases id'
  simp_all

end

/-! ## The IDs of a run -/

/-- The server, and the session IDs that `AcceptThread` has built. -/
structure Roll where
  server : ContentsServer
  built : List SessionID

/-- The session ID a step builds. -/
def ContentsServer.builds (s : ContentsServer) (step : Step) : Option SessionID :=
  match s.top step with
  | some (.accept i .sessionID) => some ⟨i, s.sessionKey⟩
  | _ => none

def rollStep (cfg : Config) (r : Roll) (step : Step) : Option Roll :=
  (serverStep cfg r.server step).map fun server =>
    ⟨server, r.built ++ (r.server.builds step).toList⟩

def startedRoll (cfg : Config) (others : Nat) : Roll := ⟨startedServer cfg others, []⟩

variable {cfg : Config} {s s' : ContentsServer} {frame next : Frame} {frames : List Frame}
  {i t : Nat} {rest : List Frame}

theorem builds_run (hstack : s.threads[t]? = some (frame :: rest)) (now : UInt64)
    (outcome : Outcome) {id : SessionID} :
    s.builds (.run t now outcome) = some id ↔
      ∃ i, frame = .accept i .sessionID ∧ id = ⟨i, s.sessionKey⟩ := by
  simp only [ContentsServer.builds, ContentsServer.top, hstack, Option.bind_some, List.head?_cons]
  split
  · rename_i i heq
    obtain rfl := Option.some.inj heq
    simp [eq_comm]
  · rename_i hnot
    constructor
    · simp
    · rintro ⟨i, rfl, -⟩
      exact absurd rfl (hnot i)

theorem builds_start {step : Step} (h : ∀ t now outcome, step ≠ .run t now outcome) :
    s.builds step = none := by
  cases step with
  | run t now outcome => exact absurd rfl (h t now outcome)
  | _ => rfl

/-! ## What a step does to indexes and keys -/

/-- An index that is pushed is that of the session of a slot. -/
theorem Ran.index (h : Ran cfg s frame s' frames) (hi : i ∈ s'.indexArray) :
    i ∈ s.indexArray ∨ ∃ j, i = (s.sessionArray j).sessionID.index := by
  cases h with
  | quiet frame s' frames hsame hfollows hrest hholds => exact Or.inl (hsame.indexArray ▸ hi)
  | push j =>
      rcases List.mem_cons.mp hi with rfl | hold
      · exact Or.inr ⟨j, rfl⟩
      · exact Or.inl hold
  | pop j rest hindex => exact Or.inl (hindex ▸ List.mem_cons_of_mem j hi)
  | _ => exact Or.inl hi

/-- `_sessionKey` is incremented by `AcceptThread` only. -/
theorem Ran.sessionKey_eq (h : Ran cfg s frame s' frames) :
    s'.sessionKey = s.sessionKey ∨
      ∃ i, frame = .accept i .sessionKey ∧ s'.sessionKey = s.sessionKey + 1 ∧
        frames = [.accept i .onAccept] := by
  cases h with
  | quiet frame s' frames hsame hfollows hrest hholds => exact Or.inl hsame.sessionKey
  | nextKey j => exact Or.inr ⟨j, rfl, rfl, rfl⟩
  | _ => exact Or.inl rfl

/-- `AcceptThread` keeps its slot. -/
theorem Next.accept {pc : AcceptPc} (h : Next s frame (.accept i pc)) :
    frame = .pop ∨ ∃ pc', frame = .accept i pc' := by
  cases h <;> first | exact Or.inl rfl | exact Or.inr ⟨_, rfl⟩

theorem Next.naming (h : Next s frame next) (hnaming : next.naming = true) :
    frame.naming = true ∨ ∃ i, frame = .accept i .sessionID := by
  cases h <;> first | exact Or.inl rfl | exact Or.inr ⟨_, rfl⟩ | simp [Frame.naming] at hnaming

/-- The slot of a client comes from `_indexArray`. -/
theorem mem_of_pop {now : UInt64} {outcome : Outcome} {pc : AcceptPc}
    (h : .accept i pc ∈ (s.runFrame cfg now outcome .pop).2) : i ∈ s.indexArray := by
  simp only [ContentsServer.runFrame, ContentsServer.popStep] at h
  split at h
  · simp at h
  · rename_i j rest hindex
    simp only [List.mem_singleton, Frame.accept.injEq] at h
    rw [hindex, h.1]
    exact List.mem_cons_self

/-! ## Numbering -/

/-- The indexes are below `2 ^ 15`, and the keys are distinct and at most the number of
accepts. -/
structure Numbered (r : Roll) : Prop where
  indexes : ∀ i ∈ r.server.indexArray, i < 2 ^ 15
  slots : ∀ i, (r.server.sessionArray i).sessionID.index < 2 ^ 15
  frames : ∀ (i : Nat) (pc : AcceptPc), Present r.server.threads (.accept i pc) → i < 2 ^ 15
  positive : 0 < r.server.sessionKey
  upper : r.server.sessionKey ≤ r.built.length + 1
  stored : ∀ frame, Present r.server.threads frame → frame.naming = true →
    r.server.sessionKey ≤ r.built.length
  built : ∀ id ∈ r.built, id.index < 2 ^ 15 ∧ 0 < id.key ∧ id.key ≤ r.built.length
  given : ∀ id ∈ r.built, GivenOut r.server id
  distinct : (r.built.map SessionID.key).Nodup

theorem numbered_started (others : Nat) (hmax : cfg.maxUser ≤ 32768) :
    Numbered (startedRoll cfg others) where
  indexes i hi := by
    have hlt := List.mem_range.mp hi
    omega
  slots _ := by simp [startedRoll, startedServer, emptySession]
  frames i pc hpresent := absurd hpresent (not_present_started cfg others _)
  positive := by simp [startedRoll, startedServer]
  upper := by simp [startedRoll, startedServer]
  stored frame hpresent _ := absurd hpresent (not_present_started cfg others _)
  built := by simp [startedRoll]
  given := by simp [startedRoll]
  distinct := by simp [startedRoll]

/-- The roll after a step. -/
def Roll.after (r : Roll) (step : Step) (server : ContentsServer) : Roll :=
  ⟨server, r.built ++ (r.server.builds step).toList⟩

/-- While a session ID is built, its key is above those of all the others. -/
theorem Numbered.above {r : Roll} (h : Numbered r) (hsingle : Single r.server)
    (hstack : r.server.threads[t]? = some (.accept i .sessionID :: rest)) {id : SessionID}
    (hid : id ∈ r.built) : id.key < r.server.sessionKey := by
  rcases h.given id hid with hlt | ⟨_, other, hother, hnaming⟩
  · exact hlt
  · rw [hsingle.only hstack rfl hother (naming_accepting hnaming)] at hnaming
    simp [naming] at hnaming

/-- A step that runs a frame. -/
theorem Numbered.run {r : Roll} (h : Numbered r) (hsingle : Single r.server)
    (hstack : r.server.threads[t]? = some (frame :: rest)) (now : UInt64) (outcome : Outcome)
    (hafter : Single ((r.server.runFrame cfg now outcome frame).1.start t
      ((r.server.runFrame cfg now outcome frame).2 ++ rest))) :
    Numbered (r.after (.run t now outcome) ((r.server.runFrame cfg now outcome frame).1.start t
      ((r.server.runFrame cfg now outcome frame).2 ++ rest))) := by
  have hran : Ran cfg r.server frame _ _ := runFrame_ran now outcome frame
  have hframe := present_of_getElem? hstack List.mem_cons_self
  have hlength : r.built.length ≤
      (r.built ++ (r.server.builds (.run t now outcome)).toList).length := by simp
  have hnew : ∀ id, r.server.builds (.run t now outcome) = some id →
      id.index < 2 ^ 15 ∧ id.key = r.server.sessionKey ∧
        ∃ i, frame = .accept i .sessionID := by
    intro id hbuilds
    obtain ⟨j, rfl, rfl⟩ := (builds_run hstack now outcome).mp hbuilds
    exact ⟨h.frames j _ hframe, rfl, j, rfl⟩
  constructor
  · intro i hi
    rcases hran.index hi with hold | ⟨j, rfl⟩
    · exact h.indexes i hold
    · exact h.slots j
  · intro i
    rcases hran.sessionID i with hsame | ⟨rfl, hid, _⟩
    · simp only [Roll.after, ContentsServer.start]
      rw [hsame]
      exact h.slots i
    · simp only [Roll.after, ContentsServer.start]
      rw [hid]
      exact h.frames i _ hframe
  · intro i pc hpresent
    simp only [Roll.after, ContentsServer.start, hran.threads] at hpresent
    rcases Present.of_set_cons hstack hpresent with hnext | ⟨hold, _⟩
    · rcases (runFrame_next hnext).accept with rfl | ⟨pc', rfl⟩
      · exact h.indexes i (mem_of_pop hnext)
      · exact h.frames i pc' hframe
    · exact h.frames i pc hold
  · exact Nat.lt_of_lt_of_le h.positive hran.sessionKey
  · -- the key that `_sessionKey` is incremented from has been built
    rcases hran.sessionKey_eq with hsame | ⟨i, rfl, hkey, _⟩
    · simp only [Roll.after, ContentsServer.start]
      rw [hsame]
      exact Nat.le_trans h.upper (Nat.add_le_add_right hlength 1)
    · have hstored := h.stored _ hframe rfl
      simp only [Roll.after, ContentsServer.start]
      omega
  · intro other hother hnaming
    rcases hran.sessionKey_eq with hsame | ⟨i, rfl, _, hframes⟩
    · simp only [Roll.after, ContentsServer.start, hran.threads] at hother
      simp only [Roll.after, ContentsServer.start]
      rw [hsame]
      rcases Present.of_set_cons hstack hother with hnext | ⟨hold, _⟩
      · rcases (runFrame_next hnext).naming hnaming with hbefore | ⟨i, rfl⟩
        · exact Nat.le_trans (h.stored _ hframe hbefore) hlength
        · rw [(builds_run hstack now outcome).mpr ⟨i, rfl, rfl⟩]
          simpa using h.upper
      · exact Nat.le_trans (h.stored _ hold hnaming) hlength
    · -- after the increment the accept does not name a session any more
      rw [hframes] at hafter
      have hself : ((r.server.runFrame cfg now outcome (.accept i .sessionKey)).1.start t
          ([.accept i .onAccept] ++ rest)).threads[t]? = some (.accept i .onAccept :: rest) := by
        rw [ContentsServer.start, hran.threads]
        exact List.getElem?_set_self (List.getElem?_eq_some_iff.mp hstack).1
      have honly := hafter.only hself rfl (hframes ▸ hother) (naming_accepting hnaming)
      rw [honly] at hnaming
      simp [naming] at hnaming
  · intro id hid
    rcases List.mem_append.mp hid with hold | hmem
    · obtain ⟨hindex, hpositive, hkey⟩ := h.built id hold
      exact ⟨hindex, hpositive, Nat.le_trans hkey hlength⟩
    · have hbuilds := Option.mem_toList.mp hmem
      obtain ⟨hindex, hkey, _⟩ := hnew id hbuilds
      refine ⟨hindex, hkey ▸ h.positive, ?_⟩
      rw [Roll.after, Option.mem_def.mp hbuilds, hkey]
      simpa using h.upper
  · intro id hid
    rcases List.mem_append.mp hid with hold | hmem
    · exact (h.given id hold).run hstack now outcome
    · obtain ⟨_, hkey, i, rfl⟩ := hnew id (Option.mem_toList.mp hmem)
      rcases hran.sessionKey_eq with hsame | ⟨_, hframe, _⟩
      · refine Or.inr ⟨hkey.trans hsame.symm, .accept i .time, ?_, rfl⟩
        simp only [Roll.after, ContentsServer.start, hran.threads]
        exact Present.added hstack List.mem_cons_self
      · simp at hframe
  · simp only [Roll.after, List.map_append]
    refine List.nodup_append.mpr ⟨h.distinct, ?_, ?_⟩
    · cases r.server.builds (.run t now outcome) <;> simp
    · intro key hold key' hmem
      obtain ⟨id, hid, rfl⟩ := List.mem_map.mp hold
      obtain ⟨id', hid', rfl⟩ := List.mem_map.mp hmem
      obtain ⟨_, hkey, i, rfl⟩ := hnew id' (Option.mem_toList.mp hid')
      have habove := h.above hsingle hstack hid
      omega

/-- A step that starts a function. -/
theorem Numbered.start {r : Roll} (h : Numbered r) {step : Step} {stack : List Frame}
    {first : Frame} {u : ContentsServer} (hnot : ∀ t now outcome, step ≠ .run t now outcome)
    (hstack : r.server.threads[t]? = some stack) (hbegan : Began r.server u first)
    (hkey : u.sessionKey = r.server.sessionKey) :
    Numbered (r.after step (u.start t (first :: stack))) := by
  have hother : ∀ frame, Present (r.server.threads.set t ([first] ++ stack)) frame →
      frame = first ∨ Present r.server.threads frame := fun frame hpresent =>
    (Present.of_set_append [first] hstack hpresent).imp List.mem_singleton.mp id
  have hbegins := hbegan.begins
  rw [Roll.after, builds_start hnot, Option.toList_none, List.append_nil]
  constructor
  · simp only [ContentsServer.start, hbegan.indexArray]
    exact h.indexes
  · intro i
    obtain ⟨io, _, hsession⟩ := hbegan.session i
    simp only [ContentsServer.start, hsession]
    exact h.slots i
  · intro i pc hpresent
    simp only [ContentsServer.start, hbegan.threads] at hpresent
    rcases hother _ hpresent with rfl | hold
    · simp [Frame.begins] at hbegins
    · exact h.frames i pc hold
  · simp only [ContentsServer.start, hkey]
    exact h.positive
  · simp only [ContentsServer.start, hkey]
    exact h.upper
  · intro frame hpresent hnaming
    simp only [ContentsServer.start, hbegan.threads, hkey] at hpresent ⊢
    rcases hother _ hpresent with rfl | hold
    · obtain ⟨i, pc, rfl⟩ : ∃ i pc, frame = .accept i pc := by
        unfold naming at hnaming
        split at hnaming <;> first | exact ⟨_, _, rfl⟩ | simp at hnaming
      simp [Frame.begins] at hbegins
    · exact h.stored frame hold hnaming
  · exact h.built
  · exact fun id hid => hbegan.givenOut hkey hstack (h.given id hid)
  · exact h.distinct

theorem Numbered.step {r : Roll} {step : Step} (h : Numbered r) (hsingle : Single r.server)
    (hstep : Served cfg r.server step s') : Numbered (r.after step s') := by
  have hkey := hstep.sessionKey
  have hafter := hsingle.step hstep
  revert hkey hafter
  refine hstep.cases_run (P := fun s' => ((∀ t now outcome, step ≠ .run t now outcome) →
    s'.sessionKey = r.server.sessionKey) → Single s' → Numbered (r.after step s')) ?_ ?_
  · rintro t now outcome frame rest rfl hstack - hafter
    exact h.run hsingle hstack now outcome hafter
  · intro t stack first u hnot hstack _ hbegan hkey _
    exact h.start hnot hstack hbegan (hkey hnot)

/-! ## The number of accepts -/

/-- `accept` returns. -/
def Step.accepts : Step → Bool
  | .accept => true
  | _ => false

/-- A client without a session ID. -/
def Frame.unnamed : Frame → Nat
  | pop => 1
  | accept _ .sessionCount => 1
  | accept _ .clear => 1
  | accept _ .clearTake => 1
  | accept _ (.clearDrop _) => 1
  | accept _ .clearRestore => 1
  | accept _ .sessionID => 1
  | _ => 0

theorem unnamed_le_accepting (frame : Frame) : frame.unnamed ≤ frame.accepting := by
  unfold Frame.unnamed
  split <;> first | exact Nat.le_refl _ | exact Nat.zero_le _

theorem Next.unnamed (h : Next s frame next) (hzero : frame.unnamed = 0) : next.unnamed = 0 := by
  cases h <;> first | rfl | simp [Frame.unnamed] at hzero

/-- A step of a frame names its client or leaves it unnamed, and not both. -/
theorem runFrame_unnamed (hstack : s.threads[t]? = some (frame :: rest)) (now : UInt64)
    (outcome : Outcome) :
    ((s.runFrame cfg now outcome frame).2.map unnamed).sum +
      (s.builds (.run t now outcome)).toList.length ≤ frame.unnamed := by
  have hsum : ((s.runFrame cfg now outcome frame).2.map unnamed).sum ≤
      ((s.runFrame cfg now outcome frame).2.map accepting).sum :=
    List.sum_le_sum fun next _ => unnamed_le_accepting next
  have haccepting := @runFrame_accepting cfg s now outcome frame
  cases hbuilds : s.builds (.run t now outcome) with
  | some id =>
      obtain ⟨i, rfl, _⟩ := (builds_run hstack now outcome).mp hbuilds
      exact Nat.le_refl 1
  | none =>
      rw [Option.toList_none, List.length_nil, Nat.add_zero]
      by_cases hzero : frame.unnamed = 0
      · rw [hzero, Nat.le_zero]
        exact sum_map_zero fun next hnext => (runFrame_next hnext).unnamed hzero
      · have hone : frame.accepting ≤ frame.unnamed := by
          cases frame with
          | pop => exact Nat.le_refl 1
          | accept i pc =>
              exact Nat.one_le_iff_ne_zero.mpr hzero
          | _ => simp [unnamed] at hzero
        omega

/-- The IDs that have been built and the clients without one are at most the accepts. -/
theorem Served.unnamed {step : Step} (h : Served cfg s step s') :
    total Frame.unnamed s'.threads + (s.builds step).toList.length ≤
      total Frame.unnamed s.threads + [step].countP Step.accepts := by
  have hquiet : ∀ (step : Step) (first : Frame) (t : Nat) (stack : List Frame),
      s.builds step = none → first.unnamed = 0 → s.threads[t]? = some stack →
      total Frame.unnamed (s.threads.set t (first :: stack)) + (s.builds step).toList.length ≤
        total Frame.unnamed s.threads + [step].countP Step.accepts := by
    intro step first t stack hbuilds hfirst hstack
    have htotal := total_set_append (w := Frame.unnamed) [first] hstack
    rw [List.map_singleton, List.sum_singleton, hfirst] at htotal
    rw [hbuilds, Option.toList_none, List.length_nil]
    simp only [List.singleton_append] at htotal
    omega
  cases h with
  | run t now outcome frame rest hstack =>
      have hran : Ran cfg s frame _ _ := runFrame_ran now outcome frame
      have hframes : ((s.runFrame cfg now outcome frame).2.map Frame.unnamed).sum + _ ≤ _ :=
        runFrame_unnamed hstack now outcome
      have htotal := total_set_cons (w := Frame.unnamed) (s.runFrame cfg now outcome frame).2 hstack
      simp only [ContentsServer.start, hran.threads]
      omega
  | accept hstack =>
      have htotal := total_set_append (w := Frame.unnamed) [.pop] hstack
      rw [List.map_singleton, List.sum_singleton] at htotal
      exact Nat.le_of_eq htotal
  | take t n message hstack hmessage =>
      refine hquiet _ message.frame t [] rfl ?_ hstack
      cases message <;> rfl
  | complete t i n io success hstack hio =>
      refine hquiet _ (completionFrame i io success) t [] rfl ?_ hstack
      exact completionFrame_cases i io success rfl rfl rfl
  | call t call stack hissued hstack htop =>
      refine hquiet _ call.frame t stack rfl ?_ hstack
      cases call <;> rfl
  | kick t i rest hstack => exact hquiet _ _ t _ rfl rfl hstack
  | sweep regular now hstack => exact hquiet _ _ 1 [] rfl rfl hstack

/-- No more IDs are built than `accept` has returned clients. -/
theorem built_le_accepts {steps : List Step} {r r' : Roll}
    (h : exec (rollStep cfg) r steps = some r') :
    total unnamed r'.server.threads + r'.built.length ≤
      total unnamed r.server.threads + r.built.length + steps.countP Step.accepts := by
  induction steps generalizing r with
  | nil =>
      rw [exec_nil, Option.some.injEq] at h
      subst h
      simp
  | cons step steps ih =>
      obtain ⟨m, hm, hrest⟩ := exec_cons_eq_some.mp h
      obtain ⟨server, hserver, rfl⟩ := Option.map_eq_some_iff.mp hm
      have hstep := (serverStep_served hserver).unnamed
      have hlater := ih hrest
      have hcount : ([step] ++ steps).countP Step.accepts =
          [step].countP Step.accepts + steps.countP Step.accepts := List.countP_append
      rw [List.singleton_append] at hcount
      simp only [List.length_append] at hlater
      omega

/-- **Session IDs identify slot and life**: in a run of fewer than `2 ^ 48` accepts the IDs
are positive and distinct, and `FindSession` returns the slot of each. -/
theorem sessionIDs_of_run (cfg : Config) (hmax : cfg.maxUser ≤ 32768) (others : Nat)
    (steps : List Step) (haccepts : steps.countP Step.accepts < 2 ^ 48) (r : Roll)
    (h : exec (rollStep cfg) (startedRoll cfg others) steps = some r) :
    (∀ id ∈ r.built, id.word ≠ 0 ∧ 0 ≤ id.word ∧ (findSessionOf id.word).toInt = id.index) ∧
      (r.built.map SessionID.word).Nodup := by
  have hinv : Single r.server ∧ Numbered r := by
    refine exec_invariant (I := fun r => Single r.server ∧ Numbered r) ?_
      ⟨single_started cfg others, numbered_started others hmax⟩ h
    rintro r step r' ⟨hsingle, hnumbered⟩ hstep
    obtain ⟨server, hserver, rfl⟩ := Option.map_eq_some_iff.mp hstep
    have hserved := serverStep_served hserver
    exact ⟨hsingle.step hserved, hnumbered.step hsingle hserved⟩
  have hlength : r.built.length < 2 ^ 48 := by
    have hle := built_le_accepts h
    have hstart : total unnamed (startedRoll cfg others).server.threads = 0 :=
      total_replicate_nil (2 + others)
    rw [hstart, startedRoll, List.length_nil] at hle
    omega
  have hbounds : ∀ id ∈ r.built, id.index < 2 ^ 15 ∧ 0 < id.key ∧ id.key < 2 ^ 48 := by
    intro id hid
    obtain ⟨hindex, hpositive, hkey⟩ := hinv.2.built id hid
    exact ⟨hindex, hpositive, Nat.lt_of_le_of_lt hkey hlength⟩
  refine ⟨fun id hid => ?_, ?_⟩
  · obtain ⟨hindex, hpositive, hkey⟩ := hbounds id hid
    have hword := word_toInt hindex hkey
    refine ⟨?_, ?_, ?_⟩
    · intro hzero
      rw [hzero, Int64.toInt_zero] at hword
      omega
    · rw [Int64.le_iff_toInt_le, hword, Int64.toInt_zero]
      omega
    · rw [findSession_word hindex hkey, findSession]
  · refine (List.Nodup.of_map _ hinv.2.distinct).map_on ?_
    intro id hid id' hid' hsame
    obtain ⟨hindex, _, hkey⟩ := hbounds id hid
    obtain ⟨hindex', _, hkey'⟩ := hbounds id' hid'
    exact word_inj hindex hkey hindex' hkey' hsame

/-- A slot is used for a second client. -/
theorem reusedSlot_sessionIDs :
    ∃ r, exec (rollStep oneSlot) (startedRoll oneSlot 1) (oneLife ++ accepts) = some r ∧
      r.built = [⟨0, 1⟩, ⟨0, 2⟩] ∧
      (∀ id ∈ r.built, id.word ≠ 0 ∧ 0 ≤ id.word ∧
        (findSessionOf id.word).toInt = id.index) ∧
      (r.built.map SessionID.word).Nodup := by
  have hrun : (exec (rollStep oneSlot) (startedRoll oneSlot 1) (oneLife ++ accepts)).map
      Roll.built = some [⟨0, 1⟩, ⟨0, 2⟩] := by
    decide +kernel
  obtain ⟨r, hr, hbuilt⟩ := Option.map_eq_some_iff.mp hrun
  have hids := sessionIDs_of_run oneSlot (by decide) 1 (oneLife ++ accepts) (by decide) r hr
  exact ⟨r, hr, hbuilt, hids.1, hids.2⟩

end SessionServer.ContentLib
