/-
  Battle/DBWorkersRun.lean --- every pushed result is saved and counted once.

  `DBMoved` says everything a step can do to the pool.  From it: the requests popped,
  in order, and those still queued are the requests pushed (`Taken`); what is popped
  is in the hands of its worker or recorded, once (`Handled`); the totals and the
  additions still to make are those of what is recorded (`Counted`); and while a
  request is queued a connected worker is there to take it (`Served`).
-/
import SessionServer.Battle.DBWorkers

set_option autoImplicit false

namespace SessionServer.Battle

open SessionServer.Foundation

/-! ## One step -/

/-- The worker has neither been refused nor returned. -/
def DBPhase.Serving : DBPhase → Prop
  | .refused => False
  | .returned _ => False
  | _ => True

/-- The worker holds no request and has no addition to make. -/
def DBPhase.Idle : DBPhase → Prop
  | .saving _ _ => False
  | .recording (_ :: _) => False
  | _ => True

section Moves

variable {n : Nat}

/-- **Everything a step does to the pool.** -/
inductive DBMoved (s : DBPool n) : DBStep n → DBPool n → Prop where
  | push (request : DBRequest) :
      DBMoved s (.push request)
        { s with dbQ := s.dbQ ++ [request], pushed := s.pushed ++ [request] }
  /-- a worker goes on with empty hands, and stays unless there is nothing left to do -/
  | move (i : DBStep n) (w : Fin n) (phase : DBPhase) (hold : (s.workers w).phase.Idle)
      (hnew : phase.Idle)
      (hstay : (s.workers w).connects = true → (s.workers w).phase.Serving →
        phase.Serving ∨ (s.dbThreadRun = false ∧ s.dbQ = [])) :
      DBMoved s i (s.setPhase w phase)
  | pop (i : DBStep n) (w : Fin n) (request : DBRequest) (rest : List DBRequest)
      (hold : (s.workers w).phase = .locking) (hq : s.dbQ = request :: rest) :
      DBMoved s i { s.setPhase w (.saving s.popped.length request) with
        dbQ := rest, popped := s.popped ++ [(w, request)] }
  | save (i : DBStep n) (w : Fin n) (place : Nat) (request : DBRequest)
      (connector : DBConnector) (result : DBSaveResult)
      (hold : (s.workers w).phase = .saving place request)
      (hsave : (s.workers w).connector.saveBattleResult request.battleResult =
        (connector, result)) :
      DBMoved s i { s with
        workers := Function.update s.workers w
          ⟨(s.workers w).connects, connector, .recording (recordDBSaveCounters result)⟩
        recorded := s.recorded ++ [(place, result)] }
  | count (i : DBStep n) (w : Fin n) (add : FetchAdd) (adds : List FetchAdd)
      (hold : (s.workers w).phase = .recording (add :: adds)) :
      DBMoved s i ((s.fetchAdd add).setPhase w (.recording adds))
  | rest (i : DBStep n) (run : Bool) (state : ServerState) (count : UInt32)
      (hrun : run = true → s.dbThreadRun = true) :
      DBMoved s i { s with dbThreadRun := run, state := state, dbSaveCount := count }

theorem dbStep_moved {s s' : DBPool n} {i : DBStep n} (h : dbStep s i = some s') :
    DBMoved s i s' := by
  cases i with
  | push request =>
      rw [dbStep, Option.some.injEq] at h
      exact h ▸ .push request
  | connect w =>
      simp only [dbStep] at h
      split at h
      · rename_i hphase
        rw [Option.some.injEq] at h
        refine h ▸ .move _ w _ (by simp [hphase, DBPhase.Idle]) (by split <;> trivial) ?_
        intro hconnects _
        simp [hconnects, DBPhase.Serving]
      · simp at h
  | lock w =>
      simp only [dbStep] at h
      split at h
      · rename_i hphase
        rw [Option.some.injEq, DBPool.waitAndPopDBRequest] at h
        split at h
        · rename_i hq
          split at h
          · exact h ▸ .move _ w _ (by simp [hphase, DBPhase.Idle]) trivial fun _ _ => Or.inl trivial
          · rename_i hrun
            refine h ▸ .move _ w _ (by simp [hphase, DBPhase.Idle]) trivial fun _ _ => Or.inr ?_
            exact ⟨Bool.not_eq_true _ ▸ hrun, hq⟩
        · rename_i request rest hq
          exact h ▸ .pop _ w request rest hphase hq
      · simp at h
  | wake w =>
      simp only [dbStep] at h
      split at h
      · rename_i hphase
        rw [Option.some.injEq] at h
        exact h ▸ .move _ w _ (by simp [hphase, DBPhase.Idle]) trivial fun _ _ => Or.inl trivial
      · simp at h
  | save w =>
      simp only [dbStep] at h
      split at h
      · rename_i place request hphase
        rw [Option.some.injEq] at h
        exact h ▸ .save _ w place request _ _ hphase rfl
      · simp at h
  | fetchAdd w =>
      simp only [dbStep] at h
      split at h
      · rename_i add adds hphase
        rw [Option.some.injEq] at h
        exact h ▸ .count _ w add adds hphase
      · simp at h
  | recorded w =>
      simp only [dbStep] at h
      split at h
      · rename_i hphase
        rw [Option.some.injEq] at h
        exact h ▸ .move _ w _ (by simp [hphase, DBPhase.Idle]) trivial fun _ _ => Or.inl trivial
      · simp at h
  | leave w =>
      simp only [dbStep] at h
      split at h
      · rename_i hphase
        rw [Option.some.injEq] at h
        refine h ▸ .move _ w _ (by simp [hphase, DBPhase.Idle]) trivial fun _ hserving => ?_
        simp [hphase, DBPhase.Serving] at hserving
      · simp at h
  | second =>
      rw [dbStep, Option.some.injEq] at h
      exact h ▸ .rest _ s.dbThreadRun s.state 0 id
  | controlStopped =>
      rw [dbStep, Option.some.injEq] at h
      exact h ▸ .rest _ s.dbThreadRun .controlStopped s.dbSaveCount id
  | stop =>
      rw [dbStep, Option.some.injEq] at h
      exact h ▸ .rest _ false s.state s.dbSaveCount (by simp)
  | joined =>
      simp only [dbStep] at h
      split at h
      · rw [Option.some.injEq] at h
        exact h ▸ .rest _ s.dbThreadRun .dbStopped s.dbSaveCount id
      · simp at h

end Moves

/-! ## Requests -/

namespace DBPool

variable {n : Nat}

@[simp] theorem setPhase_phase (s : DBPool n) (w v : Fin n) (phase : DBPhase) :
    ((s.setPhase w phase).workers v).phase = if v = w then phase else (s.workers v).phase := by
  simp only [setPhase, Function.update_apply]
  split <;> rfl

@[simp] theorem setPhase_connects (s : DBPool n) (w v : Fin n) (phase : DBPhase) :
    ((s.setPhase w phase).workers v).connects = (s.workers v).connects := by
  simp only [setPhase, Function.update_apply]
  split
  · rename_i heq
    rw [heq]
  · rfl

@[simp] theorem fetchAdd_workers (s : DBPool n) (add : FetchAdd) :
    (s.fetchAdd add).workers = s.workers := by
  cases add <;> rfl

@[simp] theorem fetchAdd_queue (s : DBPool n) (add : FetchAdd) :
    (s.fetchAdd add).dbQ = s.dbQ ∧ (s.fetchAdd add).dbThreadRun = s.dbThreadRun := by
  cases add <;> exact ⟨rfl, rfl⟩

@[simp] theorem fetchAdd_record (s : DBPool n) (add : FetchAdd) :
    (s.fetchAdd add).pushed = s.pushed ∧ (s.fetchAdd add).popped = s.popped ∧
      (s.fetchAdd add).recorded = s.recorded := by
  cases add <;> exact ⟨rfl, rfl, rfl⟩

/-- The places of the requests `RecordDBSaveCounters` was called for. -/
def recordedPlaces (s : DBPool n) : List Nat := s.recorded.map Prod.fst

/-- The worker holds the request popped at the place. -/
def Holds (s : DBPool n) (w : Fin n) (place : Nat) (request : DBRequest) : Prop :=
  (s.workers w).phase = .saving place request

end DBPool

section Requests

variable {n : Nat}

/-- The requests leave the queue once, in the order they were pushed. -/
def Taken (s : DBPool n) : Prop := s.pushed = s.popped.map Prod.snd ++ s.dbQ

theorem Taken.step {s s' : DBPool n} {i : DBStep n} (h : Taken s) (hm : DBMoved s i s') :
    Taken s' := by
  cases hm with
  | push request =>
      show s.pushed ++ [request] = s.popped.map Prod.snd ++ (s.dbQ ++ [request])
      rw [h, List.append_assoc]
  | move _ w phase hold hnew hstay => exact h
  | pop _ w request rest hold hq =>
      show s.pushed = (s.popped ++ [(w, request)]).map Prod.snd ++ rest
      rw [h, hq]
      simp
  | save _ w place request connector result hold hsave => exact h
  | count _ w add adds hold =>
      obtain ⟨hpushed, hpopped, _⟩ := s.fetchAdd_record add
      have hq := (s.fetchAdd_queue add).1
      simpa [Taken, DBPool.setPhase, hpushed, hpopped, hq] using h
  | rest _ run state count hrun => exact h

/-- What was popped is held by the worker that popped it, until it is recorded. -/
structure Handled (s : DBPool n) : Prop where
  held : ∀ w place request, s.Holds w place request →
    s.popped[place]? = some (w, request) ∧ place ∉ s.recordedPlaces
  covered : ∀ w place request, s.popped[place]? = some (w, request) →
    place ∈ s.recordedPlaces ∨ s.Holds w place request
  once : s.recordedPlaces.Nodup
  popped : ∀ place ∈ s.recordedPlaces, place < s.popped.length
  saved : ∀ e ∈ s.recorded, ∃ (c : DBConnector) (result : BattleResult),
    e.2 = (c.saveBattleResult result).2

theorem handled_started (connectors : Fin n → DBConnector) (connects : Fin n → Bool) :
    Handled (startedPool connectors connects) where
  held := by simp [startedPool, DBPool.Holds]
  covered := by simp [startedPool]
  once := List.nodup_nil
  popped := by simp [startedPool, DBPool.recordedPlaces]
  saved := by simp [startedPool]

/-- The requests, their holders and the record stay as they are. -/
theorem Handled.of_same {s s' : DBPool n} (h : Handled s) (hpopped : s'.popped = s.popped)
    (hrecorded : s'.recorded = s.recorded)
    (hholds : ∀ w place request, s'.Holds w place request ↔ s.Holds w place request) :
    Handled s' := by
  have hplaces : s'.recordedPlaces = s.recordedPlaces := by
    rw [DBPool.recordedPlaces, hrecorded, DBPool.recordedPlaces]
  constructor
  · intro w place request hw
    rw [hpopped, hplaces]
    exact h.held w place request ((hholds w place request).mp hw)
  · intro w place request hw
    rw [hpopped] at hw
    rw [hplaces, hholds]
    exact h.covered w place request hw
  · exact hplaces ▸ h.once
  · rw [hpopped, hplaces]
    exact h.popped
  · rw [hrecorded]
    exact h.saved

/-- A worker goes from one phase without a request to another. -/
theorem holds_setPhase {s : DBPool n} {w : Fin n} {phase : DBPhase}
    (hold : ∀ place request, (s.workers w).phase ≠ .saving place request)
    (hnew : ∀ place request, phase ≠ .saving place request) (v : Fin n) (place : Nat)
    (request : DBRequest) :
    (s.setPhase w phase).Holds v place request ↔ s.Holds v place request := by
  simp only [DBPool.Holds, DBPool.setPhase_phase]
  split
  · rename_i heq
    subst heq
    exact ⟨fun h => absurd h (hnew place request), fun h => absurd h (hold place request)⟩
  · exact Iff.rfl

theorem DBPhase.Idle.not_saving {phase : DBPhase} (h : phase.Idle) (place : Nat)
    (request : DBRequest) : phase ≠ .saving place request := by
  rintro rfl
  exact h

/-- A worker pops the next request. -/
theorem Handled.pop {s : DBPool n} (h : Handled s) {w : Fin n} {request : DBRequest}
    {rest : List DBRequest} (hold : (s.workers w).phase = .locking) :
    Handled { s.setPhase w (.saving s.popped.length request) with
      dbQ := rest, popped := s.popped ++ [(w, request)] } := by
  have hlast : (s.popped ++ [(w, request)])[s.popped.length]? = some (w, request) := by simp
  constructor
  · intro v place request' hv
    have hv : (if v = w then .saving s.popped.length request else (s.workers v).phase) =
        DBPhase.saving place request' := by
      rw [← DBPool.setPhase_phase]
      exact hv
    split at hv
    · rename_i heq
      rw [DBPhase.saving.injEq] at hv
      obtain ⟨rfl, rfl⟩ := hv
      subst heq
      exact ⟨hlast, fun hmem => Nat.lt_irrefl _ (h.popped _ hmem)⟩
    · obtain ⟨hget, hnot⟩ := h.held v place request' hv
      obtain ⟨hlt, _⟩ := List.getElem?_eq_some_iff.mp hget
      exact ⟨by rw [List.getElem?_append_left hlt]; exact hget, hnot⟩
  · intro v place request' hget
    show place ∈ s.recordedPlaces ∨ ((s.setPhase w _).workers v).phase = .saving place request'
    rw [DBPool.setPhase_phase]
    by_cases hlt : place < s.popped.length
    · have hget : (s.popped ++ [(w, request)])[place]? = some (v, request') := hget
      rw [List.getElem?_append_left hlt] at hget
      refine (h.covered v place request' hget).imp_right fun hv => ?_
      have hv : (s.workers v).phase = .saving place request' := hv
      rw [if_neg]
      · exact hv
      · rintro rfl
        rw [hold] at hv
        simp at hv
    · have hlt' := (List.getElem?_eq_some_iff.mp hget).1
      have heq : place = s.popped.length := by
        simp only [List.length_append, List.length_singleton] at hlt'
        omega
      subst heq
      have hget : (s.popped ++ [(w, request)])[s.popped.length]? = some (v, request') := hget
      rw [hlast, Option.some.injEq, Prod.mk.injEq] at hget
      obtain ⟨rfl, rfl⟩ := hget
      simp
  · exact h.once
  · intro place hmem
    have := h.popped place hmem
    show place < (s.popped ++ [(w, request)]).length
    rw [List.length_append]
    omega
  · exact h.saved

/-- A worker saves the request it holds. -/
theorem Handled.save {s : DBPool n} (h : Handled s) {w : Fin n} {place : Nat}
    {request : DBRequest} {connector : DBConnector} {result : DBSaveResult}
    (hold : s.Holds w place request)
    (hsave : (s.workers w).connector.saveBattleResult request.battleResult =
      (connector, result)) :
    Handled { s with
      workers := Function.update s.workers w
        ⟨(s.workers w).connects, connector, .recording (recordDBSaveCounters result)⟩
      recorded := s.recorded ++ [(place, result)] } := by
  obtain ⟨hget, hnew⟩ := h.held w place request hold
  have hplaces : (s.recorded ++ [(place, result)]).map Prod.fst =
      s.recordedPlaces ++ [place] := by
    rw [List.map_append]
    rfl
  constructor
  · intro v place' request' hv
    have hv : (Function.update s.workers w _ v).phase = .saving place' request' := hv
    rw [Function.update_apply] at hv
    split at hv
    · simp at hv
    · rename_i hne
      obtain ⟨hget', hnot⟩ := h.held v place' request' hv
      refine ⟨hget', fun hmem => ?_⟩
      have hmem : place' ∈ (s.recorded ++ [(place, result)]).map Prod.fst := hmem
      rw [hplaces, List.mem_append, List.mem_singleton] at hmem
      rcases hmem with hmem | rfl
      · exact hnot hmem
      · rw [hget, Option.some.injEq, Prod.mk.injEq] at hget'
        exact hne hget'.1.symm
  · intro v place' request' hget'
    show place' ∈ (s.recorded ++ [(place, result)]).map Prod.fst ∨
      (Function.update s.workers w _ v).phase = .saving place' request'
    rw [hplaces, List.mem_append, List.mem_singleton]
    rcases h.covered v place' request' hget' with hmem | hv
    · exact Or.inl (Or.inl hmem)
    · by_cases hvw : v = w
      · subst hvw
        have hv : (s.workers v).phase = .saving place' request' := hv
        have hold : (s.workers v).phase = .saving place request := hold
        rw [hold, DBPhase.saving.injEq] at hv
        exact Or.inl (Or.inr hv.1.symm)
      · rw [Function.update_of_ne hvw]
        exact Or.inr hv
  · show ((s.recorded ++ [(place, result)]).map Prod.fst).Nodup
    rw [hplaces]
    exact List.nodup_append.mpr ⟨h.once, List.nodup_singleton place, fun a ha b hb hab => by
      rw [List.mem_singleton] at hb
      exact hnew (hb ▸ hab ▸ ha)⟩
  · intro place' hmem
    have hmem : place' ∈ (s.recorded ++ [(place, result)]).map Prod.fst := hmem
    rw [hplaces, List.mem_append, List.mem_singleton] at hmem
    rcases hmem with hmem | rfl
    · exact h.popped place' hmem
    · exact (List.getElem?_eq_some_iff.mp hget).1
  · intro e he
    rcases List.mem_append.mp he with he | he
    · exact h.saved e he
    · rw [List.mem_singleton] at he
      subst he
      exact ⟨(s.workers w).connector, request.battleResult, by rw [hsave]⟩

theorem Handled.step {s s' : DBPool n} {i : DBStep n} (h : Handled s) (hm : DBMoved s i s') :
    Handled s' := by
  cases hm with
  | push request => exact h.of_same rfl rfl fun _ _ _ => Iff.rfl
  | move _ w phase hold hnew hstay =>
      exact h.of_same rfl rfl fun v place request =>
        holds_setPhase hold.not_saving hnew.not_saving v place request
  | pop _ w request rest hold hq => exact h.pop hold
  | save _ w place request connector result hold hsave => exact h.save hold hsave
  | count _ w add adds hold =>
      obtain ⟨_, hpopped, hrecorded⟩ := s.fetchAdd_record add
      refine h.of_same hpopped hrecorded fun v place request => ?_
      rw [holds_setPhase (by simp [hold]) (by simp), DBPool.Holds, DBPool.Holds,
        DBPool.fetchAdd_workers]
  | rest _ run state count hrun => exact h.of_same rfl rfl fun _ _ _ => Iff.rfl

end Requests

/-! ## Totals -/

/-- What an addition adds to a total. -/
def FetchAdd.amount : FetchAdd → Total → Nat
  | .saveCount, _ => 0
  | .total k amount, k' => if k' = k then amount else 0

/-- What a list of additions adds to a total. -/
def amounts (adds : List FetchAdd) (total : Total) : Nat :=
  (adds.map fun add => add.amount total).sum

/-- What a worker has still to add to a total. -/
def DBPhase.owed : DBPhase → Total → Nat
  | .recording adds, total => amounts adds total
  | _, _ => 0

theorem DBPhase.Idle.owed_eq {phase : DBPhase} (h : phase.Idle) (total : Total) :
    phase.owed total = 0 := by
  cases phase with
  | recording adds =>
      cases adds with
      | nil => rfl
      | cons add adds => exact absurd h id
  | _ => rfl

namespace DBPool

variable {n : Nat}

/-- What all the workers have still to add to a total. -/
def owed (s : DBPool n) (total : Total) : Nat := ∑ w, (s.workers w).phase.owed total

/-- What the saves recorded so far add to a total. -/
def due (s : DBPool n) (total : Total) : Nat :=
  (s.recorded.map fun e => amounts (recordDBSaveCounters e.2) total).sum

end DBPool

/-- A sum over the workers when one of them changes. -/
theorem sum_update {α : Type} {n : Nat} (f : α → Nat) (g : Fin n → α) (w : Fin n) (a : α) :
    (∑ v, f (Function.update g w a v)) + f (g w) = (∑ v, f (g v)) + f a := by
  have hpoint : ∀ v, f (Function.update g w a v) =
      Function.update (fun v => f (g v)) w (f a) v := by
    intro v
    rw [Function.update_apply, Function.update_apply]
    split <;> rfl
  simp only [hpoint, Finset.sum_update_of_mem (Finset.mem_univ w)]
  rw [← Finset.sum_sdiff (Finset.subset_univ {w}), Finset.sum_singleton]
  omega

theorem DBPool.setPhase_owed {n : Nat} (s : DBPool n) (w : Fin n) (phase : DBPhase)
    (total : Total) :
    (s.setPhase w phase).owed total + (s.workers w).phase.owed total =
      s.owed total + phase.owed total :=
  sum_update (fun worker : DBWorker => worker.phase.owed total) s.workers w
    { s.workers w with phase := phase }

theorem fetchAdd_totals {n : Nat} (s : DBPool n) (add : FetchAdd) (total : Total) :
    (s.fetchAdd add).totals total = s.totals total + UInt64.ofNat (add.amount total) := by
  cases add with
  | saveCount =>
      show s.totals total = s.totals total + 0
      rw [UInt64.add_zero]
  | total k amount =>
      simp only [DBPool.fetchAdd, FetchAdd.amount, Function.update_apply]
      split
      · rename_i heq
        rw [heq]
      · show s.totals total = s.totals total + 0
        rw [UInt64.add_zero]

/-- The totals and what the workers owe them are what the recorded saves are due. -/
def Counted {n : Nat} (s : DBPool n) : Prop :=
  ∀ total, s.totals total + UInt64.ofNat (s.owed total) = UInt64.ofNat (s.due total)

theorem counted_started {n : Nat} (connectors : Fin n → DBConnector) (connects : Fin n → Bool) :
    Counted (startedPool connectors connects) := by
  intro total
  simp [startedPool, DBPool.owed, DBPool.due, DBPhase.owed]

theorem Counted.step {n : Nat} {s s' : DBPool n} {i : DBStep n} (h : Counted s)
    (hm : DBMoved s i s') : Counted s' := by
  intro total
  have hold' := h total
  cases hm with
  | push request => exact hold'
  | move _ w phase hold hnew hstay =>
      have howed := s.setPhase_owed w phase total
      rw [hold.owed_eq, hnew.owed_eq, Nat.add_zero, Nat.add_zero] at howed
      rw [howed]
      exact hold'
  | pop _ w request rest hold hq =>
      have howed := s.setPhase_owed w (.saving s.popped.length request) total
      rw [hold] at howed
      exact (congrArg (fun owed => s.totals total + UInt64.ofNat owed) howed).trans hold'
  | save _ w place request connector result hold hsave =>
      have howed := sum_update (fun worker : DBWorker => worker.phase.owed total) s.workers w
        ⟨(s.workers w).connects, connector, .recording (recordDBSaveCounters result)⟩
      rw [hold] at howed
      have hdue : ((s.recorded ++ [(place, result)]).map fun e =>
          amounts (recordDBSaveCounters e.2) total).sum =
            s.due total + amounts (recordDBSaveCounters result) total := by
        simp [DBPool.due]
      show s.totals total + UInt64.ofNat _ = UInt64.ofNat _
      rw [DBPool.due, hdue, UInt64.ofNat_add, ← hold', UInt64.add_assoc, ← UInt64.ofNat_add]
      exact congrArg (fun owed => s.totals total + UInt64.ofNat owed) howed
  | count _ w add adds hold =>
      have howed := (s.fetchAdd add).setPhase_owed w (.recording adds) total
      rw [DBPool.fetchAdd_workers, hold] at howed
      have hsame : (s.fetchAdd add).owed total = s.owed total := by
        rw [DBPool.owed, DBPool.fetchAdd_workers, DBPool.owed]
      have hsplit : amounts (add :: adds) total = add.amount total + amounts adds total := by
        simp [amounts]
      have hless : s.owed total =
          add.amount total + ((s.fetchAdd add).setPhase w (.recording adds)).owed total := by
        simp only [DBPhase.owed, hsplit, hsame] at howed
        omega
      rw [hless, UInt64.ofNat_add, ← UInt64.add_assoc, ← fetchAdd_totals] at hold'
      show (s.fetchAdd add).totals total + _ = UInt64.ofNat ((s.fetchAdd add).due total)
      rw [DBPool.due, (s.fetchAdd_record add).2.2]
      exact hold'
  | rest _ run state count hrun => exact hold'

/-! ## Service -/

/-- A connected worker that has not been sent away. -/
def DBPool.Serves {n : Nat} (s : DBPool n) (w : Fin n) : Prop :=
  (s.workers w).connects = true ∧ (s.workers w).phase.Serving

/-- While the workers run every connected one serves, and later one does as long as a
request is queued. -/
structure Served {n : Nat} (s : DBPool n) : Prop where
  connected : ∃ w, (s.workers w).connects = true
  running : s.dbThreadRun = true → ∀ w, (s.workers w).connects = true → s.Serves w
  queued : s.dbQ ≠ [] → ∃ w, s.Serves w

theorem served_started {n : Nat} {connectors : Fin n → DBConnector} {connects : Fin n → Bool}
    (hconnected : ∃ w, connects w = true) : Served (startedPool connectors connects) where
  connected := hconnected
  running := fun _ _ hw => ⟨hw, trivial⟩
  queued := by simp [startedPool]

/-- Nothing is pushed once `StopDBWorkers` has cleared the flag. -/
def OnTime {n : Nat} (s : DBPool n) : DBStep n → Prop
  | .push _ => s.dbThreadRun = true
  | _ => True

instance {n : Nat} (s : DBPool n) : (i : DBStep n) → Decidable (OnTime s i)
  | .push _ => inferInstanceAs (Decidable (s.dbThreadRun = true))
  | .connect _ => inferInstanceAs (Decidable True)
  | .lock _ => inferInstanceAs (Decidable True)
  | .wake _ => inferInstanceAs (Decidable True)
  | .save _ => inferInstanceAs (Decidable True)
  | .fetchAdd _ => inferInstanceAs (Decidable True)
  | .recorded _ => inferInstanceAs (Decidable True)
  | .leave _ => inferInstanceAs (Decidable True)
  | .second => inferInstanceAs (Decidable True)
  | .controlStopped => inferInstanceAs (Decidable True)
  | .stop => inferInstanceAs (Decidable True)
  | .joined => inferInstanceAs (Decidable True)

/-- A step in which every worker that serves goes on serving. -/
theorem Served.of_serves {n : Nat} {s s' : DBPool n} (h : Served s)
    (hconnects : ∀ w, (s'.workers w).connects = (s.workers w).connects)
    (hserves : ∀ w, s.Serves w → s'.Serves w) (hrun : s'.dbThreadRun = true → s.dbThreadRun = true)
    (hq : s'.dbQ ≠ [] → s.dbQ ≠ []) : Served s' where
  connected := by
    obtain ⟨w, hw⟩ := h.connected
    exact ⟨w, (hconnects w).trans hw⟩
  running := fun hrun' w hw => hserves w (h.running (hrun hrun') w (hconnects w ▸ hw))
  queued := by
    intro hq'
    obtain ⟨w, hw⟩ := h.queued (hq hq')
    exact ⟨w, hserves w hw⟩

/-- The worker that moves goes on serving. -/
theorem serves_setPhase {n : Nat} {s : DBPool n} {w : Fin n} {phase : DBPhase}
    (hphase : (s.workers w).connects = true → (s.workers w).phase.Serving → phase.Serving)
    (v : Fin n) (hv : s.Serves v) : (s.setPhase w phase).Serves v := by
  refine ⟨(s.setPhase_connects w v phase).trans hv.1, ?_⟩
  rw [DBPool.setPhase_phase]
  split
  · rename_i heq
    subst heq
    exact hphase hv.1 hv.2
  · exact hv.2

theorem Served.step {n : Nat} {s s' : DBPool n} {i : DBStep n} (h : Served s)
    (htime : OnTime s i) (hm : DBMoved s i s') : Served s' := by
  cases hm with
  | push request =>
      obtain ⟨w, hw⟩ := h.connected
      exact ⟨h.connected, h.running, fun _ => ⟨w, h.running htime w hw⟩⟩
  | move _ w phase hold hnew hstay =>
      -- A worker is sent away only when the flag is cleared and nothing is queued.
      by_cases hdone : s.dbThreadRun = false ∧ s.dbQ = []
      · refine ⟨?_, fun hrun => ?_, fun hq => absurd hdone.2 hq⟩
        · obtain ⟨v, hv⟩ := h.connected
          exact ⟨v, (s.setPhase_connects w v phase).trans hv⟩
        · have hrun : s.dbThreadRun = true := hrun
          simp [hdone.1] at hrun
      · refine h.of_serves (fun v => s.setPhase_connects w v phase) ?_ id id
        exact fun v hv => serves_setPhase
          (fun hc hs => (hstay hc hs).resolve_right hdone) v hv
  | pop _ w request rest hold hq =>
      refine h.of_serves (fun v => s.setPhase_connects w v _) ?_ id fun _ => by simp [hq]
      have hserving : DBPhase.Serving (.saving s.popped.length request) := trivial
      exact fun v hv => serves_setPhase (fun _ _ => hserving) v hv
  | save _ w place request connector result hold hsave =>
      have hsame : ∀ v, (Function.update s.workers w
            ⟨(s.workers w).connects, connector, .recording (recordDBSaveCounters result)⟩
            v).connects = (s.workers v).connects := by
        intro v
        rw [Function.update_apply]
        split
        · rename_i heq
          rw [heq]
        · rfl
      refine h.of_serves hsame (fun v hv => ⟨(hsame v).trans hv.1, ?_⟩) id id
      show (Function.update s.workers w _ v).phase.Serving
      rw [Function.update_apply]
      split
      · trivial
      · exact hv.2
  | count _ w add adds hold =>
      obtain ⟨hq, hrun⟩ := s.fetchAdd_queue add
      have hworkers := s.fetchAdd_workers add
      refine h.of_serves (fun v => ?_) (fun v hv => ?_) (fun hr => hrun ▸ hr) fun hne => hq ▸ hne
      · rw [DBPool.setPhase_connects, hworkers]
      · have hserving : DBPhase.Serving (.recording adds) := trivial
        refine serves_setPhase (fun _ _ => hserving) v ?_
        rw [DBPool.Serves, hworkers]
        exact hv
  | rest _ run state count hrun => exact h.of_serves (fun _ => rfl) (fun _ hv => hv) hrun id

/-! ## Runs -/

/-- In every state the requests leave the queue in order, and each popped request is
in the hands of the worker that popped it or recorded, exactly one of the two. -/
structure ConsumedOnce {n : Nat} (s : DBPool n) : Prop where
  order : s.pushed = s.popped.map Prod.snd ++ s.dbQ
  place : ∀ place w request, s.popped[place]? = some (w, request) →
    (s.recordedPlaces.count place = 1 ∧ ∀ v request', ¬ s.Holds v place request') ∨
      (place ∉ s.recordedPlaces ∧ ∀ v request', s.Holds v place request' ↔
        v = w ∧ request' = request)

/-- Nothing is queued, every request has been recorded once, and the totals balance. -/
structure Balanced {n : Nat} (s : DBPool n) : Prop where
  drained : s.dbQ = []
  recorded : s.recordedPlaces.Perm (List.range s.pushed.length)
  saves : s.totals .saveSuccess + s.totals .saveFailure = UInt64.ofNat s.pushed.length
  errors : s.totals .duplicateKey + s.totals .deadlock + s.totals .lockTimeout +
    s.totals .connectionLost + s.totals .queryFormatError + s.totals .unknownError =
      s.totals .saveFailure
  retries : s.totals .retry =
    UInt64.ofNat (s.recorded.map fun e => e.2.attemptCount - 1).sum
  attempts : ∀ e ∈ s.recorded, 1 ≤ e.2.attemptCount

theorem ConsumedOnce.of_handled {n : Nat} {s : DBPool n} (htaken : Taken s) (h : Handled s) :
    ConsumedOnce s where
  order := htaken
  place := by
    intro place w request hget
    by_cases hmem : place ∈ s.recordedPlaces
    · exact Or.inl ⟨List.count_eq_one_of_mem h.once hmem,
        fun v request' hv => (h.held v place request' hv).2 hmem⟩
    · refine Or.inr ⟨hmem, fun v request' => ⟨fun hv => ?_, ?_⟩⟩
      · have hget' := (h.held v place request' hv).1
        rw [hget, Option.some.injEq, Prod.mk.injEq] at hget'
        exact ⟨hget'.1.symm, hget'.2.symm⟩
      · rintro ⟨rfl, rfl⟩
        exact (h.covered v place request' hget).resolve_left hmem

theorem saveAttempts_attemptCount (result : BattleResult) :
    ∀ (left attempt : Nat) (c : DBConnector), 1 ≤ attempt →
      1 ≤ (c.saveAttempts result left attempt).2.attemptCount := by
  intro left
  induction left with
  | zero =>
      intro attempt c _
      exact Nat.le_refl 1
  | succ left ih =>
      intro attempt c hattempt
      simp only [DBConnector.saveAttempts]
      split
      · exact hattempt
      · split
        · exact hattempt
        · split
          · exact hattempt
          · exact ih (attempt + 1) _ (Nat.le_succ_of_le hattempt)

theorem saveBattleResult_attemptCount (c : DBConnector) (result : BattleResult) :
    1 ≤ (c.saveBattleResult result).2.attemptCount :=
  saveAttempts_attemptCount result kMaxSaveAttempts 1 c (Nat.le_refl 1)

@[simp] theorem amounts_nil (total : Total) : amounts [] total = 0 := rfl

@[simp] theorem amounts_cons (add : FetchAdd) (adds : List FetchAdd) (total : Total) :
    amounts (add :: adds) total = add.amount total + amounts adds total := by
  simp [amounts]

@[simp] theorem amounts_append (adds more : List FetchAdd) (total : Total) :
    amounts (adds ++ more) total = amounts adds total + amounts more total := by
  simp [amounts]

theorem amounts_retry (result : DBSaveResult) :
    amounts (recordDBSaveCounters result) .retry = result.attemptCount - 1 := by
  have hcategory : Total.retry ≠ result.error.category.total := by
    cases result.error.category <;> simp [DBErrorCategory.total]
  simp only [recordDBSaveCounters, amounts_append]
  by_cases hattempts : result.attemptCount > 1 <;> cases result.retryExhausted <;>
    cases result.succeeded <;> simp [FetchAdd.amount, hattempts, hcategory] <;> omega

/-- The totals of outcomes: a success or a failure with its category. -/
theorem amounts_outcome (result : DBSaveResult) {total : Total} (hretry : total ≠ .retry)
    (hexhausted : total ≠ .retryExhausted) :
    amounts (recordDBSaveCounters result) total =
      if result.succeeded then (if total = .saveSuccess then 1 else 0)
      else (if total = .saveFailure then 1 else 0) +
        if total = result.error.category.total then 1 else 0 := by
  simp only [recordDBSaveCounters, amounts_append]
  by_cases hattempts : result.attemptCount > 1 <;> cases result.retryExhausted <;>
    cases result.succeeded <;> simp [FetchAdd.amount, hattempts, hretry, hexhausted]

/-- Every save is counted once, as a success or as a failure. -/
theorem amounts_saves (result : DBSaveResult) :
    amounts (recordDBSaveCounters result) .saveSuccess +
      amounts (recordDBSaveCounters result) .saveFailure = 1 := by
  rw [amounts_outcome result (by simp) (by simp), amounts_outcome result (by simp) (by simp)]
  cases result.succeeded <;> cases result.error.category <;> simp [DBErrorCategory.total]

/-- Every failure is counted in one category. -/
theorem amounts_errors (result : DBSaveResult) :
    amounts (recordDBSaveCounters result) .duplicateKey +
      amounts (recordDBSaveCounters result) .deadlock +
      amounts (recordDBSaveCounters result) .lockTimeout +
      amounts (recordDBSaveCounters result) .connectionLost +
      amounts (recordDBSaveCounters result) .queryFormatError +
      amounts (recordDBSaveCounters result) .unknownError =
        amounts (recordDBSaveCounters result) .saveFailure := by
  simp only [amounts_outcome result, ne_eq, reduceCtorEq, not_false_eq_true]
  cases result.succeeded <;> cases result.error.category <;> simp [DBErrorCategory.total]

section Balance

variable {n : Nat} {s : DBPool n}

theorem due_saves (s : DBPool n) :
    s.due .saveSuccess + s.due .saveFailure = s.recorded.length := by
  simp only [DBPool.due, ← List.sum_map_add, amounts_saves, List.map_const', List.sum_replicate,
    smul_eq_mul, mul_one]

theorem due_errors (s : DBPool n) :
    s.due .duplicateKey + s.due .deadlock + s.due .lockTimeout + s.due .connectionLost +
      s.due .queryFormatError + s.due .unknownError = s.due .saveFailure := by
  simp only [DBPool.due, ← List.sum_map_add, amounts_errors]

/-- A worker that has returned owes nothing. -/
theorem totals_of_returned (h : Counted s) (hreturned : ∀ w, (s.workers w).phase.isReturned = true)
    (total : Total) : s.totals total = UInt64.ofNat (s.due total) := by
  have howed : s.owed total = 0 := by
    refine Finset.sum_eq_zero fun w _ => ?_
    have hw := hreturned w
    cases hphase : (s.workers w).phase with
    | returned code => rfl
    | _ => simp [hphase, DBPhase.isReturned] at hw
  have htotal := h total
  rw [howed] at htotal
  rw [← htotal]
  exact (UInt64.add_zero _).symm

theorem Balanced.of_returned (htaken : Taken s) (hhandled : Handled s) (hcounted : Counted s)
    (hserved : Served s) (hreturned : ∀ w, (s.workers w).phase.isReturned = true) :
    Balanced s := by
  have hidle : ∀ w, ¬ (s.workers w).phase.Serving ∧
      ∀ place request, ¬ s.Holds w place request := by
    intro w
    have hw := hreturned w
    cases hphase : (s.workers w).phase with
    | returned code => simp [DBPhase.Serving, DBPool.Holds, hphase]
    | _ => simp [hphase, DBPhase.isReturned] at hw
  have hq : s.dbQ = [] := by
    by_contra hne
    obtain ⟨w, hw⟩ := hserved.queued hne
    exact (hidle w).1 hw.2
  have hlength : s.pushed.length = s.popped.length := by
    rw [htaken, hq, List.append_nil, List.length_map]
  have hperm : s.recordedPlaces.Perm (List.range s.pushed.length) := by
    refine (List.perm_ext_iff_of_nodup hhandled.once List.nodup_range).mpr fun place => ?_
    rw [List.mem_range, hlength]
    refine ⟨hhandled.popped place, fun hlt => ?_⟩
    have hget : s.popped[place]? = some (s.popped[place].1, s.popped[place].2) :=
      List.getElem?_eq_getElem hlt
    exact (hhandled.covered _ place _ hget).resolve_right ((hidle _).2 place _)
  have htotals := totals_of_returned hcounted hreturned
  constructor
  · exact hq
  · exact hperm
  · have hrecorded : s.recorded.length = s.pushed.length := by
      have := hperm.length_eq
      rwa [DBPool.recordedPlaces, List.length_map, List.length_range] at this
    rw [htotals, htotals, ← UInt64.ofNat_add, due_saves, hrecorded]
  · simp only [htotals, ← UInt64.ofNat_add, due_errors]
  · rw [htotals, DBPool.due]
    simp only [amounts_retry]
  · intro e he
    obtain ⟨c, result, hresult⟩ := hhandled.saved e he
    rw [hresult]
    exact saveBattleResult_attemptCount c result

end Balance

theorem consumed_run {n : Nat} {connectors : Fin n → DBConnector} {connects : Fin n → Bool}
    {is : List (DBStep n)} {s : DBPool n}
    (hrun : exec dbStep (startedPool connectors connects) is = some s) :
    Taken s ∧ Handled s ∧ Counted s :=
  have hstart : Taken (startedPool connectors connects) := rfl
  exec_invariant (I := fun s : DBPool n => Taken s ∧ Handled s ∧ Counted s)
    (fun _ _ _ h hstep =>
      have hm := dbStep_moved hstep
      ⟨h.1.step hm, h.2.1.step hm, h.2.2.step hm⟩)
    ⟨hstart, handled_started connectors connects, counted_started connectors connects⟩ hrun

theorem served_run {n : Nat} {connectors : Fin n → DBConnector} {connects : Fin n → Bool}
    (hconnected : ∃ w, connects w = true) {is : List (DBStep n)} {s : DBPool n}
    (htime : Along dbStep OnTime (startedPool connectors connects) is)
    (hrun : exec dbStep (startedPool connectors connects) is = some s) : Served s :=
  exec_invariant_along (fun _ _ _ h hok hstep => h.step hok (dbStep_moved hstep))
    (served_started hconnected) htime hrun

/-- **Every result is consumed once**: with a connected worker, whatever the order of
pushes, workers and the stop, requests are popped once and in order, and recorded once;
when nothing is pushed after the stop and every worker has returned, the queue is empty
and the totals balance. -/
theorem results_consumed_once {n : Nat} (connectors : Fin n → DBConnector)
    (connects : Fin n → Bool) (hconnected : ∃ w, connects w = true) (is : List (DBStep n))
    (s : DBPool n) (hrun : exec dbStep (startedPool connectors connects) is = some s) :
    ConsumedOnce s ∧
      (Along dbStep OnTime (startedPool connectors connects) is →
        (∀ w, (s.workers w).phase.isReturned = true) → Balanced s) := by
  obtain ⟨htaken, hhandled, hcounted⟩ := consumed_run hrun
  exact ⟨.of_handled htaken hhandled, fun htime hreturned =>
    .of_returned htaken hhandled hcounted (served_run hconnected htime hrun) hreturned⟩

/-- Of three workers the first cannot connect, the second meets one deadlock and the
third finds a table full. -/
def threeConnectors (w : Fin 3) : DBConnector :=
  connected (if w = 1 then deadlockOnce else tableFull)

def savesBattle (matchID : Int) : DBRequest := ⟨.saveBattleResult, battle matchID⟩

/-- A worker waits, three results are pushed, and two workers save them while the pool
is told to stop. -/
def threeSaved : List (DBStep 3) :=
  [.connect 0, .connect 1, .connect 2, .lock 2, .push (savesBattle 1), .push (savesBattle 2),
    .wake 2, .lock 2, .lock 1, .push (savesBattle 3), .save 1, .save 2, .fetchAdd 2, .fetchAdd 1,
    .fetchAdd 1, .fetchAdd 2, .stop, .fetchAdd 1, .recorded 1, .lock 1, .fetchAdd 2, .recorded 2,
    .lock 2, .leave 2, .save 1, .fetchAdd 1, .fetchAdd 1, .recorded 1, .lock 1, .leave 1, .joined]

theorem threeSaved_consumed_once :
    ∃ s ∈ exec dbStep (startedPool threeConnectors (· ≠ 0)) threeSaved,
      (s.totals .saveSuccess = 2 ∧ s.totals .saveFailure = 1 ∧ s.totals .retry = 1) ∧
        ConsumedOnce s ∧ Balanced s := by
  have hend : ∃ s ∈ exec dbStep (startedPool threeConnectors (· ≠ 0)) threeSaved,
      (s.totals .saveSuccess = 2 ∧ s.totals .saveFailure = 1 ∧ s.totals .retry = 1) ∧
        ∀ w, (s.workers w).phase.isReturned = true := by decide +kernel
  obtain ⟨s, hs, htotals, hreturned⟩ := hend
  obtain ⟨hconsumed, hbalanced⟩ :=
    results_consumed_once threeConnectors (· ≠ 0) ⟨1, by decide⟩ threeSaved s hs
  exact ⟨s, hs, htotals, hconsumed, hbalanced (by decide +kernel) hreturned⟩

end SessionServer.Battle
