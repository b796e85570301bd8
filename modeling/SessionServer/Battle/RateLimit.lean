/-
  Battle/RateLimit.lean --- how often a player may attack and start to move.

  The handlers keep the clock reading of the last request they have accepted, with 0 for
  none.  The two time stamps of a player are written by its own accepted requests only, so
  each is the store of a limiter.
-/
import SessionServer.Battle.FirstUpdate
import SessionServer.Battle.Requests

set_option autoImplicit false

namespace SessionServer.Battle

open SessionServer.Foundation FightContents

/-! ## The limits -/

/-- The two requests a handler limits. -/
inductive RateLimit where
  | moveStart
  | attack

namespace RateLimit

def interval : RateLimit → UInt32
  | .moveStart => MOVE_REQUEST_INTERVAL_MS
  | .attack => ATTACK_REQUEST_INTERVAL_MS

/-- The time stamp of the limit. -/
def stamp : RateLimit → Player → UInt32
  | .moveStart, player => player.lastMoveRequestAt
  | .attack, player => player.lastAttackRequestAt

/-- The messages it limits. -/
def counts : RateLimit → CSMessage → Bool
  | .moveStart, .moveStart _ _ _ => true
  | .attack, .attack _ _ _ _ => true
  | _, _ => false

/-- The event is a request of the session that passes every check but that of the time. -/
def asks (limit : RateLimit) (id : SessionID) (f : FightContents) : FightEvent → Bool
  | .message sessionID message _ =>
      decide (sessionID = id) && limit.counts message &&
        (f.playerMap.find id).any fun player => message.checks player
  | _ => false

/-- The event is a request of the session that is accepted. -/
def accepts (limit : RateLimit) (id : SessionID) (f : FightContents) : FightEvent → Bool
  | .message sessionID message now =>
      decide (sessionID = id) && limit.counts message && (f.accepted id message now).isSome
  | _ => false

/-- When the requests come that pass every check but that of the time. -/
def askedAt (limit : RateLimit) (id : SessionID) :
    FightContents → List (Nat × FightEvent) → List Nat
  | _, [] => []
  | f, (t, event) :: rest =>
      if limit.asks id f event then t :: limit.askedAt id (fightStep f event).1 rest
      else limit.askedAt id (fightStep f event).1 rest

/-- When the requests come that are accepted. -/
def acceptedAt (limit : RateLimit) (id : SessionID) :
    FightContents → List (Nat × FightEvent) → List Nat
  | _, [] => []
  | f, (t, event) :: rest =>
      if limit.accepts id f event then t :: limit.acceptedAt id (fightStep f event).1 rest
      else limit.acceptedAt id (fightStep f event).1 rest

/-- No request that passes the other checks comes within the interval after one that has
been accepted while the clock was at 0. -/
def Remembers (limit : RateLimit) (id : SessionID) : FightContents → List (Nat × FightEvent) → Prop
  | _, [] => True
  | f, (t, event) :: rest =>
      (limit.accepts id f event = true → clock t = 0 →
        ∀ u ∈ limit.askedAt id (fightStep f event).1 rest, t + limit.interval.toNat ≤ u) ∧
      limit.Remembers id (fightStep f event).1 rest

end RateLimit

/-! ## The time stamps -/

/-- The time stamp of the player of a session. -/
def FightContents.stamped (f : FightContents) (limit : RateLimit) (id : SessionID) :
    Option UInt32 :=
  (f.playerMap.find id).map limit.stamp

namespace PlayerMap

theorem find_insert_ne (m : PlayerMap) {sessionID id : SessionID} (player : Player)
    (hne : id ≠ sessionID) : (m.insert sessionID player).find id = m.find id := by
  unfold PlayerMap.insert
  split
  · rfl
  · rw [PlayerMap.find, List.lookup_cons, beq_false_of_ne hne]
    rfl

theorem find_erase (m : PlayerMap) (sessionID id : SessionID) :
    (m.erase sessionID).find id = if id = sessionID then none else m.find id := by
  split
  · rename_i heq
    rw [find_eq_none, mem_keys_erase]
    exact fun hmem => hmem.2 heq
  · rename_i hne
    induction m with
    | nil => rfl
    | cons entry m ih =>
        obtain ⟨key, player⟩ := entry
        simp only [PlayerMap.find, PlayerMap.erase, List.filter_cons] at ih ⊢
        by_cases hkey : key = sessionID
        · have hbeq : (id == key) = false := beq_false_of_ne (hkey ▸ hne)
          simp only [hkey, ne_eq, not_true, decide_false, Bool.false_eq_true, if_false] at ih ⊢
          rw [ih, List.lookup_cons, ← hkey, hbeq]
        · simp only [ne_eq, hkey, not_false_eq_true, decide_true, if_true, List.lookup_cons]
          rw [ih]

/-- The order of the entries does not matter. -/
theorem find_perm {m m' : PlayerMap} (hnodup : m.keys.Nodup) (hperm : m.Perm m')
    (id : SessionID) : m'.find id = m.find id := by
  have hnodup' : m'.keys.Nodup := (hperm.map Prod.fst).nodup_iff.mp hnodup
  cases hfind : m.find id with
  | none =>
      rw [find_eq_none] at hfind ⊢
      exact fun hmem => hfind ((hperm.map Prod.fst).mem_iff.mpr hmem)
  | some player => exact find_of_mem hnodup' (hperm.mem_iff.mp (mem_of_find hfind))

end PlayerMap

namespace FightContents

variable {f : FightContents} {id : SessionID} (limit : RateLimit)

theorem stamped_written (f : FightContents) {sessionID : SessionID} {old player : Player}
    (hfind : f.playerMap.find sessionID = some old)
    (hstamp : limit.stamp player = limit.stamp old) :
    (f.written sessionID player).stamped limit id = f.stamped limit id := by
  by_cases heq : id = sessionID
  · subst heq
    rw [stamped, stamped, f.find_written player hfind, hfind, Option.map_some, Option.map_some,
      hstamp]
  · rw [stamped, stamped, f.find_written_ne player heq]

theorem placeSlot_stamped (acc : FightContents × List Effect) (i : Fin 3) :
    (placeSlot acc i).1.stamped limit id = acc.1.stamped limit id := by
  have hplace : ∀ (f : FightContents) (sessionID : SessionID) (n : Nat) (x : Int) (slot : Nat)
      (direction : UInt8), (f.placePlayer sessionID n x slot direction).1.stamped limit id =
        f.stamped limit id := by
    intro f sessionID n x slot direction
    rw [placePlayer_fst]
    split
    · rfl
    · rename_i player hfind
      exact f.stamped_written limit hfind (by cases limit <;> rfl)
  simp only [placeSlot, hplace]

/-- Another session's enter event. -/
theorem onEnter_stamped {sessionID : SessionID} (hne : sessionID ≠ id) (found : Option Player)
    (moved : Bool) : (f.onEnter sessionID found moved).1.stamped limit id = f.stamped limit id := by
  have hcounted : (f.countEnter sessionID found moved).stamped limit id = f.stamped limit id := by
    unfold countEnter
    cases found with
    | none => rfl
    | some player =>
        cases moved with
        | false => rfl
        | true =>
            simp only [if_true, enterPlayer_eq, stamped]
            rw [PlayerMap.find_insert_ne _ _ hne.symm]
  obtain ⟨winLoss, hchecked⟩ := (f.countEnter sessionID found moved).checkGameEnd_fst
  have hsame : (f.countEnter sessionID found moved).checkGameEnd.1.stamped limit id =
      f.stamped limit id := by
    rw [hchecked]
    exact hcounted
  simp only [onEnter]
  split
  · split
    · exact hsame
    · simp only [startFight, List.foldl_cons, List.foldl_nil, placeSlot_stamped, hsame]
  · exact hcounted

theorem find_onLeave (f : FightContents) (sessionID id : SessionID) :
    (f.onLeave sessionID).1.playerMap.find id =
      if id = sessionID then none else f.playerMap.find id := by
  unfold onLeave
  split
  · rename_i hfind
    split
    · rename_i heq
      rw [heq, hfind]
    · rfl
  · rename_i player hfind
    obtain ⟨winLoss, hchecked⟩ := (f.removePlayer sessionID player).1.checkGameEnd_fst
    have herased : (f.removePlayer sessionID player).1.checkGameEnd.1.playerMap =
        f.playerMap.erase sessionID := by rw [hchecked, removePlayer_fst]
    rw [← PlayerMap.find_erase, ← herased]
    simp only
    split <;> rfl

theorem onUpdate_stamped (now : UInt32) :
    (f.onUpdate now).stamped limit id = f.stamped limit id := by
  rw [stamped, stamped, find_onUpdate, Option.map_map]
  congr 1
  funext player
  simp only [Function.comp_apply]
  split
  · obtain ⟨x, y, hframe⟩ := applyMovement_frame player (f.frames now)
    rw [hframe]
    cases limit <;> rfl
  · rfl

theorem rehash_stamped (hkeys : f.playerMap.keys.Nodup) (order : PlayerMap) :
    (fightStep f (.rehash order)).1.stamped limit id = f.stamped limit id := by
  simp only [fightStep]
  split
  · rename_i hperm
    rw [stamped, stamped, PlayerMap.find_perm hkeys (List.isPerm_iff.mp hperm).symm]
  · rfl

/-- Another session's message. -/
theorem procMessage_stamped (hkeys : f.playerMap.keys.Nodup) {sessionID : SessionID}
    (hne : id ≠ sessionID) (message : CSMessage) (now : UInt32) :
    (f.procMessage sessionID message now).1.stamped limit id = f.stamped limit id := by
  have hmessaged := f.procMessage_messaged sessionID message now
  cases haccepted : f.accepted sessionID message now with
  | none => rw [(hmessaged.of_none haccepted).1]
  | some player =>
      cases hhit : f.hit sessionID message now with
      | none =>
          have hother := (hmessaged.acted_alone haccepted hhit).others.2 id (by simpa using hne)
          rw [stamped, hother, stamped]
      | some found =>
          have hstrikes := hmessaged.struck_one hkeys haccepted hhit
          by_cases htarget : id = found.2.1
          · subst htarget
            rw [stamped, hstrikes.hurt, stamped, hstrikes.stood]
            cases limit <;> rfl
          · have hother := hstrikes.others.2 id (by simp [hne, htarget])
            rw [stamped, hother, stamped]

end FightContents

/-! ## One event -/

theorem canHandleMoveRequest_eq (player : Player) (now : UInt32) :
    canHandleMoveRequest player now =
      allows RateLimit.moveStart.interval (RateLimit.moveStart.stamp player) now := rfl

theorem canHandleAttack_eq (player : Player) (now : UInt32) :
    canHandleAttack player now =
      allows RateLimit.attack.interval (RateLimit.attack.stamp player) now := by
  have hlt : decide (now - player.lastAttackRequestAt ≥ ATTACK_REQUEST_INTERVAL_MS) =
      !decide (now - player.lastAttackRequestAt < ATTACK_REQUEST_INTERVAL_MS) := by
    rw [← decide_not]
    exact decide_eq_decide.mpr UInt32.not_lt.symm
  rw [canHandleAttack, allows, RateLimit.stamp, RateLimit.interval, hlt, Bool.not_and, bne,
    Bool.not_not]

theorem intervalOver_eq {limit : RateLimit} {message : CSMessage}
    (hcounts : limit.counts message = true) (player : Player) (now : UInt32) :
    message.intervalOver player now = allows limit.interval (limit.stamp player) now := by
  cases limit <;> cases message <;> simp only [RateLimit.counts, Bool.false_eq_true] at hcounts
  · exact canHandleMoveRequest_eq player now
  · exact canHandleAttack_eq player now

/-- A request is accepted where the limiter over the time stamp lets it through. -/
theorem accepts_eq (limit : RateLimit) {f : FightContents} {id : SessionID} {event : FightEvent}
    {player : Player} {t : Nat} (hfind : f.playerMap.find id = some player)
    (hreading : ∀ now ∈ event.reading, now = clock t) :
    limit.accepts id f event =
      (limit.asks id f event && allows limit.interval (limit.stamp player) (clock t)) := by
  cases event with
  | message sessionID message now =>
      obtain rfl : now = clock t := hreading now rfl
      simp only [RateLimit.accepts, RateLimit.asks, accepted_isSome hfind, hfind, Option.any_some]
      cases hcounts : limit.counts message with
      | false => simp
      | true => rw [intervalOver_eq hcounts, Bool.and_assoc (_ && _)]
  | _ => rfl

theorem stamp_write (limit : RateLimit) (message : CSMessage) (now : UInt32) (player : Player) :
    limit.stamp (message.write now player) =
      if limit.counts message then now else limit.stamp player := by
  cases limit <;> cases message <;> rfl

/-- **One event** leaves the time stamp alone, or is an accepted request that writes it, or
the player has left. -/
theorem stamped_step (limit : RateLimit) {f : FightContents} (hkeys : f.playerMap.keys.Nodup)
    {id : SessionID} {event : FightEvent} (henter : event.entering ≠ some id) {player : Player}
    (hfind : f.playerMap.find id = some player) {t : Nat}
    (hreading : ∀ now ∈ event.reading, now = clock t) :
    (fightStep f event).1.stamped limit id = none ∨
      (fightStep f event).1.stamped limit id =
        some (if limit.accepts id f event then clock t else limit.stamp player) := by
  have hstamped : f.stamped limit id = some (limit.stamp player) := by
    rw [stamped, hfind, Option.map_some]
  cases event with
  | enter sessionID found moved =>
      have hne : sessionID ≠ id := fun heq => henter (congrArg some heq)
      exact Or.inr ((onEnter_stamped limit hne found moved).trans hstamped)
  | leave sessionID =>
      have hleft := f.find_onLeave sessionID id
      by_cases heq : id = sessionID
      · rw [if_pos heq] at hleft
        exact Or.inl (congrArg (Option.map limit.stamp) hleft)
      · rw [if_neg heq] at hleft
        exact Or.inr ((congrArg (Option.map limit.stamp) hleft).trans hstamped)
  | update now => exact Or.inr ((onUpdate_stamped limit now).trans hstamped)
  | rehash order => exact Or.inr ((rehash_stamped limit hkeys order).trans hstamped)
  | message sessionID message now =>
      obtain rfl : now = clock t := hreading now rfl
      refine Or.inr ?_
      by_cases heq : sessionID = id
      · subst heq
        have hmessaged := f.procMessage_messaged sessionID message (clock t)
        simp only [RateLimit.accepts, decide_true, Bool.true_and]
        cases haccepted : f.accepted sessionID message (clock t) with
        | none =>
            rw [fightStep, (hmessaged.of_none haccepted).1, Option.isSome_none, Bool.and_false,
              if_neg (by simp), hstamped]
        | some accepted =>
            have hsame := (accepted_eq_some.mp haccepted).1
            rw [hfind, Option.some.injEq] at hsame
            subst hsame
            have hwrote : (f.procMessage sessionID message (clock t)).1.playerMap.find sessionID =
                some (message.write (clock t) player) := by
              cases hhit : f.hit sessionID message (clock t) with
              | none => exact (hmessaged.acted_alone haccepted hhit).wrote
              | some found => exact (hmessaged.struck_one hkeys haccepted hhit).wrote
            rw [fightStep, stamped, hwrote, Option.map_some, stamp_write, Option.isSome_some,
              Bool.and_true]
      · rw [fightStep, procMessage_stamped limit hkeys (Ne.symm heq), hstamped]
        simp [RateLimit.accepts, heq]

/-! ## Every run -/

/-- Nobody plays under the session: nothing is asked. -/
theorem silent_run (limit : RateLimit) {id : SessionID} {events : List (Nat × FightEvent)} :
    ∀ {f : FightContents}, f.playerMap.find id = none →
      (∀ entry ∈ events, entry.2.entering ≠ some id) →
      limit.askedAt id f events = [] ∧ limit.acceptedAt id f events = [] ∧
        limit.Remembers id f events := by
  induction events with
  | nil => exact fun _ _ => ⟨rfl, rfl, trivial⟩
  | cons entry rest ih =>
      obtain ⟨t, event⟩ := entry
      intro f hnone henter
      have hfirst := henter (t, event) List.mem_cons_self
      have hnext : (fightStep f event).1.playerMap.find id = none := by
        rw [PlayerMap.find_eq_none] at hnone ⊢
        exact fun hmem => (fightStep_keys hmem).elim hnone hfirst
      obtain ⟨hasked, haccepted, hremembers⟩ :=
        ih hnext fun entry hmem => henter entry (List.mem_cons_of_mem _ hmem)
      have hasks : limit.asks id f event = false := by
        cases event <;> simp [RateLimit.asks, hnone]
      have haccepts : limit.accepts id f event = false := by
        cases event <;> simp [RateLimit.accepts, accepted_unknown hnone]
      simp [RateLimit.askedAt, RateLimit.acceptedAt, RateLimit.Remembers, hasks, haccepts, hasked,
        haccepted, hremembers]

/-- The requests that are accepted are those a limiter over the time stamp lets through. -/
theorem limiter_run (limit : RateLimit) {id : SessionID} {events : List (Nat × FightEvent)} :
    ∀ {last : Nat} {f : FightContents} {player : Player}, f.playerMap.keys.Nodup →
      f.playerMap.find id = some player → Timed last events →
      (∀ entry ∈ events, entry.2.entering ≠ some id) →
      limit.acceptedAt id f events =
          letThrough limit.interval (limit.stamp player) (limit.askedAt id f events) ∧
        (limit.Remembers id f events ↔
          Remembered limit.interval (limit.stamp player) (limit.askedAt id f events)) := by
  induction events with
  | nil => exact fun _ _ _ _ => ⟨rfl, Iff.rfl⟩
  | cons entry rest ih =>
      obtain ⟨t, event⟩ := entry
      intro last f player hkeys hfind ⟨_, hreading, htimed⟩ henter
      have hlater : ∀ entry ∈ rest, entry.2.entering ≠ some id :=
        fun entry hmem => henter entry (List.mem_cons_of_mem _ hmem)
      have haccepts := accepts_eq limit hfind hreading
      have hstep := stamped_step limit hkeys (henter (t, event) List.mem_cons_self) hfind hreading
      have hkeys' := fightStep_keys_nodup hkeys event
      simp only [RateLimit.askedAt, RateLimit.acceptedAt, RateLimit.Remembers]
      generalize (fightStep f event).1 = g at hstep hkeys' ⊢
      -- The rest of the run, from what the event has left in the store.
      have hrest : ∀ stored, (g.stamped limit id = none ∨ g.stamped limit id = some stored) →
          limit.acceptedAt id g rest =
              letThrough limit.interval stored (limit.askedAt id g rest) ∧
            (limit.Remembers id g rest ↔
              Remembered limit.interval stored (limit.askedAt id g rest)) := by
        rintro stored (hnone | hsome)
        · rw [stamped, Option.map_eq_none_iff] at hnone
          obtain ⟨hasked, haccepted, hremembers⟩ := silent_run limit hnone hlater
          rw [hasked, haccepted]
          exact ⟨rfl, iff_of_true hremembers trivial⟩
        · obtain ⟨player', hplayer', rfl⟩ := Option.map_eq_some_iff.mp hsome
          exact ih hkeys' hplayer' htimed hlater
      cases hasks : limit.asks id f event with
      | false =>
          rw [hasks, Bool.false_and] at haccepts
          rw [haccepts] at hstep
          simpa [haccepts] using hrest _ hstep
      | true =>
          rw [hasks, Bool.true_and] at haccepts
          cases hallows : allows limit.interval (limit.stamp player) (clock t) with
          | false =>
              rw [hallows] at haccepts
              rw [haccepts] at hstep
              simpa [haccepts, hallows, letThrough, Remembered] using hrest _ hstep
          | true =>
              rw [hallows] at haccepts
              rw [haccepts] at hstep
              obtain ⟨haccepted, hremembers⟩ := hrest _ hstep
              simp only [haccepts, if_true, letThrough, Remembered, hallows, haccepted, hremembers,
                true_imp_iff, and_self]

theorem askedAt_sublist (limit : RateLimit) (id : SessionID) (events : List (Nat × FightEvent)) :
    ∀ f : FightContents, (limit.askedAt id f events).Sublist (events.map Prod.fst) := by
  induction events with
  | nil => exact fun _ => List.Sublist.refl []
  | cons entry rest ih =>
      obtain ⟨t, event⟩ := entry
      intro f
      simp only [RateLimit.askedAt, List.map_cons]
      split
      · exact (ih _).cons_cons t
      · exact (ih _).cons t

theorem Timed.start_le {last : Nat} {events : List (Nat × FightEvent)} (h : Timed last events) :
    ∀ t ∈ events.map Prod.fst, last ≤ t := by
  induction events generalizing last with
  | nil => simp
  | cons entry rest ih =>
      intro t hmem
      rcases List.mem_cons.mp hmem with rfl | hrest
      · exact h.1
      · exact Nat.le_trans h.1 (ih h.2.2 t hrest)

theorem Timed.pairwise {last : Nat} {events : List (Nat × FightEvent)} (h : Timed last events) :
    (events.map Prod.fst).Pairwise (· ≤ ·) := by
  induction events generalizing last with
  | nil => exact List.Pairwise.nil
  | cons entry rest ih => exact List.pairwise_cons.mpr ⟨h.2.2.start_le, ih h.2.2⟩

/-- **Any two requests of a player that are accepted are at least the interval apart, in
exactly the runs of less than one lap of the clock in which no request that passes the other
checks comes within the interval after one that has been accepted at the reading 0.** -/
theorem rate_limit_iff (limit : RateLimit) (f : FightContents) (hkeys : f.playerMap.keys.Nodup)
    (id : SessionID) (start : Nat) (events : List (Nat × FightEvent)) (htimed : Timed start events)
    (hlap : ∀ entry ∈ events, entry.1 < start + 4294967296)
    (henter : ∀ entry ∈ events, entry.2.entering ≠ some id) :
    (limit.acceptedAt id f events).Pairwise (fun s t => s + limit.interval.toNat ≤ t) ↔
      limit.Remembers id f events := by
  cases hfind : f.playerMap.find id with
  | none =>
      obtain ⟨_, haccepted, hremembers⟩ := silent_run limit hfind henter
      rw [haccepted]
      exact iff_of_true List.Pairwise.nil hremembers
  | some player =>
      obtain ⟨haccepted, hremembers⟩ := limiter_run limit hkeys hfind htimed henter
      rw [haccepted, hremembers]
      refine letThrough_apart_iff (List.Pairwise.sublist (askedAt_sublist limit id events f) ?_)
      refine List.Pairwise.imp_of_mem (fun {s t} hs ht hle => ⟨hle, ?_⟩) htimed.pairwise
      obtain ⟨entry, hentry, rfl⟩ := List.mem_map.mp ht
      have hstart := htimed.start_le s hs
      have := hlap entry hentry
      omega

/-- A player attacks three times around the wrap of the clock, the last time too early. -/
def attacksAcross : List (Nat × FightEvent) :=
  [4294967200, 4294967400, 4294967500].map fun t =>
    (t, .message (firstSession 0) (.attack .attack1 dfPACKET_MOVE_DIR_RR 40 90) (clock t))

theorem attacksAcross_apart :
    (RateLimit.attack.acceptedAt (firstSession 0) firstStarted attacksAcross).Pairwise
      (fun s t => s + RateLimit.attack.interval.toNat ≤ t) :=
  (rate_limit_iff .attack firstStarted (by decide +kernel) (firstSession 0) 4294967200
    attacksAcross (by simp [attacksAcross, Timed, FightEvent.reading])
    (by simp [attacksAcross]) (by simp [attacksAcross, FightEvent.entering])).mpr
      ⟨by decide +kernel, by decide +kernel, by decide +kernel, trivial⟩

/-- A player attacks while the clock is at 0, and 1 ms later. -/
def attacksAtZero : List (Nat × FightEvent) :=
  [4294967296, 4294967297].map fun t =>
    (t, .message (firstSession 0) (.attack .attack1 dfPACKET_MOVE_DIR_RR 40 90) (clock t))

theorem attacksAtZero_both_accepted :
    Timed 4294967296 attacksAtZero ∧
      RateLimit.attack.acceptedAt (firstSession 0) firstStarted attacksAtZero =
        [4294967296, 4294967297] ∧
      ¬ (RateLimit.attack.acceptedAt (firstSession 0) firstStarted attacksAtZero).Pairwise
        (fun s t => s + RateLimit.attack.interval.toNat ≤ t) := by
  have haccepted : RateLimit.attack.acceptedAt (firstSession 0) firstStarted attacksAtZero =
      [4294967296, 4294967297] := by decide +kernel
  refine ⟨by simp [attacksAtZero, Timed, FightEvent.reading], haccepted, fun hapart => ?_⟩
  rw [haccepted] at hapart
  exact absurd hapart (by decide)

end SessionServer.Battle
