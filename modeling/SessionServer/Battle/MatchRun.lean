/-
  Battle/MatchRun.lean --- matching is a partition.

  The calls `MatchContents` answers, one a step, in any order and over any iteration
  order of its map.  Between two calls the server may learn of new sessions and change
  the slots of those it has.  A record is kept of the sessions that have entered and of
  those that have left before they were grouped; the groups ever formed are the
  FIGHTALLOC controls, which nobody takes here.

  One invariant carries the proof: the sessions waiting, grouped and left are, taken
  together, the sessions that have entered.
-/
import SessionServer.Battle.Home

set_option autoImplicit false

namespace SessionServer.Battle

open SessionServer.Foundation

/-! ## Groups -/

/-- The group of a FIGHTALLOC control. -/
def Control.group : Control → Option Group
  | .fightAlloc group => some group
  | .fightFree _ => none
  | .matchDeregister => none

namespace Server

/-- The groups of the FIGHTALLOC controls. -/
def groups (s : Server) : List Group := s.ctrlQ.filterMap Control.group

/-- The sessions of those groups. -/
def grouped (s : Server) : List SessionID := s.groups.flatMap Group.sessions

/-- The team of the player of a session. -/
def teamOf (s : Server) (id : SessionID) : Option Team := (s.playerMap id).map Player.team

theorem groups_of_ctrlQ {s s' : Server} {more : List Control} (h : s'.ctrlQ = s.ctrlQ ++ more) :
    s'.groups = s.groups ++ more.filterMap Control.group := by
  simp only [groups, h, List.filterMap_append]

end Server

/-! ## Calls -/

/-- A call of the match, or what happens between two of them. -/
inductive MatchStep where
  | enter (id : SessionID)
  | leave (id : SessionID)
  | shutDown
  | rehash (order : List SessionID) (place : Nat)
  /-- `OnAccept` of a session the server does not know -/
  | accept (id : SessionID) (pooled : Player)
  /-- other threads set flags, move and release sessions -/
  | elsewhere (sessions : SessionID → Option Session)

/-- The server, and who has entered the match and who has left it ungrouped. -/
structure MatchRun where
  server : Server
  entered : List SessionID
  left : List SessionID

open Server

/-- `OnEnter` lets the session in: the match runs and the server knows it. -/
def Admits (s : Server) (id : SessionID) : Prop :=
  s.match_.stopRequested = false ∧ (s.playerMap id).isSome = true

instance (s : Server) (id : SessionID) : Decidable (Admits s id) :=
  inferInstanceAs (Decidable (_ ∧ _))

/-- `OnLeave` finds a session that has entered and was not grouped. -/
def LeavesUngrouped (r : MatchRun) (id : SessionID) : Prop :=
  id ∈ r.entered ∧ id ∉ r.server.grouped ∧ id ∉ r.left

instance (r : MatchRun) (id : SessionID) : Decidable (LeavesUngrouped r id) :=
  inferInstanceAs (Decidable (_ ∧ _))

def matchStep (r : MatchRun) : MatchStep → Option MatchRun
  | .enter id =>
      some { r with
        server := r.server.matchEnter id
        entered := if Admits r.server id then id :: r.entered else r.entered }
  | .leave id =>
      some { r with
        server := r.server.matchLeave id
        left := if LeavesUngrouped r id then id :: r.left else r.left }
  | .shutDown => some { r with server := r.server.matchShutDown }
  | .rehash order place =>
      if order.isPerm r.server.match_.playerMap then
        some { r with
          server := { r.server with
            match_ := { r.server.match_ with playerMap := order, place := place } } }
      else none
  | .accept id pooled =>
      if (r.server.playerMap id).isNone then
        some { r with
          server := { r.server with
            playerMap := fun id' =>
              if id' = id then some { pooled with sessionID := id }
              else r.server.playerMap id' } }
      else none
  | .elsewhere sessions => some { r with server := { r.server with sessions := sessions } }

/-- The match before its first call. -/
def matchStart (pooled : FightContents) : MatchRun := ⟨initialServer pooled, [], []⟩

/-- A session known to the server enters at most once. -/
def OnceEach (r : MatchRun) : MatchStep → Prop
  | .enter id => Admits r.server id → id ∉ r.entered
  | _ => True

instance (r : MatchRun) : (i : MatchStep) → Decidable (OnceEach r i)
  | .enter id => inferInstanceAs (Decidable (Admits r.server id → id ∉ r.entered))
  | .leave _ => inferInstanceAs (Decidable True)
  | .shutDown => inferInstanceAs (Decidable True)
  | .rehash _ _ => inferInstanceAs (Decidable True)
  | .accept _ _ => inferInstanceAs (Decidable True)
  | .elsewhere _ => inferInstanceAs (Decidable True)

/-! ## Teams -/

/-- The team is written through the pointers of the given sessions. -/
def withTeam (ids : List SessionID) (team : Team) (playerMap : SessionID → Option Player) :
    SessionID → Option Player :=
  fun id =>
    if id ∈ ids then (playerMap id).map fun player => { player with team := team }
    else playerMap id

theorem withTeam_append (xs ys : List SessionID) (team : Team)
    (playerMap : SessionID → Option Player) :
    withTeam ys team (withTeam xs team playerMap) = withTeam (xs ++ ys) team playerMap := by
  funext id
  simp only [withTeam, List.mem_append]
  by_cases hx : id ∈ xs <;> by_cases hy : id ∈ ys <;> cases playerMap id <;> simp [hx, hy]

/-- One slot is assigned to the player the iteration begins with. -/
theorem assignSlot_playerMap {s : Server} {id : SessionID} {rest : List SessionID}
    (h : s.match_.playerMap = id :: rest) (team : Team) :
    (s.assignSlot team).1.playerMap = withTeam [id] team s.playerMap := by
  have hset : (s.setTeam id team).playerMap = withTeam [id] team s.playerMap := by
    funext id'
    simp only [setTeam, withTeam, List.mem_singleton]
  unfold assignSlot
  rw [h, ← hset]
  simp only [tryMoveSessionToContents]
  split <;> rfl

theorem assignTeam_playerMap {s : Server} {a b c : SessionID} {rest : List SessionID}
    (h : s.match_.playerMap = a :: b :: c :: rest) (team : Team) :
    (s.assignTeamAndMovePlayers team).1.playerMap = withTeam [a, b, c] team s.playerMap := by
  obtain ⟨_, hma, _⟩ := assignSlot_spec h team
  obtain ⟨_, hmb, _⟩ := assignSlot_spec (s := (s.assignSlot team).1) (by rw [hma]) team
  have ha := assignSlot_playerMap h team
  have hb := assignSlot_playerMap (s := (s.assignSlot team).1) (by rw [hma]) team
  have hc := assignSlot_playerMap (s := ((s.assignSlot team).1.assignSlot team).1)
    (by rw [hmb]) team
  simp only [assignTeamAndMovePlayers, hc, hb, ha, withTeam_append]
  rfl

/-- The six players of a new group are given their teams. -/
theorem groupPlayers_playerMap {s : Server} {group : Group} {rest : List SessionID}
    (h : s.match_.playerMap = group.sessions ++ rest) :
    s.groupPlayers.playerMap =
      withTeam [group.blue 0, group.blue 1, group.blue 2] .blue
        (withTeam [group.red 0, group.red 1, group.red 2] .red s.playerMap) := by
  obtain ⟨_, hmr, _⟩ := assignTeam_spec h .red
  have hr := assignTeam_playerMap h .red
  have hb := assignTeam_playerMap (s := (s.assignTeamAndMovePlayers .red).1)
    (by rw [hmr]; rfl) .blue
  simp only [groupPlayers, enqueueControl, hb, hr]

/-- The players stand in the team of their slot. -/
def TeamsSet (s : Server) (group : Group) : Prop :=
  ∀ slot, s.teamOf (group.red slot) = some .red ∧ s.teamOf (group.blue slot) = some .blue

theorem withTeam_mem {ids : List SessionID} {id : SessionID} (h : id ∈ ids) (team : Team)
    {playerMap : SessionID → Option Player} (hknown : (playerMap id).isSome = true) :
    (withTeam ids team playerMap id).map Player.team = some team := by
  obtain ⟨player, hplayer⟩ := Option.isSome_iff_exists.mp hknown
  simp [withTeam, h, hplayer]

theorem withTeam_not_mem {ids : List SessionID} {id : SessionID} (h : id ∉ ids) (team : Team)
    (playerMap : SessionID → Option Player) : withTeam ids team playerMap id = playerMap id := by
  simp [withTeam, h]

@[simp] theorem withTeam_isSome (ids : List SessionID) (team : Team)
    (playerMap : SessionID → Option Player) (id : SessionID) :
    (withTeam ids team playerMap id).isSome = (playerMap id).isSome := by
  unfold withTeam
  split
  · exact Option.isSome_map
  · rfl

theorem red_mem_sessions (group : Group) (slot : Fin 3) : group.red slot ∈ group.sessions := by
  fin_cases slot <;> simp [Group.sessions]

theorem blue_mem_sessions (group : Group) (slot : Fin 3) : group.blue slot ∈ group.sessions := by
  fin_cases slot <;> simp [Group.sessions]

theorem TeamsSet.of_same {s s' : Server} {group : Group} (h : TeamsSet s group)
    (hplayers : ∀ id ∈ group.sessions, s'.playerMap id = s.playerMap id) :
    TeamsSet s' group := by
  intro slot
  obtain ⟨hred, hblue⟩ := h slot
  simp only [teamOf] at hred hblue ⊢
  rw [hplayers _ (red_mem_sessions group slot), hplayers _ (blue_mem_sessions group slot)]
  exact ⟨hred, hblue⟩

theorem groupPlayers_teams {s : Server} {group : Group} {rest : List SessionID}
    (h : s.match_.playerMap = group.sessions ++ rest) (hnodup : group.sessions.Nodup)
    (hknown : ∀ id ∈ group.sessions, (s.playerMap id).isSome = true) :
    TeamsSet s.groupPlayers group := by
  have hsplit : group.sessions =
      [group.red 0, group.red 1, group.red 2] ++ [group.blue 0, group.blue 1, group.blue 2] := rfl
  rw [hsplit] at hnodup hknown
  intro slot
  have hred : group.red slot ∈ [group.red 0, group.red 1, group.red 2] := by
    fin_cases slot <;> simp
  have hblue : group.blue slot ∈ [group.blue 0, group.blue 1, group.blue 2] := by
    fin_cases slot <;> simp
  simp only [teamOf, groupPlayers_playerMap h]
  constructor
  · rw [withTeam_not_mem ((List.nodup_append.mp hnodup).2.2 _ hred _ · rfl)]
    exact withTeam_mem hred .red (hknown _ (List.mem_append_left _ hred))
  · refine withTeam_mem hblue .blue ?_
    rw [withTeam_isSome]
    exact hknown _ (List.mem_append_right _ hblue)

/-- Nobody else changes team. -/
theorem groupPlayers_others {s : Server} {group : Group} {rest : List SessionID}
    (h : s.match_.playerMap = group.sessions ++ rest) {id : SessionID}
    (hid : id ∉ group.sessions) : s.groupPlayers.playerMap id = s.playerMap id := by
  have hred : id ∉ [group.red 0, group.red 1, group.red 2] := fun hmem =>
    hid (List.mem_append_left [group.blue 0, group.blue 1, group.blue 2] hmem)
  have hblue : id ∉ [group.blue 0, group.blue 1, group.blue 2] := fun hmem =>
    hid (List.mem_append_right [group.red 0, group.red 1, group.red 2] hmem)
  rw [groupPlayers_playerMap h, withTeam_not_mem hblue, withTeam_not_mem hred]

/-! ## The partition -/

/-- What the calls keep: the sessions waiting, grouped and left are the sessions that
have entered, each once, and the players of every group stand in their teams. -/
structure Matched (r : MatchRun) : Prop where
  perm : (r.server.match_.playerMap ++ r.server.grouped ++ r.left).Perm r.entered
  once : r.entered.Nodup
  few : r.server.match_.playerMap.length < 6
  known : ∀ id ∈ r.entered, (r.server.playerMap id).isSome = true
  teams : ∀ group ∈ r.server.groups, TeamsSet r.server group

theorem matched_start (pooled : FightContents) : Matched (matchStart pooled) where
  perm := List.Perm.refl []
  once := List.nodup_nil
  few := by simp [matchStart, initialServer]
  known := by simp [matchStart]
  teams := by simp [matchStart, initialServer, groups]

theorem Matched.waiting_entered {r : MatchRun} (h : Matched r) {id : SessionID}
    (hid : id ∈ r.server.match_.playerMap) : id ∈ r.entered :=
  h.perm.subset (List.mem_append_left _ (List.mem_append_left _ hid))

theorem Matched.grouped_entered {r : MatchRun} (h : Matched r) {id : SessionID}
    (hid : id ∈ r.server.grouped) : id ∈ r.entered :=
  h.perm.subset (List.mem_append_left _ (List.mem_append_right _ hid))

/-- A session has one place. -/
theorem Matched.nodup {r : MatchRun} (h : Matched r) :
    (r.server.match_.playerMap ++ r.server.grouped ++ r.left).Nodup :=
  h.perm.nodup_iff.mpr h.once

theorem Matched.waiting_nodup {r : MatchRun} (h : Matched r) :
    r.server.match_.playerMap.Nodup :=
  (List.nodup_append.mp (List.nodup_append.mp h.nodup).1).1

/-- Nobody who waits has been grouped. -/
theorem Matched.waiting_grouped {r : MatchRun} (h : Matched r) {id : SessionID}
    (hwaiting : id ∈ r.server.match_.playerMap) : id ∉ r.server.grouped :=
  fun hgrouped =>
    (List.nodup_append.mp (List.nodup_append.mp h.nodup).1).2.2 id hwaiting id hgrouped rfl

/-- A call that forms no group and leaves the waiting sessions and the record alone. -/
theorem Matched.of_same {r r' : MatchRun} (h : Matched r)
    (hwaiting : r'.server.match_.playerMap.Perm r.server.match_.playerMap)
    (hgroups : r'.server.groups = r.server.groups) (hentered : r'.entered = r.entered)
    (hleft : r'.left = r.left)
    (hplayers : ∀ id ∈ r.entered, r'.server.playerMap id = r.server.playerMap id) :
    Matched r' where
  perm := by
    rw [hentered, hleft, grouped, hgroups]
    exact ((hwaiting.append_right _).append_right _).trans h.perm
  once := hentered ▸ h.once
  few := hwaiting.length_eq ▸ h.few
  known := by
    rw [hentered]
    intro id hid
    rw [hplayers id hid]
    exact h.known id hid
  teams := by
    rw [hgroups]
    intro group hgroup
    refine (h.teams group hgroup).of_same fun id hid => hplayers id ?_
    exact h.grouped_entered (List.mem_flatMap.mpr ⟨group, hgroup, hid⟩)

/-! ## One call -/

theorem insertWaiting_perm {s : Server} {id : SessionID} (h : id ∉ s.match_.playerMap) :
    (s.insertWaiting id).match_.playerMap.Perm (id :: s.match_.playerMap) := by
  simp only [insertWaiting, h, if_false]
  refine List.perm_middle.trans ?_
  rw [List.take_append_drop]

theorem insertWaiting_playerMap (s : Server) (id : SessionID) :
    (s.insertWaiting id).playerMap = s.playerMap := by
  unfold insertWaiting
  split <;> rfl

/-- The newcomer is the sixth: the six waiting sessions become a group. -/
theorem Matched.enter_group {r : MatchRun} (h : Matched r) {id : SessionID}
    (hadmits : Admits r.server id) (hnew : id ∉ r.entered)
    (hfull : 6 ≤ (r.server.insertWaiting id).match_.playerMap.length) :
    Matched ⟨(r.server.insertWaiting id).groupPlayers, id :: r.entered, r.left⟩ := by
  have hins := insertWaiting_perm fun hid => hnew (h.waiting_entered hid)
  have hplayers := insertWaiting_playerMap r.server id
  obtain ⟨group, hsplit, hq, _, _⟩ := groupPlayers_spec hfull
  have hgroups : (r.server.insertWaiting id).groupPlayers.groups = r.server.groups ++ [group] := by
    rw [groups_of_ctrlQ hq, groups, (r.server.insertWaiting_frame id).2]
    rfl
  -- The sessions of the group and those that stay are the newcomer and those that waited.
  have hmoved : (group.sessions ++ (r.server.insertWaiting id).groupPlayers.match_.playerMap).Perm
      (id :: r.server.match_.playerMap) := hsplit ▸ hins
  have hknown : ∀ id' ∈ id :: r.entered, (r.server.playerMap id').isSome = true := by
    intro id' hid
    rcases List.mem_cons.mp hid with rfl | hid
    · exact hadmits.2
    · exact h.known id' hid
  have hgroup : ∀ id' ∈ group.sessions, id' = id ∨ id' ∈ r.server.match_.playerMap :=
    fun id' hid => List.mem_cons.mp (hmoved.subset (List.mem_append_left _ hid))
  constructor
  · have hperm := (hmoved.append_right (r.server.grouped ++ r.left)).trans
      (((List.append_assoc _ _ _).symm ▸ h.perm).cons id)
    refine List.Perm.trans ?_ hperm
    simp only [grouped, hgroups, List.flatMap_append, List.flatMap_singleton]
    rw [← Multiset.coe_eq_coe]
    simp only [← Multiset.coe_add]
    abel
  · exact List.nodup_cons.mpr ⟨hnew, h.once⟩
  · have hlength := hmoved.length_eq
    have hfew := h.few
    have hsix : group.sessions.length = 6 := rfl
    simp only [List.length_append, List.length_cons] at hlength
    show (r.server.insertWaiting id).groupPlayers.match_.playerMap.length < 6
    omega
  · intro id' hid
    rw [groupPlayers_playerMap hsplit, withTeam_isSome, withTeam_isSome, hplayers]
    exact hknown id' hid
  · intro group' hgroup'
    rw [hgroups] at hgroup'
    rcases List.mem_append.mp hgroup' with hold | hlast
    · -- A group formed before is disjoint from the new one.
      refine (h.teams group' hold).of_same fun id' hid => ?_
      have hin : id' ∈ r.server.grouped := List.mem_flatMap.mpr ⟨group', hold, hid⟩
      have hout : id' ∉ group.sessions := by
        intro hgrouped
        rcases hgroup id' hgrouped with rfl | hwaiting
        · exact hnew (h.grouped_entered hin)
        · exact h.waiting_grouped hwaiting hin
      exact (groupPlayers_others hsplit hout).trans (by rw [hplayers])
    · rw [List.mem_singleton] at hlast
      subst hlast
      refine groupPlayers_teams hsplit ?_ ?_
      · refine (List.nodup_append.mp (hmoved.nodup_iff.mpr (List.nodup_cons.mpr ⟨?_, ?_⟩))).1
        · exact fun hid => hnew (h.waiting_entered hid)
        · exact h.waiting_nodup
      · intro id' hid
        rw [hplayers]
        rcases hgroup id' hid with rfl | hwaiting
        · exact hadmits.2
        · exact h.known id' (h.waiting_entered hwaiting)

/-- The newcomer waits with at most four others. -/
theorem Matched.enter_wait {r : MatchRun} (h : Matched r) {id : SessionID}
    (hadmits : Admits r.server id) (hnew : id ∉ r.entered)
    (hfew : (r.server.insertWaiting id).match_.playerMap.length < 6) :
    Matched ⟨r.server.insertWaiting id, id :: r.entered, r.left⟩ := by
  have hins := insertWaiting_perm fun hid => hnew (h.waiting_entered hid)
  have hplayers := insertWaiting_playerMap r.server id
  have hgroups : (r.server.insertWaiting id).groups = r.server.groups := by
    rw [groups, groups, (r.server.insertWaiting_frame id).2]
  constructor
  · simp only [grouped, hgroups]
    exact ((hins.append_right _).append_right _).trans (h.perm.cons id)
  · exact List.nodup_cons.mpr ⟨hnew, h.once⟩
  · exact hfew
  · intro id' hid
    rw [hplayers]
    rcases List.mem_cons.mp hid with rfl | hid
    · exact hadmits.2
    · exact h.known id' hid
  · rw [hgroups]
    exact fun group hgroup => (h.teams group hgroup).of_same fun id' _ => by rw [hplayers]

theorem Matched.enter {r : MatchRun} (h : Matched r) {id : SessionID}
    (honce : Admits r.server id → id ∉ r.entered) :
    Matched ⟨r.server.matchEnter id,
      if Admits r.server id then id :: r.entered else r.entered, r.left⟩ := by
  by_cases hadmits : Admits r.server id
  · have hnew := honce hadmits
    simp only [matchEnter, hadmits.1, hadmits.2, hadmits, Bool.false_eq_true, if_false, if_true]
    split
    · rename_i hfull
      exact h.enter_group hadmits hnew hfull
    · rename_i hfew
      exact h.enter_wait hadmits hnew (Nat.lt_of_not_le hfew)
  · have hsame : (r.server.matchEnter id).match_ = r.server.match_ ∧
        (r.server.matchEnter id).ctrlQ = r.server.ctrlQ ∧
        (r.server.matchEnter id).playerMap = r.server.playerMap := by
      unfold matchEnter
      split
      · exact ⟨rfl, rfl, rfl⟩
      · rename_i hrun
        split
        · rename_i hknown
          exact absurd ⟨Bool.not_eq_true _ ▸ hrun, hknown⟩ hadmits
        · exact ⟨rfl, rfl, rfl⟩
    obtain ⟨hmatch, hq, hplayers⟩ := hsame
    rw [if_neg hadmits]
    refine h.of_same (by rw [hmatch]) ?_ rfl rfl fun id' _ => by rw [hplayers]
    simp only [groups, hq]

/-- `CheckStopRequested` forms no group. -/
theorem checkStopRequested_groups (s : Server) :
    s.checkStopRequested.groups = s.groups ∧ s.checkStopRequested.playerMap = s.playerMap := by
  unfold checkStopRequested
  split
  · exact ⟨by rw [groups_of_ctrlQ (s := s) rfl]; exact List.append_nil _, rfl⟩
  · exact ⟨rfl, rfl⟩

theorem matchLeave_spec (s : Server) (id : SessionID) :
    (s.matchLeave id).match_.playerMap = s.match_.playerMap.filter (· ≠ id) ∧
      (s.matchLeave id).groups = s.groups ∧ (s.matchLeave id).playerMap = s.playerMap := by
  obtain ⟨hgroups, hplayers⟩ := checkStopRequested_groups
    { s with match_ := { s.match_ with playerMap := s.match_.playerMap.filter (· ≠ id) } }
  refine ⟨?_, hgroups, hplayers⟩
  rw [matchLeave, (checkStopRequested_spec _).1]

theorem Matched.leave {r : MatchRun} (h : Matched r) (id : SessionID) :
    Matched ⟨r.server.matchLeave id, r.entered,
      if LeavesUngrouped r id then id :: r.left else r.left⟩ := by
  obtain ⟨hmap, hgroups, hplayers⟩ := matchLeave_spec r.server id
  by_cases hleaves : LeavesUngrouped r id
  · -- The session has entered, so it waits, and its place is now among those that left.
    have hwaits : id ∈ r.server.match_.playerMap := by
      obtain ⟨hentered, hgrouped, hleft⟩ := hleaves
      rcases List.mem_append.mp (h.perm.symm.subset hentered) with hmem | hmem
      · exact (List.mem_append.mp hmem).resolve_right hgrouped
      · exact absurd hmem hleft
    have herase : (r.server.matchLeave id).match_.playerMap =
        r.server.match_.playerMap.erase id := by
      rw [hmap, h.waiting_nodup.erase_eq_filter]
      exact List.filter_congr fun id' _ => by simp [bne, beq_eq_decide]
    rw [if_pos hleaves]
    constructor
    · simp only [grouped, hgroups, herase]
      refine List.perm_middle.trans ?_
      rw [List.append_assoc, ← List.cons_append]
      refine ((List.perm_cons_erase hwaits).symm.append_right _).trans ?_
      rw [← List.append_assoc]
      exact h.perm
    · exact h.once
    · have hlength := List.length_erase_le (a := id) (l := r.server.match_.playerMap)
      simp only [herase]
      exact Nat.lt_of_le_of_lt hlength h.few
    · intro id' hid
      simp only [hplayers]
      exact h.known id' hid
    · simp only [hgroups]
      exact fun group hgroup => (h.teams group hgroup).of_same fun id' _ => by rw [hplayers]
  · have hnot : id ∉ r.server.match_.playerMap := by
      intro hmem
      refine hleaves ⟨h.waiting_entered hmem, h.waiting_grouped hmem, fun hleft => ?_⟩
      exact (List.nodup_append.mp h.nodup).2.2 id (List.mem_append_left _ hmem) id hleft rfl
    have hsame : (r.server.matchLeave id).match_.playerMap = r.server.match_.playerMap := by
      rw [hmap, List.filter_eq_self]
      intro id' hid
      simp only [decide_eq_true_eq]
      rintro rfl
      exact hnot hid
    rw [if_neg hleaves]
    refine h.of_same ?_ hgroups rfl rfl fun id' _ => by rw [hplayers]
    simp only [hsame, List.Perm.refl]

theorem foldl_disconnect_playerMap (ids : List SessionID) (s : Server) :
    (ids.foldl disconnect s).playerMap = s.playerMap := by
  induction ids generalizing s with
  | nil => rfl
  | cons id ids ih => exact ih (s.disconnect id)

theorem matchShutDown_groups (s : Server) :
    s.matchShutDown.groups = s.groups ∧ s.matchShutDown.playerMap = s.playerMap := by
  obtain ⟨_, hq, _⟩ := foldl_disconnect_frame s.match_.playerMap
    { s with match_ := { s.match_ with stopRequested := true } }
  obtain ⟨hgroups, hplayers⟩ := checkStopRequested_groups
    (s.match_.playerMap.foldl disconnect
      { s with match_ := { s.match_ with stopRequested := true } })
  refine ⟨hgroups.trans ?_, hplayers.trans (foldl_disconnect_playerMap _ _)⟩
  simp only [groups, hq]

/-- **One call keeps the partition.** -/
theorem Matched.step {r r' : MatchRun} {i : MatchStep} (h : Matched r) (honce : OnceEach r i)
    (hstep : matchStep r i = some r') : Matched r' := by
  cases i with
  | enter id =>
      rw [matchStep, Option.some.injEq] at hstep
      exact hstep ▸ h.enter honce
  | leave id =>
      rw [matchStep, Option.some.injEq] at hstep
      exact hstep ▸ h.leave id
  | shutDown =>
      rw [matchStep, Option.some.injEq] at hstep
      obtain ⟨hgroups, hplayers⟩ := matchShutDown_groups r.server
      subst hstep
      refine h.of_same ?_ hgroups rfl rfl fun id' _ => by rw [hplayers]
      rw [r.server.matchShutDown_spec.1]
  | rehash order place =>
      simp only [matchStep] at hstep
      split at hstep
      · rename_i hperm
        rw [Option.some.injEq] at hstep
        subst hstep
        exact h.of_same (List.isPerm_iff.mp hperm) rfl rfl rfl fun _ _ => rfl
      · simp at hstep
  | accept id pooled =>
      simp only [matchStep] at hstep
      split at hstep
      · rename_i hunknown
        rw [Option.some.injEq] at hstep
        subst hstep
        refine h.of_same (List.Perm.refl _) rfl rfl rfl fun id' hid => if_neg ?_
        rintro rfl
        have hknown := h.known id' hid
        rw [Option.isNone_iff_eq_none] at hunknown
        simp [hunknown] at hknown
      · simp at hstep
  | elsewhere sessions =>
      rw [matchStep, Option.some.injEq] at hstep
      subst hstep
      exact h.of_same (List.Perm.refl _) rfl rfl rfl fun _ _ => rfl

/-! ## Runs -/

theorem matched_run {pooled : FightContents} {is : List MatchStep} {r : MatchRun}
    (honce : Along matchStep OnceEach (matchStart pooled) is)
    (hrun : exec matchStep (matchStart pooled) is = some r) : Matched r :=
  exec_invariant_along (fun _ _ _ h hok hstep => h.step hok hstep) (matched_start pooled) honce hrun

/-- A stopped match stays stopped and forms no group. -/
theorem stopped_step {r r' : MatchRun} {i : MatchStep}
    (hstopped : r.server.match_.stopRequested = true) (hstep : matchStep r i = some r') :
    r'.server.match_.stopRequested = true ∧ r'.server.groups = r.server.groups := by
  cases i with
  | enter id =>
      rw [matchStep, Option.some.injEq] at hstep
      subst hstep
      simp only [matchEnter, hstopped, if_true]
      exact ⟨hstopped, rfl⟩
  | leave id =>
      rw [matchStep, Option.some.injEq] at hstep
      subst hstep
      refine ⟨?_, (matchLeave_spec r.server id).2.1⟩
      rw [matchLeave, (checkStopRequested_spec _).1]
      exact hstopped
  | shutDown =>
      rw [matchStep, Option.some.injEq] at hstep
      subst hstep
      exact ⟨by rw [r.server.matchShutDown_spec.1], (matchShutDown_groups r.server).1⟩
  | rehash order place =>
      simp only [matchStep] at hstep
      split at hstep
      · rw [Option.some.injEq] at hstep
        subst hstep
        exact ⟨hstopped, rfl⟩
      · simp at hstep
  | accept id pooled =>
      simp only [matchStep] at hstep
      split at hstep
      · rw [Option.some.injEq] at hstep
        subst hstep
        exact ⟨hstopped, rfl⟩
      · simp at hstep
  | elsewhere sessions =>
      rw [matchStep, Option.some.injEq] at hstep
      subst hstep
      exact ⟨hstopped, rfl⟩

theorem shutDown_groups {r t : MatchRun} {js : List MatchStep}
    (h : exec matchStep r (.shutDown :: js) = some t) : t.server.groups = r.server.groups := by
  obtain ⟨m, hm, hrest⟩ := exec_cons_eq_some.mp h
  rw [matchStep, Option.some.injEq] at hm
  have hstart : m.server.match_.stopRequested = true ∧ m.server.groups = r.server.groups := by
    subst hm
    exact ⟨by rw [r.server.matchShutDown_spec.1], (matchShutDown_groups r.server).1⟩
  exact (exec_invariant (I := fun s =>
    s.server.match_.stopRequested = true ∧ s.server.groups = r.server.groups)
    (fun s i u hs hstep => by
      obtain ⟨hstopped, hgroups⟩ := stopped_step hs.1 hstep
      exact ⟨hstopped, hgroups.trans hs.2⟩) hstart hrest).2

/-- What the match promises of every state. -/
structure Partitioned (r : MatchRun) : Prop where
  /-- fewer than six sessions wait -/
  few : r.server.match_.playerMap.length < 6
  /-- six distinct sessions in a group, each in the team of its slot -/
  distinct : ∀ group ∈ r.server.groups, group.sessions.Nodup ∧ TeamsSet r.server group
  /-- who is grouped had entered, had not left, and is grouped once -/
  grouped : ∀ id ∈ r.server.grouped,
    id ∈ r.entered ∧ id ∉ r.left ∧ r.server.grouped.count id = 1
  /-- who has entered waits, is in one group or has left ungrouped -/
  place : ∀ id ∈ r.entered,
    r.server.match_.playerMap.count id + r.server.grouped.count id + r.left.count id = 1

theorem Matched.partitioned {r : MatchRun} (h : Matched r) : Partitioned r where
  few := h.few
  distinct := by
    intro group hgroup
    refine ⟨?_, h.teams group hgroup⟩
    have hgrouped := (List.nodup_append.mp (List.nodup_append.mp h.nodup).1).2.1
    exact (List.nodup_flatMap.mp hgrouped).1 group hgroup
  grouped := by
    intro id hid
    have hmem : id ∈ r.server.match_.playerMap ++ r.server.grouped :=
      List.mem_append_right _ hid
    refine ⟨h.grouped_entered hid, fun hleft => ?_, ?_⟩
    · exact (List.nodup_append.mp h.nodup).2.2 id hmem id hleft rfl
    · have hgrouped := (List.nodup_append.mp (List.nodup_append.mp h.nodup).1).2.1
      exact List.count_eq_one_of_mem hgrouped hid
  place := by
    intro id hid
    rw [← List.count_append, ← List.count_append, h.perm.count_eq]
    exact List.count_eq_one_of_mem h.once hid

/-- **Matching is a partition**: whatever the calls and the iteration order, fewer than
six sessions wait, every group holds six sessions that had entered and neither left nor
been grouped, in their teams, and who has entered has one place.  `OnShutDown` ends the
forming of groups. -/
theorem matching_partitions (pooled : FightContents) (is : List MatchStep) (r : MatchRun)
    (honce : Along matchStep OnceEach (matchStart pooled) is)
    (hrun : exec matchStep (matchStart pooled) is = some r) :
    Partitioned r ∧ ∀ js t, exec matchStep r (.shutDown :: js) = some t →
      t.server.groups = r.server.groups :=
  ⟨(matched_run honce hrun).partitioned, fun _ _ h => shutDown_groups h⟩

/-- Seven sessions enter; one leaves early, and the others become a group whose last
member lands in the middle of the iteration. -/
def sevenEnter : List MatchStep :=
  (List.range 7).map (fun i => .accept (firstSession i) (firstPlayer i .red)) ++
    [.enter (firstSession 0), .enter (firstSession 1), .leave (firstSession 0),
      .rehash [firstSession 1] 1] ++
    [2, 3, 4, 5, 6].map fun i => .enter (firstSession i)

theorem sevenEnter_partitions :
    ∃ r ∈ exec matchStep (matchStart pooledFight) sevenEnter,
      r.server.groups.length = 1 ∧ r.left = [firstSession 0] ∧ Partitioned r := by
  have hsome : ∃ r ∈ exec matchStep (matchStart pooledFight) sevenEnter,
      r.server.groups.length = 1 ∧ r.left = [firstSession 0] := by decide +kernel
  obtain ⟨r, hr, hgroups, hleft⟩ := hsome
  exact ⟨r, hr, hgroups, hleft,
    (matching_partitions pooledFight sevenEnter r (by decide +kernel) hr).1⟩

end SessionServer.Battle
