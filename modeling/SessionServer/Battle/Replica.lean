/-
  Battle/Replica.lean --- what the packets of a fight tell a session.

  `FightProxy` sends each session the start values of all players, and from then on what the
  requests and the leaves change.  It sends neither the frames of `OnUpdate` nor the
  requests of a session back to it.  A replica is all that can be concluded from the packets
  of one session together with the frames played: what it holds of the others is what the
  server holds.
-/
import SessionServer.Battle.Requests
import SessionServer.Battle.Roster
import SessionServer.Foundation.Observer

set_option autoImplicit false

namespace SessionServer.Battle

open SessionServer.Foundation FightContents

/-! ## Replicas -/

/-- What the packets tell of a player. -/
structure Avatar where
  direction : UInt8
  x : UInt16
  y : UInt16
  hp : UInt8
  move : Int8
  deriving DecidableEq

/-- The part of a player that is told. -/
def Player.avatar (player : Player) : Avatar :=
  ⟨player.direction, player.x, player.y, player.hp.toUInt8, player.move⟩

namespace Avatar

/-- A player that looks like this; the fields that are not told are those of nobody. -/
def player (avatar : Avatar) : Player where
  sessionID := 0
  id := 0
  direction := avatar.direction
  x := avatar.x
  y := avatar.y
  hp := avatar.hp.toInt8
  move := avatar.move
  team := .red
  lastMoveRequestAt := 0
  lastAttackRequestAt := 0
  contents := 0

/-- The frames of `OnUpdate`. -/
def advance (avatar : Avatar) (frames : Nat) : Avatar :=
  if avatar.move ≠ -1 then (applyMovement avatar.player frames).avatar else avatar

end Avatar

/-- What a session is shown: a packet, or the frames of an update. -/
inductive Sight where
  | packet (message : SCMessage)
  | frames (count : Nat)
  deriving DecidableEq

/-- What is known of the players, under their IDs. -/
abbrev Replica := UInt32 → Option Avatar

namespace Replica

/-- Nobody is known yet. -/
def blank : Replica := fun _ => none

/-- Something is told of a player; nothing is concluded of one that is not known. -/
def tell (r : Replica) (id : UInt32) (change : Avatar → Avatar) : Replica :=
  Function.update r id ((r id).map change)

def see (r : Replica) : Sight → Replica
  | .packet (.createMe id dir x y hp) => Function.update r id (some ⟨dir, x, y, hp, -1⟩)
  | .packet (.createOther id dir x y hp) => Function.update r id (some ⟨dir, x, y, hp, -1⟩)
  | .packet (.delete id) => Function.update r id none
  | .packet (.moveStart id dir x y) =>
      r.tell id fun known =>
        { known with direction := facing known.player dir, move := dir.toInt8, x := x, y := y }
  | .packet (.moveStop id dir x y) =>
      r.tell id fun known =>
        { known with direction := facing known.player dir, move := -1, x := x, y := y }
  | .packet (.attack _ id dir x y) =>
      r.tell id fun known => { known with direction := dir, x := x, y := y }
  | .packet (.damage _ tgt hp) => r.tell tgt fun known => { known with hp := hp }
  | .frames count => fun id => (r id).map fun known => known.advance count

end Replica

/-- The packets the effects send to a session, in order. -/
def packetsTo (sessionID : SessionID) (effects : List Effect) : List SCMessage :=
  effects.flatMap fun effect => match effect with
    | .send sessions message => List.replicate (sessions.count sessionID) message
    | _ => []

/-- What a session is shown by one event. -/
def sightsOf (sessionID : SessionID) (f : FightContents) (event : FightEvent) : List Sight :=
  (match event with
    | .update now => [.frames ((now - f.oldTick) / 20).toNat]
    | _ => []) ++ (packetsTo sessionID (fightStep f event).2).map .packet

/-- The replica of a session after a run. -/
def replicaOf (pool : SessionID → Player) (sessionID : SessionID) (f : FightContents)
    (inputs : List FightInput) : Replica :=
  (shown (fun f input => (fightStep f (FightInput.event pool f input)).1)
    (fun f input => sightsOf sessionID f (input.event pool f)) f inputs).foldl Replica.see
      Replica.blank

/-- **A replica agrees with the fight**: it knows the others as the server does, of the
session itself the hp, and nobody else. -/
structure Agrees (sessionID : SessionID) (f : FightContents) (r : Replica) : Prop where
  others : ∀ entry ∈ f.playerMap, entry.1 ≠ sessionID → r entry.2.id = some entry.2.avatar
  own : ∀ entry ∈ f.playerMap, entry.1 = sessionID →
    ∃ known, r entry.2.id = some known ∧ known.hp = entry.2.avatar.hp
  known : ∀ id, (r id).isSome → ∃ entry ∈ f.playerMap, entry.2.id = id

/-- What the packets rely on: the players are under their own keys, and have IDs of their
own. -/
structure Told (f : FightContents) : Prop where
  nodup : f.playerMap.keys.Nodup
  keyed : f.playerMap.Keyed
  ids : f.DistinctIDs

/-! ## Packets -/

section

variable {sessionID : SessionID}

@[simp] theorem packetsTo_nil : packetsTo sessionID [] = [] := rfl

theorem packetsTo_append (effects more : List Effect) :
    packetsTo sessionID (effects ++ more) =
      packetsTo sessionID effects ++ packetsTo sessionID more :=
  List.flatMap_append

theorem packetsTo_cons (effect : Effect) (more : List Effect) :
    packetsTo sessionID (effect :: more) =
      packetsTo sessionID [effect] ++ packetsTo sessionID more :=
  packetsTo_append [effect] more

/-- A packet to sessions that are all different arrives once. -/
theorem packetsTo_send {sessions : List SessionID} (hnodup : sessions.Nodup)
    (message : SCMessage) :
    packetsTo sessionID [.send sessions message] =
      if sessionID ∈ sessions then [message] else [] := by
  show List.replicate _ message ++ [] = _
  rw [List.append_nil]
  split
  · rename_i hmem
    rw [List.count_eq_one_of_mem hnodup hmem]
    rfl
  · rename_i hmem
    rw [List.count_eq_zero_of_not_mem hmem]
    rfl

/-- Requests to the server other than sending show nothing. -/
theorem packetsTo_eq_nil {effects : List Effect}
    (h : ∀ sessions message, .send sessions message ∉ effects) :
    packetsTo sessionID effects = [] := by
  rw [packetsTo, List.flatMap_eq_nil_iff]
  intro effect hmem
  cases effect with
  | send sessions message => exact absurd hmem (h sessions message)
  | _ => rfl

theorem mem_packetsTo {effects : List Effect} {message : SCMessage}
    (h : message ∈ packetsTo sessionID effects) :
    ∃ sessions, .send sessions message ∈ effects ∧ sessionID ∈ sessions := by
  obtain ⟨effect, heffect, hmem⟩ := List.mem_flatMap.mp h
  cases effect with
  | send sessions other =>
      obtain ⟨hcount, rfl⟩ := List.mem_replicate.mp hmem
      exact ⟨sessions, heffect, List.count_pos_iff.mp (by omega)⟩
  | _ => cases hmem

theorem mem_packetsTo_of_send {effects : List Effect} {sessions : List SessionID}
    {message : SCMessage} (heffect : .send sessions message ∈ effects)
    (hmem : sessionID ∈ sessions) : message ∈ packetsTo sessionID effects := by
  refine List.mem_flatMap.mpr ⟨_, heffect, List.mem_replicate.mpr ⟨?_, rfl⟩⟩
  have hcount := List.count_pos_iff.mpr hmem
  omega

end

/-! ## Avatars -/

@[simp] theorem avatar_player (avatar : Avatar) : avatar.player.avatar = avatar := by
  simp [Avatar.player, Player.avatar]

/-- The frames of a player are those of its avatar. -/
theorem applyMovement_avatar (player : Player) (frame : Int) :
    (applyMovement player frame).avatar =
      (applyMovement player.avatar.player frame).avatar := by
  simp only [applyMovement]
  split
  · exact (avatar_player player.avatar).symm
  · simp only [Avatar.player, Player.avatar]
    split <;> simp

/-- What `OnUpdate` makes of a player is told by the number of frames. -/
theorem onUpdate_avatar (player : Player) (frames : Nat) :
    (if player.move ≠ -1 then applyMovement player frames else player).avatar =
      player.avatar.advance frames := by
  have hmove : player.avatar.move = player.move := rfl
  rw [Avatar.advance, hmove]
  split
  · exact applyMovement_avatar player frames
  · rfl

theorem applyDamage_avatar (player : Player) (damage : Int) :
    (applyDamage player damage).avatar =
      { player.avatar with hp := (applyDamage player damage).hp.toUInt8 } := rfl

/-! ## Announcements -/

/-- The packet the others are sent about a request that has been written. -/
def CSMessage.announcement (message : CSMessage) (written : Player) : Option SCMessage :=
  match message with
  | .moveStart dir x y => some (.moveStart written.id dir x y)
  | .moveStop dir x y => some (.moveStop written.id dir x y)
  | .attack type _ _ _ =>
      some (.attack type written.id written.direction written.x written.y)
  | .other => none

/-- An announcement tells what has been written. -/
theorem see_announcement {r : Replica} {message : CSMessage} {now : UInt32} {player : Player}
    {packet : SCMessage} (hknown : r player.id = some player.avatar)
    (hpacket : message.announcement (message.write now player) = some packet) :
    r.see (.packet packet) =
      Function.update r player.id (some (message.write now player).avatar) := by
  cases message with
  | other => cases hpacket
  | _ =>
      cases hpacket
      simp only [Replica.see, Replica.tell, CSMessage.write, hknown, Option.map_some]
      rfl

section

variable {f : FightContents} {sender : SessionID} {message : CSMessage} {now : UInt32}

/-- A request that passes is announced to the others. -/
theorem procMessage_head {player : Player}
    (haccepted : f.accepted sender message now = some player) :
    ∃ packet, message.announcement (message.write now player) = some packet ∧
      (f.procMessage sender message now).2.head? =
        some (.send ((f.acting sender message now player).collectOtherSessions sender) packet) := by
  obtain ⟨hfind, hpasses⟩ := accepted_eq_some.mp haccepted
  cases message with
  | other => cases hpasses
  | moveStart dir x y =>
      simp only [CSMessage.passes, Bool.and_eq_true, Bool.not_eq_true', decide_eq_false_iff_not]
        at hpasses
      obtain ⟨⟨⟨hdir, hsync⟩, hnews⟩, hinterval⟩ := hpasses
      refine ⟨_, rfl, ?_⟩
      simp only [procMessage, procCSMoveStart, hdir, hfind, hsync, hnews, hinterval, Bool.not_true,
        Bool.false_eq_true, if_false]
      rfl
  | moveStop dir x y =>
      simp only [CSMessage.passes, Bool.and_eq_true, Bool.not_eq_true', decide_eq_false_iff_not]
        at hpasses
      obtain ⟨⟨hdir, hsync⟩, hnews⟩ := hpasses
      refine ⟨_, rfl, ?_⟩
      simp only [procMessage, procCSMoveStop, hdir, hfind, hsync, hnews, Bool.not_true,
        Bool.false_eq_true, if_false]
      rfl
  | attack type dir x y =>
      simp only [CSMessage.passes, Bool.and_eq_true] at hpasses
      obtain ⟨⟨hdir, hsync⟩, hinterval⟩ := hpasses
      refine ⟨_, rfl, ?_⟩
      simp only [procMessage_attack, procCSAttack, hdir, hfind, hsync, hinterval, Bool.not_true,
        Bool.false_eq_true, if_false]
      rfl

/-- Everything one message shows: nothing, or the announcement, and the damage if it has
struck. -/
theorem procMessage_shows (f : FightContents) (sender : SessionID) (message : CSMessage)
    (now : UInt32) :
    ((f.procMessage sender message now).1 = f ∧
      ∀ sessions packet, .send sessions packet ∉ (f.procMessage sender message now).2) ∨
    ∃ player packet, f.accepted sender message now = some player ∧
      message.announcement (message.write now player) = some packet ∧
      (f.procMessage sender message now =
          (f.acting sender message now player,
            [.send ((f.acting sender message now player).collectOtherSessions sender) packet]) ∨
        ∃ type entry, f.hit sender message now = some (type, entry) ∧
          f.procMessage sender message now =
            (((f.acting sender message now player).strike (message.write now player) type
                entry).1,
              .send ((f.acting sender message now player).collectOtherSessions sender) packet ::
                ((f.acting sender message now player).strike (message.write now player) type
                  entry).2)) := by
  have hmessaged := f.procMessage_messaged sender message now
  have hhead := fun player => @procMessage_head f sender message now player
  generalize f.procMessage sender message now = out at hmessaged hhead
  cases hmessaged with
  | refused effects hnone heffects =>
      refine Or.inl ⟨rfl, fun sessions packet hmem => ?_⟩
      rcases heffects with rfl | rfl <;> simp at hmem
  | acted player packet hpacket haccepted hnone =>
      obtain ⟨announced, hannounced, heq⟩ := hhead player haccepted
      have hsame : packet = announced := by simpa using heq
      exact Or.inr ⟨player, packet, haccepted, hsame ▸ hannounced, Or.inl rfl⟩
  | struck player packet hpacket type entry haccepted hhit =>
      obtain ⟨announced, hannounced, heq⟩ := hhead player haccepted
      have hsame : packet = announced := by simpa using heq
      exact Or.inr ⟨player, packet, haccepted, hsame ▸ hannounced,
        Or.inr ⟨type, entry, hhit, rfl⟩⟩

end

/-! ## One event -/

section

variable {sessionID : SessionID} {f : FightContents} {r : Replica}

/-- The replica after a list of packets. -/
def Replica.hear (r : Replica) (packets : List SCMessage) : Replica :=
  (packets.map Sight.packet).foldl Replica.see r

theorem keys_written (f : FightContents) (key : SessionID) (player : Player) :
    (f.written key player).playerMap.keys = f.playerMap.keys :=
  PlayerMap.keys_modify f.playerMap key fun _ => player

theorem Told.write (h : Told f) {key : SessionID} {old new : Player}
    (hmem : (key, old) ∈ f.playerMap) (hid : new.id = old.id)
    (hsession : new.sessionID = old.sessionID) : Told (f.written key new) where
  nodup := by
    rw [keys_written]
    exact h.nodup
  keyed := (PlayerMap.Kept.modify hmem hsession).keyed h.keyed
  ids := by
    have hnew : ∀ entry ∈ f.playerMap, entry.1 ≠ key → entry.2.id ≠ new.id := by
      intro entry hentry hne heq
      exact hne (congrArg Prod.fst (h.ids entry hentry _ hmem (heq.trans hid)))
    intro a ha b hb hab
    rcases PlayerMap.mem_modify.mp ha with ⟨haold, hane⟩ | ⟨_, rfl⟩
    · rcases PlayerMap.mem_modify.mp hb with ⟨hbold, hbne⟩ | ⟨_, rfl⟩
      · exact h.ids a haold b hbold hab
      · exact absurd hab (hnew a haold hane)
    · rcases PlayerMap.mem_modify.mp hb with ⟨hbold, hbne⟩ | ⟨_, rfl⟩
      · exact absurd hab.symm (hnew b hbold hbne)
      · rfl

/-- A player is written, and what is known of it follows. -/
theorem Agrees.write (h : Agrees sessionID f r) (ht : Told f) {key : SessionID}
    {old new : Player} (hmem : (key, old) ∈ f.playerMap) (hid : new.id = old.id) {known : Avatar}
    (hother : key ≠ sessionID → known = new.avatar) (hown : known.hp = new.avatar.hp) :
    Agrees sessionID (f.written key new) (Function.update r old.id (some known)) := by
  have hkey : key ∈ f.playerMap.keys := List.mem_map_of_mem hmem
  have hkept : ∀ entry ∈ f.playerMap, entry.1 ≠ key →
      Function.update r old.id (some known) entry.2.id = r entry.2.id := by
    intro entry hentry hne
    refine Function.update_of_ne (fun heq => hne ?_) _ _
    exact congrArg Prod.fst (ht.ids entry hentry _ hmem heq)
  have hnew : Function.update r old.id (some known) new.id = some known := by
    rw [hid, Function.update_self]
  refine ⟨fun entry hentry hne => ?_, fun entry hentry heq => ?_, fun id hsome => ?_⟩
  · rcases PlayerMap.mem_modify.mp hentry with ⟨hold, hnotKey⟩ | ⟨_, rfl⟩
    · rw [hkept entry hold hnotKey]
      exact h.others entry hold hne
    · rw [hnew, hother hne]
  · rcases PlayerMap.mem_modify.mp hentry with ⟨hold, hnotKey⟩ | ⟨_, rfl⟩
    · rw [hkept entry hold hnotKey]
      exact h.own entry hold heq
    · exact ⟨known, hnew, hown⟩
  · by_cases hsame : id = old.id
    · exact ⟨(key, new), PlayerMap.mem_modify.mpr (Or.inr ⟨hkey, rfl⟩), hid.trans hsame.symm⟩
    · rw [Function.update_of_ne hsame] at hsome
      obtain ⟨entry, hentry, rfl⟩ := h.known id hsome
      refine ⟨entry, PlayerMap.mem_modify.mpr (Or.inl ⟨hentry, fun heq => hsame ?_⟩), rfl⟩
      exact congrArg (fun e : SessionID × Player => e.2.id)
        (PlayerMap.eq_of_key ht.nodup hentry hmem heq)

theorem mem_collectOtherSessions {id sender : SessionID} :
    id ∈ f.collectOtherSessions sender ↔ id ∈ f.playerMap.keys ∧ id ≠ sender := by
  simp only [collectOtherSessions, PlayerMap.keys, List.mem_map, List.mem_filter,
    decide_eq_true_eq]
  constructor
  · rintro ⟨entry, ⟨hmem, hne⟩, rfl⟩
    exact ⟨⟨entry, hmem, rfl⟩, hne⟩
  · rintro ⟨⟨entry, hmem, rfl⟩, hne⟩
    exact ⟨entry, ⟨hmem, hne⟩, rfl⟩

theorem Told.collectOtherSessions_nodup (h : Told f) (sender : SessionID) :
    (f.collectOtherSessions sender).Nodup :=
  h.nodup.sublist (List.filter_sublist.map Prod.fst)

/-- A request is written, and the others are told. -/
theorem Agrees.acting (h : Agrees sessionID f r) (ht : Told f)
    (hthere : sessionID ∈ f.playerMap.keys) {sender : SessionID} {message : CSMessage}
    {now : UInt32} {player : Player} {packet : SCMessage}
    (haccepted : f.accepted sender message now = some player)
    (hpacket : message.announcement (message.write now player) = some packet) :
    Told (f.acting sender message now player) ∧
      Agrees sessionID (f.acting sender message now player)
        (r.hear (packetsTo sessionID
          [.send ((f.acting sender message now player).collectOtherSessions sender) packet])) := by
  have hmem := PlayerMap.mem_of_find (accepted_eq_some.mp haccepted).1
  have hid : (message.write now player).id = player.id := write_id message now player
  have hsession : (message.write now player).sessionID = player.sessionID := by
    cases message <;> rfl
  have htold : Told (f.acting sender message now player) := ht.write hmem hid hsession
  have hkeys : (f.acting sender message now player).playerMap.keys = f.playerMap.keys :=
    keys_written f sender _
  refine ⟨htold, ?_⟩
  rw [packetsTo_send (htold.collectOtherSessions_nodup sender)]
  by_cases hsender : sessionID = sender
  · -- The sender is told nothing; of itself it knows the hp, which a request leaves alone.
    subst hsender
    rw [if_neg fun hother => (mem_collectOtherSessions.mp hother).2 rfl]
    obtain ⟨known, hknown, hhp⟩ := h.own _ hmem rfl
    have hsame : Function.update r player.id (some known) = r := by
      rw [← hknown, Function.update_eq_self]
    have hkept : known.hp = (message.write now player).avatar.hp := by
      rw [hhp]
      show player.hp.toUInt8 = (message.write now player).hp.toUInt8
      rw [write_hp]
    have hwritten := h.write ht hmem hid (fun hne => absurd rfl hne) hkept
    rwa [hsame] at hwritten
  · rw [if_pos (mem_collectOtherSessions.mpr ⟨hkeys ▸ hthere, hsender⟩)]
    have hknown := h.others _ hmem (Ne.symm hsender)
    show Agrees sessionID _ (r.see (.packet packet))
    rw [see_announcement hknown hpacket]
    exact h.write ht hmem hid (fun _ => rfl) rfl

/-- An entry is struck, and everybody is told. -/
theorem Agrees.strike (h : Agrees sessionID f r) (ht : Told f)
    (hthere : sessionID ∈ f.playerMap.keys) (attacker : Player) (type : AttackType)
    {entry : SessionID × Player} (hmem : entry ∈ f.playerMap) :
    Agrees sessionID (f.strike attacker type entry).1
      (r.hear (packetsTo sessionID (f.strike attacker type entry).2)) := by
  have hall : (f.written entry.1
      (applyDamage entry.2 type.getAttackDamage)).collectAllSessions = f.playerMap.keys :=
    keys_written f entry.1 _
  have hkick : packetsTo sessionID
      (if (applyDamage entry.2 type.getAttackDamage).hp ≤ 0 then
        [.disconnect (applyDamage entry.2 type.getAttackDamage).sessionID] else []) = [] := by
    split <;> rfl
  simp only [FightContents.strike]
  rw [packetsTo_append, hkick, List.nil_append, hall, packetsTo_send ht.nodup, if_pos hthere]
  obtain ⟨known, hknown, hother⟩ : ∃ known, r entry.2.id = some known ∧
      (entry.1 ≠ sessionID → known = entry.2.avatar) := by
    by_cases hown : entry.1 = sessionID
    · obtain ⟨known, hknown, _⟩ := h.own entry hmem hown
      exact ⟨known, hknown, fun hne => absurd hown hne⟩
    · exact ⟨entry.2.avatar, h.others entry hmem hown, fun _ => rfl⟩
  show Agrees sessionID _ (Function.update r entry.2.id ((r entry.2.id).map _))
  rw [hknown, Option.map_some]
  have hid : (applyDamage entry.2 type.getAttackDamage).id = entry.2.id := rfl
  apply h.write ht hmem hid
  · intro hne
    rw [applyDamage_avatar, hother hne]
  · rfl

/-- **A message keeps a replica in agreement.** -/
theorem Agrees.message (h : Agrees sessionID f r) (ht : Told f)
    (hthere : sessionID ∈ f.playerMap.keys) (sender : SessionID) (message : CSMessage)
    (now : UInt32) :
    Agrees sessionID (f.procMessage sender message now).1
      (r.hear (packetsTo sessionID (f.procMessage sender message now).2)) := by
  rcases procMessage_shows f sender message now with
    ⟨hsame, hnone⟩ | ⟨player, packet, haccepted, hpacket, hout⟩
  · rw [hsame, packetsTo_eq_nil hnone]
    exact h
  · obtain ⟨htold, hagrees⟩ := h.acting ht hthere haccepted hpacket
    rcases hout with hout | ⟨type, entry, hhit, hout⟩
    · rw [hout]
      exact hagrees
    · obtain ⟨_, _, _, hentry, hne, _⟩ := hit_spec hhit
      have hkeys : sessionID ∈ (f.acting sender message now player).playerMap.keys := by
        rw [FightContents.acting, keys_written]
        exact hthere
      have hthereToo : entry ∈ (f.acting sender message now player).playerMap :=
        PlayerMap.mem_modify.mpr (Or.inl ⟨hentry, hne⟩)
      have hstruck := hagrees.strike htold hkeys (message.write now player) type hthereToo
      rw [hout, packetsTo_cons, Replica.hear, List.map_append, List.foldl_append]
      exact hstruck

/-- The sessions `OnLeave` collects are those under the other keys. -/
theorem Told.removePlayer_snd (h : Told f) {leaver : SessionID} {player : Player}
    (hleaver : (leaver, player) ∈ f.playerMap) :
    (f.removePlayer leaver player).2 =
      [.send (f.collectOtherSessions leaver) (.delete player.id)] := by
  have hown : player.sessionID = leaver := h.keyed _ hleaver
  have hothers : (f.playerMap.filter fun entry => leaver ≠ entry.2.sessionID).map
      (fun entry => entry.2.sessionID) = f.collectOtherSessions leaver := by
    have hfilter : (f.playerMap.filter fun entry => leaver ≠ entry.2.sessionID) =
        f.playerMap.filter fun entry => entry.1 ≠ leaver := by
      apply List.filter_congr
      intro entry hentry
      rw [h.keyed entry hentry, decide_eq_decide]
      exact ne_comm
    rw [hfilter]
    apply List.map_congr_left
    intro entry hentry
    exact h.keyed entry (List.mem_of_mem_filter hentry)
  rw [← hothers, ← hown]
  unfold removePlayer
  cases player.team <;> rfl

/-- A player leaves, and the others are told. -/
theorem Agrees.leave (h : Agrees sessionID f r) (ht : Told f) {leaver : SessionID}
    (hthere : sessionID ∈ f.playerMap.keys) (hstays : sessionID ≠ leaver) :
    Agrees sessionID (f.onLeave leaver).1
      (r.hear (packetsTo sessionID (f.onLeave leaver).2)) := by
  cases hfind : f.playerMap.find leaver with
  | none =>
      simp only [onLeave, hfind]
      exact h
  | some player =>
      have hleaver := PlayerMap.mem_of_find hfind
      have hpackets : packetsTo sessionID (f.onLeave leaver).2 = [.delete player.id] := by
        have hdelete : packetsTo sessionID (f.removePlayer leaver player).2 =
            [.delete player.id] := by
          rw [ht.removePlayer_snd hleaver, packetsTo_send (ht.collectOtherSessions_nodup leaver),
            if_pos (mem_collectOtherSessions.mpr ⟨hthere, hstays⟩)]
        simp only [onLeave, hfind]
        split
        · rw [packetsTo_append, hdelete, packetsTo_eq_nil, List.append_nil]
          simp [finishFightAndRelease, disconnectRemainingPlayers]
        · exact hdelete
      rw [hpackets]
      show Agrees sessionID _ (Function.update r player.id none)
      have hkept : ∀ entry ∈ f.playerMap, entry.1 ≠ leaver →
          Function.update r player.id none entry.2.id = r entry.2.id := by
        intro entry hentry hne
        refine Function.update_of_ne (fun heq => hne ?_) _ _
        exact congrArg Prod.fst (ht.ids entry hentry _ hleaver heq)
      refine ⟨fun entry hentry hne => ?_, fun entry hentry heq => ?_, fun id hsome => ?_⟩
      · obtain ⟨hold, hleft⟩ := mem_onLeave.mp hentry
        rw [hkept entry hold hleft]
        exact h.others entry hold hne
      · obtain ⟨hold, hleft⟩ := mem_onLeave.mp hentry
        rw [hkept entry hold hleft]
        exact h.own entry hold heq
      · by_cases hgone : id = player.id
        · rw [hgone, Function.update_self] at hsome
          cases hsome
        · rw [Function.update_of_ne hgone] at hsome
          obtain ⟨entry, hentry, rfl⟩ := h.known id hsome
          refine ⟨entry, mem_onLeave.mpr ⟨hentry, fun heq => hgone ?_⟩, rfl⟩
          rw [PlayerMap.eq_of_key ht.nodup hentry hleaver heq]

/-- The frames are played on both sides. -/
theorem Agrees.update (h : Agrees sessionID f r) (now : UInt32) :
    Agrees sessionID (f.onUpdate now)
      (r.see (.frames ((now - f.oldTick) / 20).toNat)) := by
  -- What the update makes of an entry.
  have hplayed : ∀ entry ∈ (f.onUpdate now).playerMap, ∃ old ∈ f.playerMap,
      entry.1 = old.1 ∧ entry.2.id = old.2.id ∧
        entry.2.avatar = old.2.avatar.advance ((now - f.oldTick) / 20).toNat := by
    intro entry hentry
    obtain ⟨old, hold, rfl⟩ := List.mem_map.mp hentry
    have havatar := onUpdate_avatar old.2 ((now - f.oldTick) / 20).toNat
    refine ⟨old, hold, ?_⟩
    split
    · rename_i hmoves
      rw [if_pos hmoves] at havatar
      obtain ⟨x, y, hframe⟩ := applyMovement_frame old.2 ((now - f.oldTick) / 20).toNat
      exact ⟨rfl, by rw [hframe], havatar⟩
    · rename_i hstands
      rw [if_neg hstands] at havatar
      exact ⟨rfl, rfl, havatar⟩
  have hhp : ∀ (known : Avatar) (frames : Nat), (known.advance frames).hp = known.hp := by
    intro known frames
    unfold Avatar.advance
    split
    · obtain ⟨x, y, hframe⟩ := applyMovement_frame known.player frames
      rw [hframe]
      change known.player.avatar.hp = known.hp
      rw [avatar_player]
    · rfl
  refine ⟨fun entry hentry hne => ?_, fun entry hentry heq => ?_, fun id hsome => ?_⟩
  · obtain ⟨old, hold, hkey, hid, havatar⟩ := hplayed entry hentry
    simp only [Replica.see]
    rw [hid, h.others old hold (hkey ▸ hne), havatar, Option.map_some]
  · obtain ⟨old, hold, hkey, hid, havatar⟩ := hplayed entry hentry
    obtain ⟨known, hknown, hsame⟩ := h.own old hold (hkey ▸ heq)
    refine ⟨known.advance ((now - f.oldTick) / 20).toNat, ?_, ?_⟩
    · simp only [Replica.see]
      rw [hid, hknown, Option.map_some]
    · rw [havatar, hhp, hhp, hsame]
  · simp only [Replica.see, Option.isSome_map] at hsome
    obtain ⟨old, hold, rfl⟩ := h.known id hsome
    refine ⟨_, List.mem_map_of_mem hold, ?_⟩
    split
    · obtain ⟨x, y, hframe⟩ := applyMovement_frame old.2 ((now - f.oldTick) / 20).toNat
      rw [hframe]
    · rfl

/-- **One event of a started fight** keeps the replica of a session that stays in
agreement. -/
theorem Agrees.step (h : Agrees sessionID f r) (ht : Told f) {event : FightEvent}
    (hevent : event.entering = none)
    (hthere : sessionID ∈ (fightStep f event).1.playerMap.keys) :
    Agrees sessionID (fightStep f event).1 ((sightsOf sessionID f event).foldl Replica.see r) := by
  have hbefore : sessionID ∈ f.playerMap.keys := by
    rcases fightStep_keys hthere with hold | hentering
    · exact hold
    · rw [hevent] at hentering
      cases hentering
  cases event with
  | enter id found moved => cases hevent
  | leave id =>
      obtain ⟨entry, hentry, hkey⟩ := List.mem_map.mp hthere
      exact h.leave ht hbefore (hkey ▸ (mem_onLeave.mp hentry).2)
  | update now => exact h.update now
  | message sender message now => exact h.message ht hbefore sender message now
  | rehash order =>
      have hmem : ∀ entry, entry ∈ (fightStep f (.rehash order)).1.playerMap ↔
          entry ∈ f.playerMap := fun entry => mem_rehash
      refine ⟨fun entry hentry => ?_, fun entry hentry => ?_, fun id hsome => ?_⟩
      · exact h.others entry ((hmem entry).mp hentry)
      · exact h.own entry ((hmem entry).mp hentry)
      · obtain ⟨entry, hentry, hid⟩ := h.known id hsome
        exact ⟨entry, (hmem entry).mpr hentry, hid⟩

/-- The players of a fight that goes on stay under their keys and their IDs. -/
theorem Told.step (h : Told f) {event : FightEvent} (hevent : event.entering = none) :
    Told (fightStep f event).1 where
  nodup := fightStep_keys_nodup h.nodup event
  keyed := by
    refine (f.fightStep_kept event).keyed ?_
    cases event with
    | enter id found moved => cases hevent
    | leave id =>
        simp only [counted]
        split
        · exact h.keyed
        · rw [removePlayer_fst]
          exact fun entry hentry => h.keyed entry (List.mem_of_mem_filter hentry)
    | _ => exact h.keyed
  ids := by
    intro a ha b hb hab
    obtain ⟨old, hold, hkey, hid, _⟩ := fightStep_from hevent ha
    obtain ⟨old', hold', hkey', hid', _⟩ := fightStep_from hevent hb
    have hsame : old = old' := h.ids old hold old' hold' (by rw [← hid, ← hid', hab])
    apply PlayerMap.eq_of_key (fightStep_keys_nodup h.nodup event) ha hb
    rw [hkey, hkey', hsame]

end

/-! ## The start -/

/-- What a packet that creates a player says of it. -/
def SCMessage.created : SCMessage → Option (UInt32 × Avatar)
  | .createMe id dir x y hp => some (id, ⟨dir, x, y, hp, -1⟩)
  | .createOther id dir x y hp => some (id, ⟨dir, x, y, hp, -1⟩)
  | _ => none

/-- Packets that create players are entries of a table. -/
theorem hear_created {packets : List SCMessage}
    (h : ∀ packet ∈ packets, packet.created.isSome) (r : Replica) :
    r.hear packets = learn r (packets.filterMap SCMessage.created) := by
  induction packets generalizing r with
  | nil => rfl
  | cons packet packets ih =>
      have hrest := ih fun other hother => h other (List.mem_cons_of_mem _ hother)
      have hfirst := h packet List.mem_cons_self
      cases packet with
      | createMe id dir x y hp => exact hrest _
      | createOther id dir x y hp => exact hrest _
      | _ => cases hfirst

/-- The other packets tell a blank replica nothing. -/
theorem see_blank {sight : Sight}
    (h : ∀ packet, sight = .packet packet → packet.created = none) :
    Replica.blank.see sight = Replica.blank := by
  cases sight with
  | frames count => rfl
  | packet message =>
      have hnone := h message rfl
      cases message with
      | createMe id dir x y hp => cases hnone
      | createOther id dir x y hp => cases hnone
      | _ => exact Function.update_eq_self _ _

/-- The packet that tells a player of its start. -/
def Player.createMe (player : Player) : SCMessage :=
  .createMe player.id player.direction player.x player.y player.hp.toUInt8

/-- The players of the sessions in `done` have been placed, and each has been told so. -/
structure Placed (done : List SessionID) (acc : FightContents × List Effect) : Prop where
  nodup : acc.1.playerMap.keys.Nodup
  keyed : acc.1.playerMap.Keyed
  sent : ∀ sessions packet, .send sessions packet ∈ acc.2 →
    ∃ entry ∈ acc.1.playerMap, entry.1 ∈ done ∧ packet = entry.2.createMe
  told : ∀ entry ∈ acc.1.playerMap, entry.1 ∈ done → .send [entry.1] entry.2.createMe ∈ acc.2

theorem placePlayer_snd (f : FightContents) (sessionID : SessionID) (id : Nat) (x : Int)
    (slot : Nat) (direction : UInt8) :
    (f.placePlayer sessionID id x slot direction).2 =
      match f.playerMap.find sessionID with
      | none => []
      | some player =>
          [.send [player.sessionID] (startPlayer id x slot direction player).createMe] := by
  unfold placePlayer
  cases f.playerMap.find sessionID <;> rfl

/-- One more session is placed. -/
theorem Placed.place {done : List SessionID} {acc : FightContents × List Effect}
    (h : Placed done acc) {sessionID : SessionID} (hnew : sessionID ∉ done) (id : Nat) (x : Int)
    (slot : Nat) (direction : UInt8) :
    Placed (sessionID :: done)
      ((acc.1.placePlayer sessionID id x slot direction).1,
        acc.2 ++ (acc.1.placePlayer sessionID id x slot direction).2) := by
  rw [placePlayer_fst, placePlayer_snd]
  cases hfind : acc.1.playerMap.find sessionID with
  | none =>
      have habsent := PlayerMap.find_eq_none.mp hfind
      refine ⟨h.nodup, h.keyed, fun sessions packet hmem => ?_, fun entry hentry hdone => ?_⟩
      · rw [List.append_nil] at hmem
        obtain ⟨entry, hentry, hdone, hpacket⟩ := h.sent sessions packet hmem
        exact ⟨entry, hentry, List.mem_cons_of_mem _ hdone, hpacket⟩
      · rw [List.append_nil]
        rcases List.mem_cons.mp hdone with heq | hold
        · exact absurd (heq ▸ List.mem_map_of_mem hentry) habsent
        · exact h.told entry hentry hold
  | some player =>
      have hmem := PlayerMap.mem_of_find hfind
      have hown : player.sessionID = sessionID := h.keyed _ hmem
      have hkey : sessionID ∈ acc.1.playerMap.keys := List.mem_map_of_mem hmem
      have hkept := PlayerMap.Kept.modify hmem
        (show (startPlayer id x slot direction player).sessionID = player.sessionID from rfl)
      dsimp only
      rw [hown]
      refine ⟨?_, hkept.keyed h.keyed, fun sessions packet hsent => ?_,
        fun entry hentry hdone => ?_⟩
      · rw [keys_written]
        exact h.nodup
      · rcases List.mem_append.mp hsent with hold | hlast
        · obtain ⟨entry, hentry, hdone, hpacket⟩ := h.sent sessions packet hold
          refine ⟨entry, PlayerMap.mem_modify.mpr (Or.inl ⟨hentry, fun heq => hnew ?_⟩),
            List.mem_cons_of_mem _ hdone, hpacket⟩
          exact heq ▸ hdone
        · rw [List.mem_singleton, Effect.send.injEq] at hlast
          exact ⟨_, PlayerMap.mem_modify.mpr (Or.inr ⟨hkey, rfl⟩), List.mem_cons_self, hlast.2⟩
      · rcases PlayerMap.mem_modify.mp hentry with ⟨hold, hne⟩ | ⟨_, rfl⟩
        · apply List.mem_append_left
          exact h.told entry hold ((List.mem_cons.mp hdone).resolve_left hne)
        · apply List.mem_append_right
          exact List.mem_cons_self

theorem Placed.slot {f : FightContents} {done : List SessionID}
    {acc : FightContents × List Effect} (h : Placed done acc)
    (hslots : acc.1.red = f.red ∧ acc.1.blue = f.blue) {i : Fin 3} (hred : f.red i ∉ done)
    (hblue : f.blue i ∉ f.red i :: done) :
    ((placeSlot acc i).1.red = f.red ∧ (placeSlot acc i).1.blue = f.blue) ∧
      Placed (f.blue i :: f.red i :: done) (placeSlot acc i) := by
  have hkept := placeSlot_slots acc i
  refine ⟨⟨hkept.1.trans hslots.1, hkept.2.trans hslots.2⟩, ?_⟩
  rw [← hslots.1] at hred
  have hfirst := h.place hred i REDX i dfPACKET_MOVE_DIR_RR
  have hsame := acc.1.placePlayer_slots (acc.1.red i) i REDX i dfPACKET_MOVE_DIR_RR
  simp only [placeSlot]
  generalize acc.1.placePlayer (acc.1.red i) i REDX i dfPACKET_MOVE_DIR_RR = r at hfirst hsame
  rw [hslots.1] at hfirst
  rw [hsame.2, hslots.2]
  exact hfirst.place hblue (i + 3) BLUEX i dfPACKET_MOVE_DIR_LL

/-- The loop of `OnEnter` places everybody. -/
theorem startFight_placed {f : FightContents} (hdistinct : f.Distinct)
    (hnodup : f.playerMap.keys.Nodup) (hkeyed : f.playerMap.Keyed) :
    Placed (f.slotSessions [2, 1, 0]) ([0, 1, 2].foldl placeSlot (f, [])) := by
  have hstart : Placed [] (f, []) :=
    ⟨hnodup, hkeyed, fun _ _ hmem => absurd hmem List.not_mem_nil,
      fun _ _ hmem => absurd hmem List.not_mem_nil⟩
  have hne : ∀ i j, i ≠ j → f.red i ≠ f.red j ∧ f.blue i ≠ f.blue j := by
    intro i j hij
    refine ⟨fun heq => hij ?_, fun heq => hij ?_⟩
    · exact (Prod.mk.inj (hdistinct.slot_eq
        (show f.slotSession .red i = f.slotSession .red j from heq))).2
    · exact (Prod.mk.inj (hdistinct.slot_eq
        (show f.slotSession .blue i = f.slotSession .blue j from heq))).2
  have hacross : ∀ i j, f.blue i ≠ f.red j := by
    intro i j heq
    cases (Prod.mk.inj (hdistinct.slot_eq
      (show f.slotSession .blue i = f.slotSession .red j from heq))).1
  have h₀ := hstart.slot ⟨rfl, rfl⟩ (i := 0) List.not_mem_nil (by simp [hacross])
  have h₁ := h₀.2.slot h₀.1 (i := 1)
    (by simp [(hacross _ _).symm, (hne 1 0 (by decide)).1])
    (by simp [hacross, (hne 1 0 (by decide)).2])
  have h₂ := h₁.2.slot h₁.1 (i := 2)
    (by simp [(hacross _ _).symm, (hne 2 0 (by decide)).1, (hne 2 1 (by decide)).1])
    (by simp [hacross, (hne 2 0 (by decide)).2, (hne 2 1 (by decide)).2])
  exact h₂.2

/-- What everybody is told of everybody at the start. -/
theorem announcePlayers_told {f : FightContents} {sessionID : SessionID}
    (hkeyed : f.playerMap.Keyed) (hthere : sessionID ∈ f.playerMap.keys)
    {entry : SessionID × Player} (hentry : entry ∈ f.playerMap) (hne : entry.1 ≠ sessionID) :
    (.createOther entry.2.id entry.2.direction entry.2.x entry.2.y entry.2.hp.toUInt8) ∈
      packetsTo sessionID f.announcePlayers := by
  refine mem_packetsTo_of_send (List.mem_map_of_mem hentry) ?_
  obtain ⟨own, hown, rfl⟩ := List.mem_map.mp hthere
  refine List.mem_map.mpr ⟨own, List.mem_filter.mpr ⟨hown, ?_⟩, hkeyed own hown⟩
  rw [decide_eq_true_eq, hkeyed own hown, hkeyed entry hentry]
  exact hne.symm

/-- **At the start a session is told of everybody.** -/
theorem Agrees.of_start {f : FightContents} {event : FightEvent} {sessionID : SessionID}
    (hstarts : Starts f event) (hdistinct : f.Distinct)
    (hnodup : (f.counted event).playerMap.keys.Nodup) (hkeyed : (f.counted event).playerMap.Keyed)
    (htold : Told (fightStep f event).1)
    (hslots : ∀ entry ∈ (fightStep f event).1.playerMap,
      Spawned f.red f.blue entry)
    (hthere : sessionID ∈ (fightStep f event).1.playerMap.keys) :
    Agrees sessionID (fightStep f event).1
      (Replica.blank.hear (packetsTo sessionID (fightStep f event).2)) := by
  obtain ⟨winLoss, hchecked⟩ := (f.counted event).checkGameEnd_fst
  obtain ⟨players, red, blue, matched, hcounted⟩ := f.counted_frame event
  have hred : (f.counted event).checkGameEnd.1.red = f.red := by rw [hchecked, hcounted]
  have hblue : (f.counted event).checkGameEnd.1.blue = f.blue := by rw [hchecked, hcounted]
  have hmap : (f.counted event).checkGameEnd.1.playerMap = (f.counted event).playerMap := by
    rw [hchecked]
  rw [hstarts.out] at htold hslots hthere ⊢
  generalize (f.counted event).checkGameEnd.1 = g at hred hblue hmap htold hslots hthere ⊢
  have hplaced := startFight_placed (f := g) (by
    rw [Distinct, hred, hblue]
    exact hdistinct) (hmap ▸ hnodup) (hmap ▸ hkeyed)
  have heffects : g.startFight.2 = ([0, 1, 2].foldl placeSlot (g, [])).2 ++
      g.startFight.1.announcePlayers := rfl
  have hfight : ([0, 1, 2].foldl placeSlot (g, [])).1 = g.startFight.1 := rfl
  generalize g.startFight.2 = effects at heffects
  generalize g.startFight.1 = started at htold hslots hthere heffects hfight ⊢
  generalize [0, 1, 2].foldl placeSlot (g, []) = placed at hplaced heffects hfight
  subst hfight heffects
  have hstands : ∀ entry ∈ placed.1.playerMap, entry.2.move = -1 := by
    intro entry hentry
    obtain ⟨i, player, rfl | rfl⟩ := hslots entry hentry <;> rfl
  have hcreated : ∀ entry ∈ placed.1.playerMap, entry.2.createMe.created =
      some (entry.2.id, entry.2.avatar) := by
    intro entry hentry
    simp only [Player.createMe, SCMessage.created, Player.avatar, hstands entry hentry]
  -- Every packet is about a player as it stands, and every player is in one.
  have hall : ∀ packet ∈ packetsTo sessionID (placed.2 ++ placed.1.announcePlayers),
      ∃ entry ∈ placed.1.playerMap, packet.created = some (entry.2.id, entry.2.avatar) := by
    intro packet hpacket
    obtain ⟨sessions, hsend, _⟩ := mem_packetsTo hpacket
    rcases List.mem_append.mp hsend with hme | hother
    · obtain ⟨entry, hentry, _, rfl⟩ := hplaced.sent sessions packet hme
      exact ⟨entry, hentry, hcreated entry hentry⟩
    · obtain ⟨entry, hentry, heq⟩ := List.mem_map.mp hother
      rw [Effect.send.injEq] at heq
      exact ⟨entry, hentry, heq.2 ▸ hcreated entry hentry⟩
  have hsome : ∀ entry ∈ placed.1.playerMap,
      ∃ packet ∈ packetsTo sessionID (placed.2 ++ placed.1.announcePlayers),
        packet.created = some (entry.2.id, entry.2.avatar) := by
    intro entry hentry
    rw [packetsTo_append]
    by_cases hown : entry.1 = sessionID
    · refine ⟨_, List.mem_append_left _ ?_, hcreated entry hentry⟩
      refine mem_packetsTo_of_send (hplaced.told entry hentry ?_) (hown ▸ List.mem_cons_self)
      obtain ⟨i, player, rfl | rfl⟩ := hslots entry hentry
      · rw [← hred]
        exact slotSession_mem g .red i
      · rw [← hblue]
        exact slotSession_mem g .blue i
    · exact ⟨_, List.mem_append_right _ (announcePlayers_told htold.keyed hthere hentry hown),
        hcreated entry hentry⟩
  rw [hear_created fun packet hpacket => by
    obtain ⟨entry, _, heq⟩ := hall packet hpacket
    rw [heq]
    rfl]
  generalize packetsTo sessionID (placed.2 ++ placed.1.announcePlayers) = packets at hall hsome ⊢
  have hlearnt : ∀ entry ∈ placed.1.playerMap,
      learn Replica.blank (packets.filterMap SCMessage.created) entry.2.id =
        some entry.2.avatar := by
    intro entry hentry
    obtain ⟨packet, hpacket, heq⟩ := hsome entry hentry
    refine learn_of_mem (List.mem_filterMap.mpr ⟨packet, hpacket, heq⟩) ?_
    rintro ⟨id, avatar⟩ hmem hid
    obtain ⟨other, hother, hotherEq⟩ := List.mem_filterMap.mp hmem
    obtain ⟨source, hsource, hsourceEq⟩ := hall other hother
    rw [hotherEq, Option.some.injEq, Prod.mk.injEq] at hsourceEq
    have hsame := htold.ids source hsource entry hentry (hsourceEq.1.symm.trans hid)
    exact hsame ▸ hsourceEq.2
  refine ⟨fun entry hentry _ => hlearnt entry hentry,
    fun entry hentry _ => ⟨_, hlearnt entry hentry, rfl⟩, fun id hknown => ?_⟩
  by_contra hnobody
  rw [learn_of_notMem] at hknown
  · cases hknown
  · rintro ⟨other, avatar⟩ hmem rfl
    obtain ⟨packet, hpacket, heq⟩ := List.mem_filterMap.mp hmem
    obtain ⟨source, hsource, hsourceEq⟩ := hall packet hpacket
    rw [heq, Option.some.injEq, Prod.mk.injEq] at hsourceEq
    exact hnobody ⟨source, hsource, hsourceEq.1.symm⟩

/-! ## Before the start -/

/-- Players are created by the sixth enter event only. -/
theorem created_at_start {f : FightContents} {event : FightEvent} {sessionID : SessionID}
    {packet : SCMessage} (hpacket : packet ∈ packetsTo sessionID (fightStep f event).2)
    (hcreated : packet.created.isSome) : (fightStep f event).1.matched ≥ 6 := by
  obtain ⟨sessions, hsend, _⟩ := mem_packetsTo hpacket
  cases event with
  | enter id found moved =>
      have hmatched := f.fightStep_matched (.enter id found moved)
      have hcount := f.countEnter_matched id found moved
      simp only [FightEvent.entering, Option.toList_some, List.length_singleton] at hmatched
      by_contra hfew
      have hwaits : ¬ (f.countEnter id found moved).matched ≥ 6 := by omega
      simp only [fightStep, onEnter, if_neg hwaits] at hsend
      cases hsend
  | leave id =>
      exfalso
      simp only [fightStep, onLeave] at hsend
      have hdelete : ∀ player : Player,
          .send sessions packet ∈ (f.removePlayer id player).2 → False := by
        intro player hmem
        obtain ⟨_, rfl⟩ := Effect.send.inj (List.mem_singleton.mp hmem)
        cases hcreated
      split at hsend
      · cases hsend
      · split at hsend
        · rcases List.mem_append.mp hsend with hmem | hmem
          · exact hdelete _ hmem
          · simp [finishFightAndRelease, disconnectRemainingPlayers] at hmem
        · exact hdelete _ hsend
  | update now => cases hsend
  | rehash order => cases hsend
  | message sender message now =>
      exfalso
      have hannounced : ∀ player, message.announcement player = some packet → False := by
        intro player heq
        cases message with
        | other => cases heq
        | _ =>
            cases heq
            cases hcreated
      rcases procMessage_shows f sender message now with
        ⟨_, hnone⟩ | ⟨player, announced, _, hannounce, hout⟩
      · exact hnone sessions packet hsend
      · rcases hout with hout | ⟨type, entry, _, hout⟩
        all_goals
          simp only [fightStep, hout] at hsend
        · obtain ⟨_, rfl⟩ := Effect.send.inj (List.mem_singleton.mp hsend)
          exact hannounced _ hannounce
        · rcases List.mem_cons.mp hsend with heq | hmem
          · obtain ⟨_, rfl⟩ := Effect.send.inj heq
            exact hannounced _ hannounce
          · simp only [strike] at hmem
            rcases List.mem_append.mp hmem with hkick | hdamage
            · split at hkick <;> simp at hkick
            · obtain ⟨_, rfl⟩ := Effect.send.inj (List.mem_singleton.mp hdamage)
              cases hcreated

section

variable {pool : SessionID → Player} {sessionID : SessionID}

/-- Sights that tell a blank replica nothing. -/
theorem seen_blank {sights : List Sight}
    (h : ∀ sight ∈ sights, Replica.blank.see sight = Replica.blank) :
    sights.foldl Replica.see Replica.blank = Replica.blank := by
  induction sights with
  | nil => rfl
  | cons sight sights ih =>
      rw [List.foldl_cons, h sight List.mem_cons_self]
      exact ih fun other hother => h other (List.mem_cons_of_mem _ hother)

/-- An event before the start tells a blank replica nothing. -/
theorem sightsOf_blank {f : FightContents} {event : FightEvent}
    (hfew : (fightStep f event).1.matched < 6) :
    (sightsOf sessionID f event).foldl Replica.see Replica.blank = Replica.blank := by
  apply seen_blank
  intro sight hsight
  apply see_blank
  rintro packet rfl
  have hpacket : packet ∈ packetsTo sessionID (fightStep f event).2 := by
    rcases List.mem_append.mp hsight with hframes | hmem
    · cases event with
      | update now => simp at hframes
      | _ => cases hframes
    · obtain ⟨other, hother, heq⟩ := List.mem_map.mp hmem
      cases heq
      exact hother
  by_contra hcreated
  have hmany := created_at_start hpacket (Option.isSome_iff_ne_none.mpr hcreated)
  omega

theorem inputRun_matched_le (f : FightContents) (inputs : List FightInput) :
    f.matched ≤ (inputRun pool f inputs).matched := by
  rw [← fightRun_inputEvents, fightRun_matched]
  omega

/-- **Until the start a replica stays blank.** -/
theorem replicaOf_blank {f : FightContents} {inputs : List FightInput}
    (hfew : (inputRun pool f inputs).matched < 6) :
    replicaOf pool sessionID f inputs = Replica.blank := by
  induction inputs generalizing f with
  | nil => rfl
  | cons input inputs ih =>
      have hmatched :=
        @inputRun_matched_le pool (fightStep f (input.event pool f)).1 inputs
      have hfirst : (fightStep f (input.event pool f)).1.matched < 6 :=
        Int.lt_of_le_of_lt hmatched hfew
      rw [replicaOf, shown, List.foldl_append, sightsOf_blank hfirst]
      exact ih hfew

/-- An event of the match keeps the players under their keys. -/
theorem input_keyed {f : FightContents} (h : f.playerMap.Keyed) (input : FightInput) :
    (f.counted (input.event pool f)).playerMap.Keyed := by
  cases input with
  | enter team slot found moved =>
      simp only [FightInput.event, counted, countEnter]
      cases found with
      | false => exact h
      | true =>
          cases moved with
          | false => exact h
          | true =>
              simp only [if_true, enterPlayer_eq, PlayerMap.insert]
              split
              · exact h
              · intro entry hentry
                rcases List.mem_cons.mp hentry with rfl | hold
                · rfl
                · exact h entry hold
  | leave id =>
      simp only [FightInput.event, counted]
      split
      · exact h
      · rw [removePlayer_fst]
        exact fun entry hentry => h entry (List.mem_of_mem_filter hentry)
  | update now => exact h
  | message sender message now => exact h
  | rehash order => exact h

theorem inputRun_keyed {f : FightContents} (h : f.playerMap.Keyed) (inputs : List FightInput) :
    (inputRun pool f inputs).playerMap.Keyed := by
  induction inputs generalizing f with
  | nil => exact h
  | cons input inputs ih => exact ih ((f.fightStep_kept _).keyed (input_keyed h input))

end

/-! ## Whole runs -/

section

variable {pool : SessionID → Player} {sessionID : SessionID} {pooled : FightContents}
  {contentsNum : ContentsNum} {matchID : Int} {group : Group}

/-- No slot is left after the sixth enter event. -/
theorem no_slot_after {earlier later : List FightInput} {input : FightInput}
    (hslots : ((earlier ++ input :: later).filterMap FightInput.slot).Nodup)
    (hstarts : Starts (inputRun pool (newFight pooled contentsNum matchID group) earlier)
      (input.event pool (inputRun pool (newFight pooled contentsNum matchID group) earlier))) :
    ∀ after ∈ later, after.slot = none := by
  have hnone := (startedRun_of_inputs hslots hstarts).no_enter
  rw [← List.filterMap_eq_nil_iff, inputEvents_entering, List.map_eq_nil_iff] at hnone
  exact List.filterMap_eq_nil_iff.mp hnone

/-- The fight that has just started, and the replica of a session in it. -/
theorem Agrees.of_started {earlier later : List FightInput} {input : FightInput}
    (hgroup : group.sessions.Nodup)
    (hslots : ((earlier ++ input :: later).filterMap FightInput.slot).Nodup)
    (hstarts : Starts (inputRun pool (newFight pooled contentsNum matchID group) earlier)
      (input.event pool (inputRun pool (newFight pooled contentsNum matchID group) earlier))) :
    let f := inputRun pool (newFight pooled contentsNum matchID group) earlier
    Told (fightStep f (input.event pool f)).1 ∧
      (sessionID ∈ (fightStep f (input.event pool f)).1.playerMap.keys →
        Agrees sessionID (fightStep f (input.event pool f)).1
          ((sightsOf sessionID f (input.event pool f)).foldl Replica.see Replica.blank)) := by
  have hrun := startedRun_of_inputs hslots hstarts
  have hspawned := hrun.spawned
  have hids := hrun.health.ids
  have hkeys := startedFight_keys_nodup pooled contentsNum matchID group
    (inputEvents pool (newFight pooled contentsNum matchID group) earlier)
    (input.event pool (inputRun pool (newFight pooled contentsNum matchID group) earlier))
  rw [startedFight, fightRun_inputEvents] at hspawned hids hkeys
  obtain ⟨hred, hblue⟩ := @inputRun_slots pool pooled contentsNum matchID group earlier
  have hnodup : (inputRun pool (newFight pooled contentsNum matchID group)
      earlier).playerMap.keys.Nodup := by
    rw [← fightRun_inputEvents]
    exact fightRun_keys_nodup List.nodup_nil
  have hkeyed : (inputRun pool (newFight pooled contentsNum matchID group)
      earlier).playerMap.Keyed :=
    inputRun_keyed (fun _ hmem => absurd hmem List.not_mem_nil) earlier
  generalize inputRun pool (newFight pooled contentsNum matchID group) earlier = f at *
  have hcounted := @input_keyed pool f hkeyed input
  have htold : Told (fightStep f (input.event pool f)).1 :=
    ⟨hkeys, (f.fightStep_kept _).keyed hcounted, hids⟩
  refine ⟨htold, fun hthere => ?_⟩
  have hsights : sightsOf sessionID f (input.event pool f) =
      (packetsTo sessionID (fightStep f (input.event pool f)).2).map .packet := by
    have henters := hstarts.enters
    cases input with
    | update now => cases henters
    | _ => rfl
  rw [hsights]
  refine Agrees.of_start hstarts ?_ (counted_keys_nodup hnodup _) hcounted htold ?_ hthere
  · rw [Distinct, hred, hblue]
    exact hgroup
  · rw [hred, hblue]
    exact hspawned

/-- **What a client knows.**  In every run of a fight of six distinct sessions that enters
each slot at most once, from the sixth enter event on: a session that is still in the fight
can tell from its packets and the frames played where every other player is, how it moves,
faces and fares, and its own hp; and it believes in nobody who has left. -/
theorem replica_agrees {earlier later : List FightInput} {input : FightInput}
    (hgroup : group.sessions.Nodup)
    (hslots : ((earlier ++ input :: later).filterMap FightInput.slot).Nodup)
    (hstarts : Starts (inputRun pool (newFight pooled contentsNum matchID group) earlier)
      (input.event pool (inputRun pool (newFight pooled contentsNum matchID group) earlier)))
    (hthere : sessionID ∈ (inputRun pool (newFight pooled contentsNum matchID group)
      (earlier ++ input :: later)).playerMap.keys) :
    Agrees sessionID
      (inputRun pool (newFight pooled contentsNum matchID group) (earlier ++ input :: later))
      (replicaOf pool sessionID (newFight pooled contentsNum matchID group)
        (earlier ++ input :: later)) := by
  have hlater := no_slot_after hslots hstarts
  have hstart := @Agrees.of_started pool sessionID _ _ _ _ _ _ _ hgroup hslots hstarts
  have hblank : replicaOf pool sessionID (newFight pooled contentsNum matchID group) earlier =
      Replica.blank := by
    apply replicaOf_blank
    have hsixth := hstarts.sixth
    omega
  rw [inputRun_append] at hthere ⊢
  rw [replicaOf] at hblank
  rw [replicaOf, shown_append, List.foldl_append, hblank, shown, List.foldl_append]
  -- A session that is there at the end has been there since the start.
  have hkeeps : ∀ (f : FightContents) (next : FightInput) (r : Replica),
      (Told f ∧ (sessionID ∈ f.playerMap.keys → Agrees sessionID f r)) → next.slot = none →
      Told (fightStep f (next.event pool f)).1 ∧
        (sessionID ∈ (fightStep f (next.event pool f)).1.playerMap.keys →
          Agrees sessionID (fightStep f (next.event pool f)).1
            ((sightsOf sessionID f (next.event pool f)).foldl Replica.see r)) := by
    rintro f next r ⟨htold, hagrees⟩ hslot
    have hevent : (next.event pool f).entering = none := by
      rw [input_entering, hslot]
      rfl
    refine ⟨htold.step hevent, fun hafter => ?_⟩
    refine (hagrees ?_).step htold hevent hafter
    rcases fightStep_keys hafter with hbefore | hentering
    · exact hbefore
    · rw [hevent] at hentering
      cases hentering
  have halong : AlongTotal (fun f (next : FightInput) => (fightStep f (next.event pool f)).1)
      (fun _ next => next.slot = none)
      (fightStep (inputRun pool (newFight pooled contentsNum matchID group) earlier)
        (input.event pool (inputRun pool (newFight pooled contentsNum matchID group) earlier))).1
      later := by
    refine forall_splits_iff.mp fun before next after heq => hlater next ?_
    rw [heq]
    exact List.mem_append_right _ List.mem_cons_self
  exact (replica_agrees_along hkeeps hstart halong).2 hthere

end

/-- A red and a blue player walk, and another blue player leaves. -/
def watched : List FightInput :=
  [.update 1000, .message (firstSession 0) (.moveStart dfPACKET_MOVE_DIR_RR 40 90) 1000,
    .update 1100, .message (firstSession 3) (.moveStart dfPACKET_MOVE_DIR_LU 600 90) 1100,
    .update 1200, .leave (firstSession 4)]

def watchedInputs : List FightInput := firstInputs.take 5 ++ .enter .red 1 true true :: watched

theorem watchedInputs_agree :
    Agrees (firstSession 1) (inputRun firstPool firstFight watchedInputs)
        (replicaOf firstPool (firstSession 1) firstFight watchedInputs) ∧
      replicaOf firstPool (firstSession 1) firstFight watchedInputs 0 =
        some ⟨dfPACKET_MOVE_DIR_RR, 70, 90, 100, 4⟩ ∧
      replicaOf firstPool (firstSession 1) firstFight watchedInputs 4 = none := by
  obtain ⟨hgroup, hslots, hstarts, hthere, hwalks, hgone⟩ : firstGroup.sessions.Nodup ∧
      (watchedInputs.filterMap FightInput.slot).Nodup ∧
      Starts (inputRun firstPool firstFight (firstInputs.take 5))
        (FightInput.event firstPool (inputRun firstPool firstFight (firstInputs.take 5))
          (.enter .red 1 true true)) ∧
      firstSession 1 ∈ (inputRun firstPool firstFight watchedInputs).playerMap.keys ∧
      replicaOf firstPool (firstSession 1) firstFight watchedInputs 0 =
        some ⟨dfPACKET_MOVE_DIR_RR, 70, 90, 100, 4⟩ ∧
      replicaOf firstPool (firstSession 1) firstFight watchedInputs 4 = none := by
    decide +kernel
  exact ⟨replica_agrees hgroup hslots hstarts hthere, hwalks, hgone⟩

end SessionServer.Battle
