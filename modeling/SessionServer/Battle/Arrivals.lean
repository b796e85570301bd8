/-
  Battle/Arrivals.lean --- what a client of a fight receives of what the proxy sends it.

  `FightProxy` hands its packets to `SendPacket`, workers hand the buffers to `WSASend` for
  the session that has the slot, and the client takes frames off the bytes that arrive.  The
  transport is the stream of a socket: the bytes posted arrive in order, in any pieces.
-/
import SessionServer.Battle.Rpc
import SessionServer.ContentLib.Delivery

set_option autoImplicit false

namespace SessionServer.Battle

open SessionServer.ContentLib SessionServer.Foundation

/-- What is in the packets for a session; the buffers of a slot are numbered as they are
enqueued. -/
def messagesTo (sent : Tag → (Int → UInt8) × SCMessage) (id : ContentLib.SessionID)
    (packets : List Packet) : List ((Int → UInt8) × SCMessage) :=
  (ContentLib.packetsTo id packets).map fun packet => sent packet.tag

/-- **A client receives the first messages it is sent.**  In every run in which the flag of a
slot is never cleared under a worker that has won it, and wherever the bytes posted to a session
are cut, taking frames off what has arrived gives the first of the messages enqueued for it, in
order, without gaps, each once; and all of them where everything posted has arrived, nothing was
lost and nothing waits. -/
theorem first_messages_arrive (cfg : Config) (others : Nat) (steps : List ContentLib.Step)
    (s : ContentsServer)
    (hsweeps : Along (serverStep cfg) (SweepsAccepted cfg) (startedServer cfg others) steps)
    (hkept : Along (serverStep cfg) FlagKept (startedServer cfg others) steps)
    (hrun : exec (serverStep cfg) (startedServer cfg others) steps = some s)
    (sent : Tag → (Int → UInt8) × SCMessage) (id : ContentLib.SessionID)
    (bytes incoming : List UInt8)
    (hcut : bytes ++ incoming =
      scWire (messagesTo sent id (postedIn (eventsAt cfg others (findSession id) steps)))) :
    (∃ taken last, scFraming.Parses bytes taken last) ∧
      ∀ taken last, scFraming.Parses bytes taken last →
        taken <+: (messagesTo sent id
          (enqueuedIn (eventsAt cfg others (findSession id) steps))).map Prod.snd ∧
        (incoming = [] →
          ContentLib.packetsTo id (lostIn (eventsAt cfg others (findSession id) steps)) = [] →
          ContentLib.packetsTo id (s.waitingPackets (findSession id)) = [] →
          taken = (messagesTo sent id
            (enqueuedIn (eventsAt cfg others (findSession id) steps))).map Prod.snd) := by
  have hsome := posted_prefix cfg others steps s hsweeps hkept hrun (findSession id) id
  obtain ⟨hline, -⟩ := gapless_run cfg others steps s hsweeps hkept hrun (findSession id)
  generalize eventsAt cfg others (findSession id) steps = events at hcut hsome hline ⊢
  rw [scWire_eq] at hcut
  have hfirst : (messagesTo sent id (postedIn events)).map Prod.snd <+:
      (messagesTo sent id (enqueuedIn events)).map Prod.snd := by
    apply List.IsPrefix.map
    exact hsome.map _
  refine ⟨Framing.exists_parses hcut, fun taken last hparses => ?_⟩
  obtain ⟨later, hlater, hrest, hunfinished⟩ := hparses.split hcut
  refine ⟨?_, fun hend hlost hwaits => ?_⟩
  · rw [hlater] at hfirst
    exact (List.prefix_append _ _).trans hfirst
  · rw [hend, List.append_nil] at hrest
    obtain ⟨hnone, -⟩ := hunfinished.nil_of_eq hrest
    rw [hnone, List.append_nil] at hlater
    have hall : ContentLib.packetsTo id (enqueuedIn events) =
        ContentLib.packetsTo id (postedIn events) := by
      rw [hline.line, ContentLib.packetsTo_append, hwaits, List.append_nil,
        departed_eq_posted hlost]
    rw [← hlater, messagesTo, messagesTo, hall]

/-- The second of three packets is lost to a `WSASend` that fails; the third one waits. -/
def failedSend : List ContentLib.Step :=
  ContentLib.accepts ++ sends ⟨0, 1⟩ ++ .take 2 0 :: runs 2 11 ++
    .complete 2 0 0 true :: runs 2 7 ++ sends ⟨0, 1⟩ ++ .take 2 0 :: runs 2 9 ++
    .run 2 0 .failed :: runs 2 1 ++ sends ⟨0, 1⟩ ++ .take 2 0 :: runs 2 3

theorem failedSend_first_arrives :
    ∃ taken last, scFraming.Parses [0x89, 4, 2, 5, 0, 0, 0] taken last ∧
      taken <+: [.delete 5, .delete 6, .delete 7] := by
  let sent : Tag → (Int → UInt8) × SCMessage := fun tag => (fun _ => 0, .delete (5 + .ofNat tag))
  have hevents : Along (serverStep oneSlot) (SweepsAccepted oneSlot) (startedServer oneSlot 1)
        failedSend ∧
      Along (serverStep oneSlot) FlagKept (startedServer oneSlot 1) failedSend ∧
      (exec (serverStep oneSlot) (startedServer oneSlot 1) failedSend).isSome = true ∧
      eventsAt oneSlot 1 0 failedSend =
        [.enqueued ⟨⟨0, 1⟩, 0⟩, .posted ⟨⟨0, 1⟩, 0⟩, .enqueued ⟨⟨0, 1⟩, 1⟩, .lost ⟨⟨0, 1⟩, 1⟩,
          .enqueued ⟨⟨0, 1⟩, 2⟩] := by decide +kernel
  obtain ⟨hsweeps, hkept, hsome, hevents⟩ := hevents
  obtain ⟨s, hs⟩ := Option.isSome_iff_exists.mp hsome
  have hcut : [0x89, 4, 2, 5, 0, 0, 0] ++ [] =
      scWire (messagesTo sent ⟨0, 1⟩ (postedIn (eventsAt oneSlot 1 0 failedSend))) := by
    rw [hevents]
    decide +kernel
  obtain ⟨⟨taken, last, hparses⟩, hall⟩ :=
    first_messages_arrive oneSlot 1 failedSend s hsweeps hkept hs sent ⟨0, 1⟩ _ _ hcut
  have hfirst := (hall taken last hparses).1
  change taken <+:
    (messagesTo sent _ (enqueuedIn (eventsAt oneSlot 1 0 failedSend))).map _ at hfirst
  rw [hevents] at hfirst
  exact ⟨taken, last, hparses, hfirst⟩

end SessionServer.Battle
