import IotKit.Mqtt.Published

/-!
# Confidentiality of the uplink

A client with a hook owes that nothing is asked of the network but the packet whose payload the
hook left, and nothing at all where the hook failed.  `iotx_mc_publish` does not look at the
return code of the hook, so that the second part holds only where the call is refused for
another reason.
-/

namespace IotKit.Mqtt

open CMemory

/-- What is asked of the network is a packet that lies in `buf_send`.  What the network takes is
the beginning of the packet, or the packet and what a send loop asks for after a partial write. -/
structure Offers (r : PublishResult) (env : PublishEnv) (packet : Bytes) : Prop where
  buffer : r.client.bufSend.take packet.length = packet
  request : r.requests.head? = some ⟨0, packet.length⟩
  wire : publishWire r env <+: packet ∨ packet <+: publishWire r env

/-- A call whose hook returned `rcUp` and left `msgUp` gives the network the packet of `msgUp`,
which ends with its payload, and nothing where `rcUp` is not zero. -/
structure UplinkSafe (c : McClient) (topicName : Bytes) (msg : Message) (rcUp : Int)
    (msgUp : Message) : Prop where
  written : ∀ env r, iotxMcPublish c topicName msg (some (rcUp, msgUp)) env = .ok r →
    r.requests ≠ [] → rcUp = 0 ∧ Offers r env (publishPacket topicName msgUp)
  refused : ∀ env r, iotxMcPublish c topicName msg (some (rcUp, msgUp)) env = .ok r →
    rcUp ≠ 0 → r.requests = [] ∧ r.client.listPubWaitAck = c.listPubWaitAck ∧ r.rc < 0

section Call

variable {c : McClient} {topicName : Bytes} {msg msgUp : Message} {rcUp : Int} {env : PublishEnv}

/-- What the network takes out of a buffer that begins with the packet. -/
theorem wire_prefix {buf packet : Bytes} {sent : SendResult} {writes : List Int}
    (htake : buf.take packet.length = packet)
    (hsent : iotxMcSendPacket buf packet.length writes = .ok sent) :
    sent.wire <+: packet ∨ packet <+: sent.wire := by
  obtain ⟨log, hlog, hres⟩ := bind_eq_ok.mp hsent
  cases hres
  obtain ⟨-, -, -, hwire⟩ := sendLoop_wire (Nat.zero_le _) hlog
  rw [List.drop_zero, Nat.sub_zero] at hwire
  rw [hwire, ← htake]
  rcases Nat.le_total log.sent packet.length with hle | hle
  · exact .inl (List.take_prefix_take_left hle)
  · exact .inr (List.take_prefix_take_left hle)

theorem iotxMcPublish_offers {r : PublishResult}
    (h : iotxMcPublish c topicName msg (some (rcUp, msgUp)) env = .ok r)
    (hsome : r.requests ≠ []) : Offers r env (publishPacket topicName msgUp) := by
  obtain ⟨-, htake, sent, hsent, hrequests⟩ := iotxMcPublish_sent h hsome
  refine ⟨htake, ?_, ?_⟩
  · rw [hrequests] at hsome ⊢
    exact iotxMcSendPacket_head hsent hsome
  · rw [publishWire_of_requests hsent rfl hrequests]
    exact wire_prefix htake hsent

end Call

/-- The uplink is safe exactly where the hook succeeded or the message is refused
for another reason. -/
theorem uplinkSafe_iff (c : McClient) (topicName : Bytes) (msg : Message) (rcUp : Int)
    (msgUp : Message) :
    UplinkSafe c topicName msg rcUp msgUp ↔
      rcUp = 0 ∨ Rejected c topicName msg ∨ NoRoom c topicName msgUp := by
  constructor
  · intro hsafe
    by_cases hrej : Rejected c topicName msg
    · exact Or.inr (Or.inl hrej)
    by_cases hroom : NoRoom c topicName msgUp
    · exact Or.inr (Or.inr hroom)
    obtain ⟨r, hrun, hsome⟩ := iotxMcPublish_requests hrej hroom
    exact Or.inl (hsafe.written _ r hrun hsome).1
  · rintro (hzero | hrefuse)
    · exact ⟨fun env r hrun hsome => ⟨hzero, iotxMcPublish_offers hrun hsome⟩,
        fun env r hrun hrc => absurd hzero hrc⟩
    · refine ⟨fun env r hrun hsome => ?_, fun env r hrun _ => iotxMcPublish_refused hrefuse hrun⟩
      exact absurd (iotxMcPublish_refused hrefuse hrun).1 hsome

/-- A connected client with a send buffer of 64 bytes. -/
def sendingClient : McClient where
  packetId := 0
  keepaliveProbes := 0
  bufSend := List.replicate 64 0
  bufRead := []
  subHandle := Vector.replicate _ ⟨none, ⟨none, 0⟩⟩
  pingMark := 0
  clientState := .connected
  listPubWaitAck := []
  handleEvent := ⟨none, 0⟩

def plainMessage : Message := ⟨0, 0, 0, [1, 2, 3], by decide⟩

/-- A hook that could not allocate leaves the plain message, which is sent. -/
theorem not_uplinkSafe : ¬ ∀ (c : McClient) (topicName : Bytes) (msg : Message) (rcUp : Int)
    (msgUp : Message), UplinkSafe c topicName msg rcUp msgUp := by
  intro h
  obtain ⟨r, hrun, hsome⟩ := @iotxMcPublish_requests sendingClient [114, 120] plainMessage
    plainMessage (-1) (by decide) (by decide)
  have hzero := ((h sendingClient [114, 120] plainMessage (-1) plainMessage).written _ r hrun
    hsome).1
  exact absurd hzero (by decide)

end IotKit.Mqtt
