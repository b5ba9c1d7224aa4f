import IotKit.Mqtt.Client
import IotKit.Mqtt.Send
import IotKit.Mqtt.Topic

/-!
# Publishing

`iotx_mc_publish` checks the topic, the client state and the QoS, calls
`mqtt_up_process` to protect the payload in place, and hands the message to
`MQTTPublish`.  The return code of `mqtt_up_process` goes into the variable that
the return code of `MQTTPublish` overwrites, so a message that was not protected
is published as it is.

The outcome of `mqtt_up_process` is an argument: its return code and the message
it leaves.  So every hook is covered.
-/

namespace IotKit.Mqtt

open CMemory

/-! ## The source -/

/-- The fields of `iotx_mqtt_topic_info_t` that publishing reads.  The payload is
the `payload_len` bytes its pointer points to. -/
structure Message where
  packetId : Nat
  qos : Nat
  retain : Nat
  payload : Bytes
  short : payload.length < 65536

/-- The environment of one call: whether the two allocations of a list entry
succeed, and the results of `ipstack->write` until the timer expires. -/
structure PublishEnv where
  infoMalloc : Bool
  nodeMalloc : Bool
  writes : List Int

structure PublishResult where
  rc : Int
  client : McClient
  requests : List WriteReq

/-- `iotx_mc_get_next_packetid`. -/
def iotxMcGetNextPacketid (c : McClient) : Nat × McClient :=
  let id := if c.packetId = iotxMcPacketIdMax then 1 else c.packetId + 1
  (id, { c with packetId := id })

/-- The packet id that `iotx_mc_publish` gives a message of QoS 1 or 2. -/
def assignPacketId (c : McClient) (msg : Message) : Nat × McClient × Message :=
  if msg.qos = 1 ∨ msg.qos = 2 then
    let (msgId, c) := iotxMcGetNextPacketid c
    (msgId, c, { msg with packetId := msgId })
  else (0, c, msg)

/-- `iotx_mc_push_pubInfo_to`: `none` where it fails. -/
def iotxMcPushPubInfoTo (c : McClient) (len msgId : Nat) (env : PublishEnv) : Option McClient :=
  if c.bufSend.length < len then none
  else if iotxMcRepubNumMax ≤ c.listPubWaitAck.length then none
  else if env.infoMalloc = false then none
  else if env.nodeMalloc = false then none
  else
    some { c with listPubWaitAck := c.listPubWaitAck ++ [⟨.normal, msgId, c.bufSend.take len⟩] }

/-- `MQTTPublish`. -/
def mqttPublish (c : McClient) (topicName : Bytes) (msg : Message) (env : PublishEnv) :
    Checked PublishResult := do
  let (len, bufSend) ←
    mqttSerializePublish c.bufSend 0 msg.qos msg.retain msg.packetId topicName msg.payload
  let c := { c with bufSend }
  if len ≤ 0 then .ok ⟨mqttPublishPacketError, c, []⟩
  else
    match (if 0 < msg.qos then iotxMcPushPubInfoTo c len.toNat msg.packetId env else some c) with
    | none => .ok ⟨mqttPushToListError, c, []⟩
    | some pushed => do
        let sent ← iotxMcSendPacket c.bufSend len.toNat env.writes
        -- on failure the entry that was pushed is removed again
        if sent.rc ≠ successReturn then .ok ⟨mqttNetworkError, c, sent.requests⟩
        else .ok ⟨successReturn, pushed, sent.requests⟩

/-- `iotx_mc_publish`.  `up` is what `mqtt_up_process` returns and leaves, `none`
where the client has no such hook. -/
def iotxMcPublish (c : McClient) (topicName : Bytes) (msg : Message)
    (up : Option (Int × Message)) (env : PublishEnv) : Checked PublishResult :=
  if iotxMcCheckTopic topicName .name ≠ successReturn then .ok ⟨mqttTopicFormatError, c, []⟩
  else if c.clientState ≠ .connected then .ok ⟨mqttStateError, c, []⟩
  else
    match assignPacketId c msg with
    | (msgId, c, msg) =>
        if msg.qos = 2 then .ok ⟨mqttPublishQosError, c, []⟩
        else do
          -- the return code of `mqtt_up_process` is not looked at
          let msg := match up with
            | some (_, msg) => msg
            | none => msg
          let r ← mqttPublish c topicName msg env
          if r.rc = mqttNetworkError then
            .ok { r with client := iotxMcSetClientState r.client .disconnected }
          else if r.rc ≠ successReturn then .ok r
          else .ok { r with rc := msgId }

/-! ## The packet -/

/-- The packet of a message. -/
def publishPacket (topicName : Bytes) (msg : Message) : Bytes :=
  publishHead 0 msg.qos msg.retain msg.packetId topicName msg.payload.length ++ msg.payload

theorem publishPacket_ne_nil {topicName : Bytes} {msg : Message} :
    publishPacket topicName msg ≠ [] := List.cons_ne_nil _ _

/-! ## `MQTTPublish` -/

/-- The message does not fit the send buffer, or the list of publishes that wait
for their acknowledgement is full. -/
def NoRoom (c : McClient) (topicName : Bytes) (msg : Message) : Prop :=
  c.bufSend.length <
      mqttPacketLen (mqttSerializePublishLength msg.qos topicName msg.payload.length) ∨
    (0 < msg.qos ∧ iotxMcRepubNumMax ≤ c.listPubWaitAck.length)

instance (c : McClient) (topicName : Bytes) (msg : Message) :
    Decidable (NoRoom c topicName msg) := inferInstanceAs (Decidable (_ ∨ _))

section Publish

variable {c : McClient} {topicName : Bytes} {msg : Message} {env : PublishEnv} {r : PublishResult}

theorem iotxMcPushPubInfoTo_bufSend {len msgId : Nat} {pushed : McClient}
    (h : iotxMcPushPubInfoTo c len msgId env = some pushed) : pushed.bufSend = c.bufSend := by
  rw [iotxMcPushPubInfoTo] at h
  repeat' split at h
  all_goals cases h
  rfl

theorem publishLength_small (htopic : topicName.length ≤ iotxMcTopicNameMaxLen) :
    mqttSerializePublishLength msg.qos topicName msg.payload.length < 128 ^ 4 := by
  have hshort := msg.short
  rw [iotxMcTopicNameMaxLen] at htopic
  rw [mqttSerializePublishLength]
  split
  · omega
  · omega

/-- What is asked of the network is asked by the send loop, for the packet in `buf_send`. -/
theorem mqttPublish_sent (htopic : topicName.length ≤ iotxMcTopicNameMaxLen)
    (h : mqttPublish c topicName msg env = .ok r) (hsome : r.requests ≠ []) :
    (publishPacket topicName msg).length ≤ r.client.bufSend.length ∧
      r.client.bufSend.take (publishPacket topicName msg).length = publishPacket topicName msg ∧
      ∃ sent, iotxMcSendPacket r.client.bufSend (publishPacket topicName msg).length env.writes =
        .ok sent ∧ r.requests = sent.requests := by
  obtain ⟨⟨len, bufSend⟩, hser, h⟩ := bind_eq_ok.mp h
  by_cases hfit : mqttPacketLen
      (mqttSerializePublishLength msg.qos topicName msg.payload.length) ≤ c.bufSend.length
  · obtain ⟨bufSend', hser', hlen, hsize, htake⟩ := mqttSerializePublish_of_fits 0 msg.retain
      msg.packetId (publishLength_small htopic) hfit
    rw [hser'] at hser
    cases hser
    rw [← publishPacket] at hlen htake
    dsimp only at h
    split at h
    · cases h
      exact absurd rfl hsome
    · rw [Int.toNat_natCast] at h
      split at h
      next => cases h; exact absurd rfl hsome
      next pushed hpush =>
        have hbuf : pushed.bufSend = bufSend := by
          split at hpush
          · exact iotxMcPushPubInfoTo_bufSend hpush
          · cases hpush
            rfl
        obtain ⟨sent, hsent, h⟩ := bind_eq_ok.mp h
        split at h
        · cases h
          exact ⟨hsize ▸ hlen, htake, sent, hsent, rfl⟩
        · cases h
          rw [hbuf]
          exact ⟨hsize ▸ hlen, htake, sent, hsent, rfl⟩
  · rw [mqttSerializePublish] at hser
    dsimp only at hser
    rw [if_pos (Nat.lt_of_not_le hfit)] at hser
    cases hser
    dsimp only at h
    rw [if_pos (by decide)] at h
    cases h
    exact absurd rfl hsome

/-- Without room nothing is asked of the network and nothing is kept. -/
theorem mqttPublish_refused (hroom : NoRoom c topicName msg)
    (h : mqttPublish c topicName msg env = .ok r) :
    r.requests = [] ∧ r.client.listPubWaitAck = c.listPubWaitAck ∧ r.rc < 0 := by
  obtain ⟨⟨len, bufSend⟩, hser, h⟩ := bind_eq_ok.mp h
  dsimp only at h
  rcases hroom with hbig | ⟨hqos, hfull⟩
  · rw [mqttSerializePublish] at hser
    dsimp only at hser
    rw [if_pos hbig] at hser
    cases hser
    rw [if_pos (by decide)] at h
    cases h
    exact ⟨rfl, rfl, mqttPublishPacketError_neg⟩
  · have hpush : iotxMcPushPubInfoTo { c with bufSend } len.toNat msg.packetId env = none := by
      rw [iotxMcPushPubInfoTo]
      split
      · rfl
      · rfl
    rw [if_pos hqos, hpush] at h
    split at h
    · cases h
      exact ⟨rfl, rfl, mqttPublishPacketError_neg⟩
    · cases h
      exact ⟨rfl, rfl, mqttPushToListError_neg⟩

/-- With room and memory a request is made. -/
theorem mqttPublish_requests (htopic : topicName.length ≤ iotxMcTopicNameMaxLen)
    (hroom : ¬ NoRoom c topicName msg) :
    ∃ r, mqttPublish c topicName msg ⟨true, true, [0]⟩ = .ok r ∧ r.requests ≠ [] := by
  rw [NoRoom, not_or, not_and] at hroom
  obtain ⟨hfit, hlist⟩ := hroom
  obtain ⟨bufSend, hser, hlen, hsize, _⟩ := mqttSerializePublish_of_fits 0 msg.retain
    msg.packetId (publishLength_small htopic) (Nat.le_of_not_lt hfit)
  generalize hpacket : publishHead 0 msg.qos msg.retain msg.packetId topicName
    msg.payload.length ++ msg.payload = packet at hser hlen
  have hpos : 0 < packet.length := by
    rw [← hpacket]
    exact Nat.succ_pos _
  have hpush : ∃ pushed, (if 0 < msg.qos then iotxMcPushPubInfoTo { c with bufSend } packet.length
      msg.packetId ⟨true, true, [0]⟩ else some { c with bufSend }) = some pushed := by
    split
    next hqos =>
      rw [iotxMcPushPubInfoTo, if_neg (Nat.not_lt.mpr (hsize ▸ hlen)), if_neg (hlist hqos),
        if_neg (by decide), if_neg (by decide)]
      exact ⟨_, rfl⟩
    next => exact ⟨_, rfl⟩
  obtain ⟨pushed, hpush⟩ := hpush
  refine ⟨⟨mqttNetworkError, { c with bufSend }, [⟨0, packet.length⟩]⟩, ?_, List.cons_ne_nil _ _⟩
  rw [mqttPublish, hser, ok_bind]
  dsimp only
  rw [if_neg (by omega), Int.toNat_natCast, hpush]
  dsimp only
  rw [iotxMcSendPacket_idle _ hpos, ok_bind, if_pos mqttNetworkError_ne_success]

end Publish

/-! ## `iotx_mc_publish` -/

/-- The call ends before it looks at `mqtt_up_process`. -/
def Rejected (c : McClient) (topicName : Bytes) (msg : Message) : Prop :=
  iotxMcCheckTopic topicName .name ≠ successReturn ∨ c.clientState ≠ .connected ∨ msg.qos = 2

instance (c : McClient) (topicName : Bytes) (msg : Message) :
    Decidable (Rejected c topicName msg) := inferInstanceAs (Decidable (_ ∨ _ ∨ _))

section Call

variable {c : McClient} {topicName : Bytes} {msg msgUp : Message} {rcUp : Int} {env : PublishEnv}

/-- Only the packet ids differ. -/
theorem assignPacketId_same {msgId : Nat} {c' : McClient} {msg' : Message}
    (h : assignPacketId c msg = (msgId, c', msg')) :
    c'.bufSend = c.bufSend ∧ c'.listPubWaitAck = c.listPubWaitAck ∧ msg'.qos = msg.qos := by
  rw [assignPacketId] at h
  split at h
  · cases h
    exact ⟨rfl, rfl, rfl⟩
  · cases h
    exact ⟨rfl, rfl, rfl⟩

theorem iotxMcPublish_rejected {r : PublishResult} (hrej : Rejected c topicName msg)
    (h : iotxMcPublish c topicName msg (some (rcUp, msgUp)) env = .ok r) :
    r.requests = [] ∧ r.client.listPubWaitAck = c.listPubWaitAck ∧ r.rc < 0 := by
  rw [iotxMcPublish] at h
  split at h
  · cases h
    exact ⟨rfl, rfl, mqttTopicFormatError_neg⟩
  split at h
  · cases h
    exact ⟨rfl, rfl, mqttStateError_neg⟩
  next htopic hstate =>
    have hqos : msg.qos = 2 := by
      rcases hrej with htopic' | hstate' | hqos
      · exact absurd htopic' htopic
      · exact absurd hstate' hstate
      · exact hqos
    generalize hassign : assignPacketId c msg = x at h
    obtain ⟨msgId, c', msg'⟩ := x
    obtain ⟨_, hlist, hqos'⟩ := assignPacketId_same hassign
    dsimp only at h
    rw [if_pos (hqos'.trans hqos)] at h
    cases h
    exact ⟨rfl, hlist, mqttPublishQosError_neg⟩

/-- Otherwise it is `MQTTPublish` of the message the hook left, whatever the hook
returned. -/
theorem iotxMcPublish_of_not_rejected (hrej : ¬ Rejected c topicName msg) :
    ∃ (msgId : Nat) (c' : McClient), c'.bufSend = c.bufSend ∧
      c'.listPubWaitAck = c.listPubWaitAck ∧
      iotxMcPublish c topicName msg (some (rcUp, msgUp)) env =
        mqttPublish c' topicName msgUp env >>= fun r =>
          if r.rc = mqttNetworkError then
            .ok { r with client := iotxMcSetClientState r.client .disconnected }
          else if r.rc ≠ successReturn then .ok r
          else .ok { r with rc := msgId } := by
  rw [Rejected, not_or, not_or] at hrej
  obtain ⟨htopic, hstate, hqos⟩ := hrej
  generalize hassign : assignPacketId c msg = x
  obtain ⟨msgId, c', msg'⟩ := x
  obtain ⟨hbuf, hlist, hqos'⟩ := assignPacketId_same hassign
  refine ⟨msgId, c', hbuf, hlist, ?_⟩
  rw [iotxMcPublish, if_neg htopic, if_neg hstate, hassign]
  dsimp only
  rw [if_neg (fun h2 => hqos (hqos'.symm.trans h2))]

/-- What the end of `iotx_mc_publish` leaves of the result of `MQTTPublish`. -/
theorem publish_end {msgId : Nat} {r₁ r : PublishResult}
    (h : (if r₁.rc = mqttNetworkError then
        .ok { r₁ with client := iotxMcSetClientState r₁.client .disconnected }
      else if r₁.rc ≠ successReturn then .ok r₁
      else .ok { r₁ with rc := msgId } : Checked PublishResult) = .ok r) :
    r.requests = r₁.requests ∧ r.client.bufSend = r₁.client.bufSend ∧
      r.client.listPubWaitAck = r₁.client.listPubWaitAck ∧ (r₁.rc < 0 → r.rc < 0) := by
  split at h
  · cases h
    exact ⟨rfl, rfl, rfl, id⟩
  split at h
  · cases h
    exact ⟨rfl, rfl, rfl, id⟩
  next _ hrc =>
    cases h
    refine ⟨rfl, rfl, rfl, fun hneg => ?_⟩
    rw [Decidable.not_not.mp hrc] at hneg
    exact absurd hneg (Int.lt_irrefl 0)

theorem noRoom_congr {c' : McClient} (hbuf : c'.bufSend = c.bufSend)
    (hlist : c'.listPubWaitAck = c.listPubWaitAck) :
    NoRoom c' topicName msgUp ↔ NoRoom c topicName msgUp := by
  rw [NoRoom, NoRoom, hbuf, hlist]

/-- An accepted message for which there is room reaches the network, whatever the
hook returned. -/
theorem iotxMcPublish_requests (hrej : ¬ Rejected c topicName msg)
    (hroom : ¬ NoRoom c topicName msgUp) :
    ∃ r, iotxMcPublish c topicName msg (some (rcUp, msgUp)) ⟨true, true, [0]⟩ = .ok r ∧
      r.requests ≠ [] := by
  have htopic : topicName.length ≤ iotxMcTopicNameMaxLen :=
    iotxMcCheckTopic_length (Decidable.not_not.mp (not_or.mp hrej).1)
  obtain ⟨msgId, c', hbuf, hlist, heq⟩ := iotxMcPublish_of_not_rejected hrej
  rw [← noRoom_congr hbuf hlist] at hroom
  obtain ⟨r₁, hrun, hsome⟩ := mqttPublish_requests htopic hroom
  rw [heq, hrun, ok_bind]
  split
  · exact ⟨_, rfl, hsome⟩
  split
  · exact ⟨_, rfl, hsome⟩
  · exact ⟨_, rfl, hsome⟩

/-- What is asked of the network is asked for the packet of the message the hook left. -/
theorem iotxMcPublish_sent {r : PublishResult}
    (h : iotxMcPublish c topicName msg (some (rcUp, msgUp)) env = .ok r)
    (hsome : r.requests ≠ []) :
    (publishPacket topicName msgUp).length ≤ r.client.bufSend.length ∧
      r.client.bufSend.take (publishPacket topicName msgUp).length =
        publishPacket topicName msgUp ∧
      ∃ sent, iotxMcSendPacket r.client.bufSend (publishPacket topicName msgUp).length env.writes =
        .ok sent ∧ r.requests = sent.requests := by
  by_cases hrej : Rejected c topicName msg
  · exact absurd (iotxMcPublish_rejected hrej h).1 hsome
  · have htopic : topicName.length ≤ iotxMcTopicNameMaxLen :=
      iotxMcCheckTopic_length (Decidable.not_not.mp (not_or.mp hrej).1)
    obtain ⟨msgId, c', _, _, heq⟩ := iotxMcPublish_of_not_rejected hrej
    rw [heq] at h
    obtain ⟨r₁, hrun, h⟩ := bind_eq_ok.mp h
    obtain ⟨hreq, hbuf, _, _⟩ := publish_end h
    rw [hreq] at hsome ⊢
    rw [hbuf]
    exact mqttPublish_sent htopic hrun hsome

theorem iotxMcPublish_refused {r : PublishResult}
    (hrefuse : Rejected c topicName msg ∨ NoRoom c topicName msgUp)
    (h : iotxMcPublish c topicName msg (some (rcUp, msgUp)) env = .ok r) :
    r.requests = [] ∧ r.client.listPubWaitAck = c.listPubWaitAck ∧ r.rc < 0 := by
  by_cases hrej : Rejected c topicName msg
  · exact iotxMcPublish_rejected hrej h
  · have hroom := hrefuse.resolve_left hrej
    obtain ⟨msgId, c', hbuf, hlist, heq⟩ := iotxMcPublish_of_not_rejected hrej
    rw [heq] at h
    obtain ⟨r₁, hrun, h⟩ := bind_eq_ok.mp h
    obtain ⟨hreq, _, hkept, hneg⟩ := publish_end h
    obtain ⟨hreq', hkept', hneg'⟩ := mqttPublish_refused ((noRoom_congr hbuf hlist).mpr hroom) hrun
    exact ⟨hreq.trans hreq', hkept.trans (hkept'.trans hlist), hneg hneg'⟩

end Call

end IotKit.Mqtt
