import IotKit.Mqtt.Publish

/-!
# Subscribing

`IOT_MQTT_Subscribe` and `IOT_MQTT_Unsubscribe`.  A request takes the next packet
id, is serialized into `buf_send`, pushed to `list_sub_wait_ack` and sent.  One
list holds the requests of both kinds.  The handler of a SUBSCRIBE is the triple
that its SUBACK puts into `sub_handle`, and that of an UNSUBSCRIBE has the topic
filter alone.

The list stands in the order of `list_rpush`, the oldest request first.
-/

namespace IotKit.Mqtt

open CMemory

/-- The `enum msgTypes` of a pending request. -/
inductive RequestType where
  | subscribe
  | unsubscribe
deriving DecidableEq, Repr

/-- `iotx_mc_subsribe_info_t`. -/
structure SubInfo where
  type : RequestType
  msgId : Nat
  nodeState : NodeState
  handler : TopicHandle
  buf : Bytes
deriving DecidableEq, Repr

/-- `iotx_mc_client_t` with `list_sub_wait_ack`. -/
structure SubClient extends McClient where
  listSubWaitAck : List SubInfo

/-- The result of a request and what it asked of the network. -/
structure RequestResult where
  rc : Int
  client : SubClient
  requests : List WriteReq

/-! ## The packets -/

/-- A SUBSCRIBE or UNSUBSCRIBE with one topic: `options` follows the topic. -/
def serializeRequest (buf : Bytes) (type packetid : Nat) (topicFilter options : Bytes) :
    Checked (Int × Bytes) :=
  let remLen := 2 + (2 + topicFilter.length + options.length)
  if buf.length < mqttPacketLen remLen then .ok (mqttPacketBufferTooShort, buf)
  else do
    let header := UInt8.ofNat (16 * type + 2)
    let packet := header :: (mqttPacketEncode remLen ++
      (be16 packetid ++ (be16 topicFilter.length ++ (topicFilter ++ options))))
    let buf ← storeN buf 0 packet
    .ok (packet.length, buf)

/-- `MQTTSerialize_subscribe` for one topic. -/
def mqttSerializeSubscribe (buf : Bytes) (packetid : Nat) (topicFilter : Bytes) (qos : Nat) :
    Checked (Int × Bytes) :=
  serializeRequest buf subscribe packetid topicFilter [UInt8.ofNat qos]

/-- `MQTTSerialize_unsubscribe` for one topic. -/
def mqttSerializeUnsubscribe (buf : Bytes) (packetid : Nat) (topicFilter : Bytes) :
    Checked (Int × Bytes) :=
  serializeRequest buf unsubscribe packetid topicFilter []

/-! ## Requests -/

/-- `iotx_mc_push_subInfo_to`: `none` where it fails. -/
def iotxMcPushSubInfoTo (c : SubClient) (len msgId : Nat) (type : RequestType)
    (handler : TopicHandle) (env : PublishEnv) : Option SubClient :=
  if iotxMcSubRequestNumMax ≤ c.listSubWaitAck.length then none
  else if env.infoMalloc = false then none
  else if env.nodeMalloc = false then none
  else
    some { c with listSubWaitAck :=
      c.listSubWaitAck ++ [⟨type, msgId, .normal, handler, c.bufSend.take len⟩] }

/-- `MQTTSubscribe` and `MQTTUnsubscribe` after the packet is serialized. -/
def sendRequest (c : SubClient) (packetError : Int) (len : Int) (msgId : Nat)
    (type : RequestType) (handler : TopicHandle) (env : PublishEnv) : Checked RequestResult :=
  if len ≤ 0 then .ok ⟨packetError, c, []⟩
  else
    match iotxMcPushSubInfoTo c len.toNat msgId type handler env with
    | none => .ok ⟨mqttPushToListError, c, []⟩
    | some pushed => do
        let sent ← iotxMcSendPacket c.bufSend len.toNat env.writes
        -- on failure the entry that was pushed is removed again
        if sent.rc ≠ successReturn then .ok ⟨mqttNetworkError, c, sent.requests⟩
        else .ok ⟨successReturn, pushed, sent.requests⟩

/-- `MQTTSubscribe`. -/
def mqttSubscribe (c : SubClient) (topicFilter : Bytes) (qos msgId : Nat)
    (messageHandler : EventHandle) (env : PublishEnv) : Checked RequestResult := do
  let (len, bufSend) ← mqttSerializeSubscribe c.bufSend msgId topicFilter qos
  sendRequest { c with bufSend } mqttSubscribePacketError len msgId .subscribe
    ⟨some topicFilter, messageHandler⟩ env

/-- `MQTTUnsubscribe`. -/
def mqttUnsubscribe (c : SubClient) (topicFilter : Bytes) (msgId : Nat) (env : PublishEnv) :
    Checked RequestResult := do
  let (len, bufSend) ← mqttSerializeUnsubscribe c.bufSend msgId topicFilter
  sendRequest { c with bufSend } mqttUnsubscribePacketError len msgId .unsubscribe
    ⟨some topicFilter, ⟨none, 0⟩⟩ env

/-- The end of `iotx_mc_subscribe` and `iotx_mc_unsubscribe`. -/
def requestDone (msgId : Nat) (r : RequestResult) : RequestResult :=
  if r.rc = mqttNetworkError then
    { r with client := { r.client with clientState := .disconnected } }
  else if r.rc ≠ successReturn then r
  else { r with rc := msgId }

/-- `iotx_mc_subscribe`. -/
def iotxMcSubscribe (c : SubClient) (topicFilter : Bytes) (qos : Nat)
    (messageHandler : EventHandle) (env : PublishEnv) : Checked RequestResult :=
  if c.clientState ≠ .connected then .ok ⟨mqttStateError, c, []⟩
  else if iotxMcCheckTopic topicFilter .filter ≠ successReturn then
    .ok ⟨mqttTopicFormatError, c, []⟩
  else do
    let (msgId, client) := iotxMcGetNextPacketid c.toMcClient
    let r ← mqttSubscribe { c with toMcClient := client } topicFilter qos msgId messageHandler env
    .ok (requestDone msgId r)

/-- `iotx_mc_unsubscribe`.  It takes a packet id before it checks anything. -/
def iotxMcUnsubscribe (c : SubClient) (topicFilter : Bytes) (env : PublishEnv) :
    Checked RequestResult := do
  let (msgId, client) := iotxMcGetNextPacketid c.toMcClient
  let c := { c with toMcClient := client }
  if iotxMcCheckTopic topicFilter .filter ≠ successReturn then .ok ⟨mqttTopicFormatError, c, []⟩
  else if c.clientState ≠ .connected then .ok ⟨mqttStateError, c, []⟩
  else do
    let r ← mqttUnsubscribe c topicFilter msgId env
    .ok (requestDone msgId r)

/-- `STRING_PTR_SANITY_CHECK`: a string that is neither NULL nor empty. -/
def stringPtrSanityCheck (ptr : Option Bytes) : Option Bytes := ptr.filter (· ≠ [])

/-- `IOT_MQTT_Subscribe`. -/
def iotMqttSubscribe (c : SubClient) (topicFilter : Option Bytes) (qos : Nat)
    (messageHandler : EventHandle) (env : PublishEnv) : Checked RequestResult :=
  if messageHandler.hFp = none then .ok ⟨nullValueError, c, []⟩
  else
    match stringPtrSanityCheck topicFilter with
    | none => .ok ⟨nullValueError, c, []⟩
    | some topicFilter =>
        iotxMcSubscribe c topicFilter (if 2 < qos then 0 else qos) messageHandler env

/-- `IOT_MQTT_Unsubscribe`. -/
def iotMqttUnsubscribe (c : SubClient) (topicFilter : Option Bytes) (env : PublishEnv) :
    Checked RequestResult :=
  match stringPtrSanityCheck topicFilter with
  | none => .ok ⟨nullValueError, c, []⟩
  | some topicFilter => iotxMcUnsubscribe c topicFilter env

/-- `IOT_MQTT_Publish`. -/
def iotMqttPublish (c : SubClient) (topicName : Option Bytes) (msg : Message)
    (up : Option (Int × Message)) (env : PublishEnv) : Checked RequestResult :=
  match stringPtrSanityCheck topicName with
  | none => .ok ⟨nullValueError, c, []⟩
  | some topicName => do
      let r ← iotxMcPublish c.toMcClient topicName msg up env
      .ok ⟨r.rc, { c with toMcClient := r.client }, r.requests⟩

/-! ## What a request changes -/

/-- A request gets as far as the list: the client is connected, the topic filter is valid and
fits the send buffer, a SUBSCRIBE has a handler, and the list has room. -/
structure RequestAccepted (c : SubClient) (type : RequestType) (handler : TopicHandle)
    (env : PublishEnv) : Prop where
  connected : c.clientState = .connected
  callable : type = .subscribe → handler.handle.hFp.isSome
  topic : ∃ filter, handler.topicFilter = some filter ∧
    iotxMcCheckTopic filter .filter = successReturn ∧
    mqttPacketLen (2 + (2 + filter.length + if type = .subscribe then 1 else 0)) ≤
      c.bufSend.length
  room : c.listSubWaitAck.length < iotxMcSubRequestNumMax
  memory : env.infoMalloc = true ∧ env.nodeMalloc = true

/-- A call leaves `sub_handle` and the publishes alone, and puts at most one entry at the
end of `list_sub_wait_ack`, under the next packet id. -/
structure Requested (c : SubClient) (type : RequestType) (handler : TopicHandle)
    (env : PublishEnv) (client : SubClient) : Prop where
  table : client.subHandle = c.subHandle
  published : client.listPubWaitAck = c.listPubWaitAck
  pending : client.listSubWaitAck = c.listSubWaitAck ∨
    (RequestAccepted c type handler env ∧
      ∃ info : SubInfo, client.listSubWaitAck = c.listSubWaitAck ++ [info] ∧
        info.msgId = (iotxMcGetNextPacketid c.toMcClient).1)

section Requests

variable {c : SubClient} {type : RequestType} {handler : TopicHandle} {env : PublishEnv}
  {r : RequestResult}

/-- A call that ends before it pushes anything. -/
theorem Requested.unchanged {client : SubClient} (htable : client.subHandle = c.subHandle)
    (hpub : client.listPubWaitAck = c.listPubWaitAck)
    (hsub : client.listSubWaitAck = c.listSubWaitAck) : Requested c type handler env client :=
  ⟨htable, hpub, Or.inl hsub⟩

theorem serializeRequest_fits {buf buf' topicFilter options : Bytes} {type packetid : Nat}
    {len : Int} (h : serializeRequest buf type packetid topicFilter options = .ok (len, buf'))
    (hpos : 0 < len) :
    mqttPacketLen (2 + (2 + topicFilter.length + options.length)) ≤ buf.length := by
  rw [serializeRequest] at h
  dsimp only at h
  split at h
  · cases h
    exact absurd hpos (by decide)
  next hfit => exact Nat.le_of_not_lt hfit

theorem sendRequest_client {packetError len : Int} {msgId : Nat}
    (h : sendRequest c packetError len msgId type handler env = .ok r) :
    r.client.toMcClient = c.toMcClient ∧ (r.client.listSubWaitAck = c.listSubWaitAck ∨
      (0 < len ∧ c.listSubWaitAck.length < iotxMcSubRequestNumMax ∧ env.infoMalloc = true ∧
        env.nodeMalloc = true ∧ ∃ buf, r.client.listSubWaitAck =
          c.listSubWaitAck ++ [⟨type, msgId, .normal, handler, buf⟩])) := by
  rw [sendRequest] at h
  split at h
  · cases h
    exact ⟨rfl, Or.inl rfl⟩
  next hlen =>
    split at h
    · cases h
      exact ⟨rfl, Or.inl rfl⟩
    next pushed hpush =>
      obtain ⟨sent, _, h⟩ := bind_eq_ok.mp h
      split at h
      · cases h
        exact ⟨rfl, Or.inl rfl⟩
      · cases h
        rw [iotxMcPushSubInfoTo] at hpush
        split at hpush
        · cases hpush
        next hroom =>
          split at hpush
          · cases hpush
          next hinfo =>
            split at hpush
            · cases hpush
            next hnode =>
              cases hpush
              exact ⟨rfl, Or.inr ⟨Int.not_le.mp hlen, Nat.not_le.mp hroom, by simpa using hinfo,
                by simpa using hnode, _, rfl⟩⟩

@[simp] theorem requestDone_subHandle (msgId : Nat) (r : RequestResult) :
    (requestDone msgId r).client.subHandle = r.client.subHandle := by
  simp only [requestDone]
  split
  · rfl
  · split <;> rfl

@[simp] theorem requestDone_listPubWaitAck (msgId : Nat) (r : RequestResult) :
    (requestDone msgId r).client.listPubWaitAck = r.client.listPubWaitAck := by
  simp only [requestDone]
  split
  · rfl
  · split <;> rfl

@[simp] theorem requestDone_listSubWaitAck (msgId : Nat) (r : RequestResult) :
    (requestDone msgId r).client.listSubWaitAck = r.client.listSubWaitAck := by
  simp only [requestDone]
  split
  · rfl
  · split <;> rfl

/-- A request that is sent, from a client that has taken its packet id. -/
theorem sendRequest_requested {client : SubClient} {packetError len : Int} {msgId : Nat}
    (h : sendRequest client packetError len msgId type handler env = .ok r)
    (hid : msgId = (iotxMcGetNextPacketid c.toMcClient).1)
    (htable : client.subHandle = c.subHandle) (hpub : client.listPubWaitAck = c.listPubWaitAck)
    (hsub : client.listSubWaitAck = c.listSubWaitAck) (hconnected : c.clientState = .connected)
    (hcallable : type = .subscribe → handler.handle.hFp.isSome)
    (htopic : 0 < len → ∃ filter, handler.topicFilter = some filter ∧
      iotxMcCheckTopic filter .filter = successReturn ∧
      mqttPacketLen (2 + (2 + filter.length + if type = .subscribe then 1 else 0)) ≤
        c.bufSend.length) :
    Requested c type handler env (requestDone msgId r).client := by
  obtain ⟨hclient, hpending⟩ := sendRequest_client h
  refine ⟨?_, ?_, ?_⟩
  · rw [requestDone_subHandle, hclient, htable]
  · rw [requestDone_listPubWaitAck, hclient, hpub]
  · rw [requestDone_listSubWaitAck]
    rw [hsub] at hpending
    rcases hpending with hsame | ⟨hlen, hroom, hinfo, hnode, buf, hpushed⟩
    · exact Or.inl hsame
    · exact Or.inr ⟨⟨hconnected, hcallable, htopic hlen, hroom, hinfo, hnode⟩, _, hpushed, hid⟩

theorem stringPtrSanityCheck_eq_some {ptr : Option Bytes} {string : Bytes}
    (h : stringPtrSanityCheck ptr = some string) : ptr = some string :=
  (Option.filter_eq_some_iff.mp h).1

theorem iotMqttSubscribe_requested {topicFilter : Option Bytes} {qos : Nat}
    {messageHandler : EventHandle}
    (h : iotMqttSubscribe c topicFilter qos messageHandler env = .ok r) :
    Requested c .subscribe ⟨topicFilter, messageHandler⟩ env r.client := by
  rw [iotMqttSubscribe] at h
  split at h
  · cases h
    exact .unchanged rfl rfl rfl
  next hhandler =>
    split at h
    · cases h
      exact .unchanged rfl rfl rfl
    next filter hfilter =>
      rw [stringPtrSanityCheck_eq_some hfilter]
      rw [iotxMcSubscribe] at h
      split at h
      · cases h
        exact .unchanged rfl rfl rfl
      next hconnected =>
        split at h
        · cases h
          exact .unchanged rfl rfl rfl
        next htopic =>
          obtain ⟨r', hsend, h⟩ := bind_eq_ok.mp h
          obtain ⟨⟨len, bufSend⟩, hser, hsend⟩ := bind_eq_ok.mp hsend
          cases h
          refine sendRequest_requested hsend rfl rfl rfl rfl (not_not.mp hconnected)
            (fun _ => Option.isSome_iff_ne_none.mpr hhandler) fun hpos => ?_
          exact ⟨filter, rfl, not_not.mp htopic, serializeRequest_fits hser hpos⟩

theorem iotMqttUnsubscribe_requested {topicFilter : Option Bytes}
    (h : iotMqttUnsubscribe c topicFilter env = .ok r) :
    Requested c .unsubscribe ⟨topicFilter, ⟨none, 0⟩⟩ env r.client := by
  rw [iotMqttUnsubscribe] at h
  split at h
  · cases h
    exact .unchanged rfl rfl rfl
  next filter hfilter =>
    rw [stringPtrSanityCheck_eq_some hfilter]
    rw [iotxMcUnsubscribe] at h
    dsimp only at h
    split at h
    · cases h
      exact .unchanged rfl rfl rfl
    next htopic =>
      split at h
      · cases h
        exact .unchanged rfl rfl rfl
      next hconnected =>
        obtain ⟨r', hsend, h⟩ := bind_eq_ok.mp h
        obtain ⟨⟨len, bufSend⟩, hser, hsend⟩ := bind_eq_ok.mp hsend
        cases h
        refine sendRequest_requested hsend rfl rfl rfl rfl (not_not.mp hconnected) nofun
          fun hpos => ?_
        exact ⟨filter, rfl, not_not.mp htopic, serializeRequest_fits hser hpos⟩

end Requests

/-! ## What a publish changes -/

/-- A message has QoS above 0 and there is room and memory for its entry. -/
structure Listed (c : McClient) (topicName : Bytes) (msg : Message) (env : PublishEnv) :
    Prop where
  qos : 0 < msg.qos
  room : ¬ NoRoom c topicName msg
  memory : env.infoMalloc = true ∧ env.nodeMalloc = true

/-- A call leaves `sub_handle` alone, and puts at most one entry at the end of
`list_pub_wait_ack`. -/
structure Published (c : McClient) (topicName : Bytes) (msg : Message) (env : PublishEnv)
    (client : McClient) : Prop where
  table : client.subHandle = c.subHandle
  list : client.listPubWaitAck = c.listPubWaitAck ∨
    (Listed c topicName msg env ∧
      ∃ buf, client.listPubWaitAck = c.listPubWaitAck ++ [⟨.normal, msg.packetId, buf⟩])

section Publishes

variable {c : McClient} {topicName : Bytes} {msg : Message} {env : PublishEnv} {r : PublishResult}

/-- A call that ends before it pushes anything. -/
theorem Published.unchanged {client : McClient} (htable : client.subHandle = c.subHandle)
    (hlist : client.listPubWaitAck = c.listPubWaitAck) : Published c topicName msg env client :=
  ⟨htable, Or.inl hlist⟩

theorem iotxMcPushPubInfoTo_spec {pushed : McClient} {len msgId : Nat}
    (h : iotxMcPushPubInfoTo c len msgId env = some pushed) :
    c.listPubWaitAck.length < iotxMcRepubNumMax ∧ env.infoMalloc = true ∧ env.nodeMalloc = true ∧
      pushed.subHandle = c.subHandle ∧
      ∃ buf, pushed.listPubWaitAck = c.listPubWaitAck ++ [⟨.normal, msgId, buf⟩] := by
  rw [iotxMcPushPubInfoTo] at h
  split at h
  · cases h
  split at h
  · cases h
  next hroom =>
    split at h
    · cases h
    next hinfo =>
      split at h
      · cases h
      next hnode =>
        cases h
        exact ⟨Nat.not_le.mp hroom, by simpa using hinfo, by simpa using hnode, rfl, _, rfl⟩

theorem mqttSerializePublish_room {buf buf' payload : Bytes} {dup qos retained packetid : Nat}
    {len : Int}
    (h : mqttSerializePublish buf dup qos retained packetid topicName payload = .ok (len, buf'))
    (hpos : 0 < len) :
    mqttPacketLen (mqttSerializePublishLength qos topicName payload.length) ≤ buf.length := by
  rw [mqttSerializePublish] at h
  dsimp only at h
  split at h
  · cases h
    exact absurd hpos (by decide)
  next hfit => exact Nat.le_of_not_lt hfit

theorem mqttPublish_published (h : mqttPublish c topicName msg env = .ok r) :
    Published c topicName msg env r.client := by
  obtain ⟨⟨len, bufSend⟩, hser, h⟩ := bind_eq_ok.mp h
  dsimp only at h
  split at h
  · cases h
    exact .unchanged rfl rfl
  next hlen =>
    have hfit := mqttSerializePublish_room hser (Int.not_le.mp hlen)
    split at h
    · cases h
      exact .unchanged rfl rfl
    next pushed hpush =>
      obtain ⟨sent, _, h⟩ := bind_eq_ok.mp h
      split at h
      · cases h
        exact .unchanged rfl rfl
      · cases h
        split at hpush
        next hqos =>
          obtain ⟨hroom, hinfo, hnode, htable, buf, hlist⟩ := iotxMcPushPubInfoTo_spec hpush
          have hsome : ¬ NoRoom c topicName msg := by
            rw [NoRoom, not_or, not_and]
            exact ⟨Nat.not_lt.mpr hfit, fun _ => Nat.not_le.mpr hroom⟩
          exact ⟨htable, Or.inr ⟨⟨hqos, hsome, hinfo, hnode⟩, buf, hlist⟩⟩
        next =>
          cases hpush
          exact .unchanged rfl rfl

/-- The message that is published. -/
def published (c : McClient) (msg : Message) (up : Option (Int × Message)) : Message :=
  match up with
  | some (_, msg) => msg
  | none => (assignPacketId c msg).2.2

theorem assignPacketId_client (c : McClient) (msg : Message) :
    (assignPacketId c msg).2.1.subHandle = c.subHandle ∧
      (assignPacketId c msg).2.1.bufSend = c.bufSend ∧
      (assignPacketId c msg).2.1.listPubWaitAck = c.listPubWaitAck ∧
      (assignPacketId c msg).2.2.qos = msg.qos := by
  rw [assignPacketId]
  split
  · exact ⟨rfl, rfl, rfl, rfl⟩
  · exact ⟨rfl, rfl, rfl, rfl⟩

/-- The end of `iotx_mc_publish` changes the state at most. -/
theorem Published.publish_end {msgId : Nat} {r₁ : PublishResult}
    (hpub : Published c topicName msg env r₁.client)
    (h : (if r₁.rc = mqttNetworkError then
        .ok { r₁ with client := iotxMcSetClientState r₁.client .disconnected }
      else if r₁.rc ≠ successReturn then .ok r₁
      else .ok { r₁ with rc := msgId } : Checked PublishResult) = .ok r) :
    Published c topicName msg env r.client := by
  split at h
  · cases h
    exact ⟨hpub.table, hpub.list⟩
  split at h
  · cases h
    exact hpub
  · cases h
    exact hpub

theorem Published.congr {c' client : McClient} (hpub : Published c' topicName msg env client)
    (htable : c'.subHandle = c.subHandle) (hbuf : c'.bufSend = c.bufSend)
    (hlist : c'.listPubWaitAck = c.listPubWaitAck) : Published c topicName msg env client := by
  refine ⟨hpub.table.trans htable, ?_⟩
  rw [← hlist]
  refine hpub.list.imp_right fun ⟨⟨hqos, hroom, hmemory⟩, hpushed⟩ => ⟨⟨hqos, ?_, hmemory⟩, hpushed⟩
  rwa [← noRoom_congr hbuf hlist]

/-- Only a call that is not rejected pushes its message. -/
theorem iotxMcPublish_published {up : Option (Int × Message)}
    (h : iotxMcPublish c topicName msg up env = .ok r) :
    (r.client.subHandle = c.subHandle ∧ r.client.listPubWaitAck = c.listPubWaitAck) ∨
      (¬ Rejected c topicName msg ∧ Published c topicName (published c msg up) env r.client) := by
  rw [iotxMcPublish] at h
  split at h
  · cases h
    exact Or.inl ⟨rfl, rfl⟩
  next htopic =>
    split at h
    · cases h
      exact Or.inl ⟨rfl, rfl⟩
    next hstate =>
      obtain ⟨htable, hbuf, hlist, hqos⟩ := assignPacketId_client c msg
      unfold published
      generalize assignPacketId c msg = x at *
      obtain ⟨msgId, c', msg'⟩ := x
      dsimp only at h htable hbuf hlist hqos
      split at h
      · cases h
        exact Or.inl ⟨htable, hlist⟩
      next htwo =>
        obtain ⟨r', hrun, h⟩ := bind_eq_ok.mp h
        refine Or.inr ⟨?_, ((mqttPublish_published hrun).publish_end h).congr htable hbuf hlist⟩
        rw [Rejected, not_or, not_or]
        exact ⟨htopic, hstate, hqos ▸ htwo⟩

/-- A publish gets as far as the list. -/
def PublishAccepted (c : McClient) (topicName : Option Bytes) (msg : Message)
    (up : Option (Int × Message)) (env : PublishEnv) : Prop :=
  ∃ name, topicName = some name ∧ ¬ Rejected c name msg ∧ Listed c name (published c msg up) env

theorem iotMqttPublish_published {c : SubClient} {topicName : Option Bytes}
    {up : Option (Int × Message)} {r : RequestResult}
    (h : iotMqttPublish c topicName msg up env = .ok r) :
    r.client.subHandle = c.subHandle ∧ r.client.listSubWaitAck = c.listSubWaitAck ∧
      (r.client.listPubWaitAck = c.listPubWaitAck ∨
        (PublishAccepted c.toMcClient topicName msg up env ∧
          ∃ buf, r.client.listPubWaitAck = c.listPubWaitAck ++
            [⟨.normal, (published c.toMcClient msg up).packetId, buf⟩])) := by
  rw [iotMqttPublish] at h
  split at h
  · cases h
    exact ⟨rfl, rfl, Or.inl rfl⟩
  next name hname =>
    obtain ⟨r', hrun, h⟩ := bind_eq_ok.mp h
    cases h
    rcases iotxMcPublish_published hrun with ⟨htable, hlist⟩ | ⟨haccepted, hpub⟩
    · exact ⟨htable, rfl, Or.inl hlist⟩
    · refine ⟨hpub.table, rfl, hpub.list.imp_right fun ⟨hlisted, hpushed⟩ => ⟨?_, hpushed⟩⟩
      exact ⟨name, stringPtrSanityCheck_eq_some hname, haccepted, hlisted⟩

end Publishes

end IotKit.Mqtt
