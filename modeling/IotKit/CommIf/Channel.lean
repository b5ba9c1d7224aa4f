import IotKit.Coap.Datagram
import IotKit.CommIf.Connection
import IotKit.Datapoint.Codec
import IotKit.Mqtt.Published

/-!
# The two channels

`iotx_comm_send` over MQTT and over CoAP, and what `IOT_Comm_SendData` and
`intoyunTransmitData` make of its result.  MQTT reports a failure with a negative number
and CoAP with a positive one.  A call over MQTT copies the data to a buffer whose size is
kept in 16 bits.
-/

namespace IotKit.CommIf.Channel

open CMemory

/-- Data with a 16-bit length. -/
abbrev Payload := { data : Bytes // data.length < 65536 }

/-- `iotx_conn_send_t`. -/
inductive ConnSend where
  | sendData
  | sendActionReply
deriving DecidableEq, Repr

/-- What a call returns, and what the network took of its message. -/
structure Sent where
  rst : Int
  wire : Bytes
deriving DecidableEq, Repr

/-- What `snprintf` leaves in a buffer of `size` bytes. -/
def snprintf (size : Nat) (text : Bytes) : Bytes := text.take (size - 1)

/-! ## MQTT -/

/-- `TOPIC_NAME_LEN`. -/
def topicNameLen : Nat := 64

/-- `"v2/device/"`. -/
def devicePath : Bytes := [118, 50, 47, 100, 101, 118, 105, 99, 101, 47]

/-- `"rx"` and `"reply"`. -/
def ConnSend.tail : ConnSend → Bytes
  | .sendData => [114, 120]
  | .sendActionReply => [114, 101, 112, 108, 121]

/-- `gen_mqt_topic`. -/
def genMqtTopic (deviceId name : Bytes) : Bytes :=
  snprintf topicNameLen (devicePath ++ (deviceId ++ (47 :: name)))

/-- A call over MQTT: the client, if there is one, whether the copy is allocated, what
`iotx_mqtt_up_process` returns and leaves, and the network. -/
structure MqttCall where
  pclient : Option Mqtt.McClient
  deviceId : Bytes
  malloc : Bool
  up : Int × Payload
  env : Mqtt.PublishEnv

/-- The message that is published, with its payload. -/
def mqttMessage (payload : Payload) : Mqtt.Message := ⟨0, 0, 0, payload.1, payload.2⟩

/-- `iotx_comm_send` of `iotx_comm_if_mqtt.c`. -/
def iotxCommSendMqtt (k : MqttCall) (sendType : ConnSend) (data : Payload) : Checked Sent :=
  match k.pclient with
  | none => .ok ⟨-1, []⟩
  | some c =>
      if k.malloc = false then .ok ⟨-1, []⟩
      -- the copy into the buffer
      else if (data.1.length + 6) % 65536 < data.1.length then .error .store
      else do
        let r ← Mqtt.iotxMcPublish c (genMqtTopic k.deviceId sendType.tail) (mqttMessage data)
          (some (k.up.1, mqttMessage k.up.2)) k.env
        .ok ⟨r.rc, Mqtt.publishWire r k.env⟩

/-! ## CoAP -/

/-- A call over CoAP. -/
structure CoapCall where
  client : Coap.CoapClient
  deviceId : Bytes
  authToken : Bytes
  write : Bool
  alloc : Coap.Allocation

/-- `iotx_publish_callback`. -/
def iotxPublishCallback : Nat := 0

/-- The request: the path is `"/v2/device/%s/rx"`, the query `"&srt=%s"`. -/
def coapRequest (k : CoapCall) (sendType : ConnSend) (data : Payload) : Coap.IotxMessage :=
  { payload := some data.1
    url := some (snprintf 128 ((47 :: devicePath) ++ (k.deviceId ++ (47 :: sendType.tail))))
    querystr := some (snprintf 128 ([38, 115, 114, 116, 61] ++ k.authToken))
    method := 2
    cbor := false
    respCallback := some iotxPublishCallback }

/-- `iotx_comm_send` of `iotx_comm_if_coap.c`. -/
def iotxCommSendCoap (k : CoapCall) (sendType : ConnSend) (data : Payload) : Checked Sent := do
  let (sent, _) ← Coap.iotCoapClientSend k.client (coapRequest k sendType data) k.write k.alloc
  .ok ⟨sent.ret, sent.written.getD []⟩

/-! ## The interface -/

/-- The back end of a build, with the environment of one call. -/
inductive Backend where
  | mqtt (k : MqttCall)
  | coap (k : CoapCall)

/-- `iotx_comm_send`. -/
def iotxCommSend : Backend → ConnSend → Payload → Checked Sent
  | .mqtt k => iotxCommSendMqtt k
  | .coap k => iotxCommSendCoap k

/-- `IOT_Comm_SendData`, with the connection state that it leaves. -/
def iotCommSendData (networkState : NetworkState) (connState : ConnState) (backend : Backend)
    (data : Payload) : Checked (Sent × ConnState) :=
  if networkState ≠ .connected then .ok (⟨-1, []⟩, .disconnected)
  else if connState ≠ .connected then .ok (⟨-1, []⟩, connState)
  else do
    let sent ← iotxCommSend backend .sendData data
    .ok (sent, if sent.rst < 0 then .disconnected else connState)

/-! ## Reports -/

/-- The network took the whole message: the PUBLISH with what `iotx_mqtt_up_process` left,
or the datagram of the request. -/
def Handed (data : Payload) (wire : Bytes) : Backend → Prop
  | .mqtt k =>
      wire = Mqtt.publishPacket (genMqtTopic k.deviceId ConnSend.sendData.tail)
        (mqttMessage k.up.2)
  | .coap k =>
      ∃ m client, Coap.clientMessage false k.client (coapRequest k .sendData data) =
        .ok (m, client) ∧ wire = m.datagram

/-- The call comes back, `IOT_Comm_SendData` returns a negative number exactly if the message
was not handed to the network, and `intoyunTransmitData` reports success exactly if it was. -/
def Reports (networkState : NetworkState) (connState : ConnState) (backend : Backend)
    (data : Payload) : Prop :=
  ∃ sent connState', iotCommSendData networkState connState backend data =
      .ok (sent, connState') ∧
    (sent.rst < 0 ↔ ¬Handed data sent.wire backend) ∧
    (Datapoint.intoyunTransmitData sent.rst = 1 ↔ Handed data sent.wire backend)

/-- Over MQTT: the size of the copy does not wrap, and the network takes no more than the send
buffer of a packet that is sent. -/
def MqttCall.Sound (k : MqttCall) (data : Payload) : Prop :=
  ∀ c, k.pclient = some c → k.malloc = true →
    data.1.length + 6 < 65536 ∧
      (Mqtt.Sends c (genMqtTopic k.deviceId ConnSend.sendData.tail) (mqttMessage data)
          (mqttMessage k.up.2) →
        Mqtt.WritesInside c.bufSend.length
          (Mqtt.publishPacket (genMqtTopic k.deviceId ConnSend.sendData.tail)
            (mqttMessage k.up.2)).length k.env.writes 0)

/-- Over CoAP: the request fits into a datagram, and the network takes it. -/
def CoapCall.Sound (k : CoapCall) (data : Payload) : Prop :=
  k.write = true ∧ ∀ m client, Coap.clientMessage false k.client (coapRequest k .sendData data) =
    .ok (m, client) → m.Fits

def Backend.Sound (data : Payload) : Backend → Prop
  | .mqtt k => k.Sound data
  | .coap k => k.Sound data

variable {data : Payload} {backend : Backend}

theorem intoyunTransmitData_eq_one {result : Int} :
    Datapoint.intoyunTransmitData result = 1 ↔ result = 0 := by
  rw [Datapoint.intoyunTransmitData]
  split
  next h => exact ⟨fun _ => h, fun _ => rfl⟩
  next h => exact ⟨nofun, fun h' => absurd h' h⟩

theorem not_handed_nil : ¬Handed data [] backend := by
  cases backend with
  | mqtt k => exact Mqtt.publishPacket_ne_nil.symm
  | coap k =>
      rintro ⟨m, client, -, hwire⟩
      exact absurd hwire.symm (List.cons_ne_nil _ _)

/-- A call that returns 0 where the message was handed over and a negative number where it was
not. -/
theorem reported {rst : Int} {P : Prop} (h : rst = 0 ∧ P ∨ rst < 0 ∧ ¬P) :
    (rst < 0 ↔ ¬P) ∧ (rst = 0 ↔ P) := by
  obtain ⟨rfl, hP⟩ | ⟨hneg, hP⟩ := h
  · exact ⟨⟨fun hneg => absurd hneg (Int.lt_irrefl 0), fun hnot => absurd hP hnot⟩,
      fun _ => hP, fun _ => rfl⟩
  · exact ⟨⟨fun _ => hP, fun _ => hneg⟩,
      fun hzero => absurd hneg (hzero ▸ Int.lt_irrefl 0), fun h => absurd h hP⟩

/-- What a call returns that is refused at once. -/
theorem reported_refused :
    ((-1 : Int) < 0 ↔ ¬Handed data [] backend) ∧ ((-1 : Int) = 0 ↔ Handed data [] backend) :=
  reported (Or.inr ⟨by decide, not_handed_nil⟩)

theorem reports_iff {networkState : NetworkState} {connState : ConnState} :
    Reports networkState connState backend data ↔
      ∃ sent connState', iotCommSendData networkState connState backend data =
          .ok (sent, connState') ∧
        (sent.rst < 0 ↔ ¬Handed data sent.wire backend) ∧
        (sent.rst = 0 ↔ Handed data sent.wire backend) := by
  simp only [Reports, intoyunTransmitData_eq_one]

/-- Once the connection is up, only the back end matters. -/
theorem reports_connected :
    Reports .connected .connected backend data ↔
      ∃ sent, iotxCommSend backend .sendData data = .ok sent ∧
        (sent.rst < 0 ↔ ¬Handed data sent.wire backend) ∧
        (sent.rst = 0 ↔ Handed data sent.wire backend) := by
  rw [reports_iff]
  constructor
  · rintro ⟨sent, connState', hsend, hreported⟩
    obtain ⟨sent', hsent, h⟩ := bind_eq_ok.mp hsend
    cases h
    exact ⟨sent, hsent, hreported⟩
  · rintro ⟨sent, hsent, hreported⟩
    exact ⟨sent, _, bind_eq_ok.mpr ⟨sent, hsent, rfl⟩, hreported⟩

/-! ## The back ends -/

theorem iotxCommSendMqtt_some {k : MqttCall} {c : Mqtt.McClient} (hclient : k.pclient = some c)
    (hmalloc : k.malloc = true) (sendType : ConnSend) (data : Payload) :
    iotxCommSendMqtt k sendType data =
      if (data.1.length + 6) % 65536 < data.1.length then .error .store
      else Mqtt.iotxMcPublish c (genMqtTopic k.deviceId sendType.tail) (mqttMessage data)
        (some (k.up.1, mqttMessage k.up.2)) k.env >>= fun r =>
          .ok ⟨r.rc, Mqtt.publishWire r k.env⟩ := by
  rw [iotxCommSendMqtt, hclient]
  dsimp only
  rw [if_neg (by rw [hmalloc]; decide)]

theorem mqtt_reports_iff (k : MqttCall) (data : Payload) :
    Reports .connected .connected (.mqtt k) data ↔ k.Sound data := by
  rw [reports_connected, iotxCommSend]
  cases hclient : k.pclient with
  | none =>
      have hsend : iotxCommSendMqtt k .sendData data = .ok ⟨-1, []⟩ := by
        rw [iotxCommSendMqtt, hclient]
      refine ⟨fun _ c hc => ?_, fun _ => ⟨_, hsend, reported_refused⟩⟩
      exact absurd (hclient.symm.trans hc) (Option.some_ne_none c).symm
  | some c =>
      have honly : ∀ {c'}, k.pclient = some c' → c' = c := fun hc' =>
        Option.some.inj (hc'.symm.trans hclient)
      by_cases hmalloc : k.malloc = true
      · rw [iotxCommSendMqtt_some hclient hmalloc]
        by_cases hwrap : data.1.length + 6 < 65536
        · rw [if_neg (by omega)]
          constructor
          · rintro ⟨sent, hsend, -⟩ c' hc' -
            obtain rfl := honly hc'
            obtain ⟨r, hr, -⟩ := bind_eq_ok.mp hsend
            exact ⟨hwrap, (Mqtt.iotxMcPublish_ends rfl rfl).mp ⟨r, hr⟩⟩
          · intro hsound
            obtain ⟨-, hinside⟩ := hsound c hclient hmalloc
            obtain ⟨r, hr⟩ := (Mqtt.iotxMcPublish_ends rfl rfl).mpr hinside
            exact ⟨_, bind_eq_ok.mpr ⟨r, hr, rfl⟩,
              reported (Mqtt.iotxMcPublish_reports rfl rfl hr)⟩
        · have hshort := data.2
          rw [if_pos (by omega)]
          constructor
          · rintro ⟨_, h, -⟩
            cases h
          · exact fun hsound => absurd (hsound c hclient hmalloc).1 hwrap
      · have hsend : iotxCommSendMqtt k .sendData data = .ok ⟨-1, []⟩ := by
          rw [iotxCommSendMqtt, hclient]
          dsimp only
          rw [if_pos (by simpa using hmalloc)]
        exact ⟨fun _ _ _ h => absurd h hmalloc, fun _ => ⟨_, hsend, reported_refused⟩⟩

theorem snprintf_length {size : Nat} (hpos : 0 < size) (text : Bytes) :
    (snprintf size text).length < size := by
  rw [snprintf, List.length_take]
  omega

theorem coap_reports_iff (k : CoapCall) (data : Payload) :
    Reports .connected .connected (.coap k) data ↔ k.Sound data := by
  obtain ⟨m, client, hmessage, hformed⟩ := Coap.clientMessage_formed k.client
    (p := coapRequest k .sendData data) rfl rfl rfl (snprintf_length (by decide) _)
    (snprintf_length (by decide) _)
  have honly : ∀ {m' client'}, Coap.clientMessage false k.client (coapRequest k .sendData data) =
      .ok (m', client') → m' = m := fun h => by
    rw [hmessage] at h
    cases h
    rfl
  rw [reports_connected, iotxCommSend]
  constructor
  · rintro ⟨sent, hsend, hneg, -⟩
    obtain ⟨⟨sent', client'⟩, hclient, h⟩ := bind_eq_ok.mp hsend
    cases h
    obtain ⟨⟨m', client₁⟩, hm', hclient⟩ := bind_eq_ok.mp hclient
    obtain ⟨_, hsent, h⟩ := bind_eq_ok.mp hclient
    cases h
    obtain rfl := honly hm'
    have hpos : ¬sent'.ret < 0 := by
      obtain ⟨⟨hzero, -⟩ | ⟨hpos, -⟩, -⟩ := Coap.coapMessageSend_eq_ok hsent
      · rw [hzero]
        decide
      · exact Int.not_lt.mpr (Int.le_of_lt hpos)
    obtain ⟨m₂, client₂, hm₂, hwire⟩ := not_not.mp fun hnot => hpos (hneg.mpr hnot)
    obtain rfl := honly hm₂
    have hwritten : sent'.written = some m₂.datagram := by
      cases hw : sent'.written with
      | none =>
          rw [hw] at hwire
          exact absurd hwire.symm (List.cons_ne_nil _ _)
      | some bytes =>
          rw [hw] at hwire
          exact congrArg some hwire
    obtain ⟨hfits, hwrite⟩ := hformed.sized.fits_of_written hsent hwritten
    exact ⟨hwrite, fun m₃ client₃ hm₃ => honly hm₃ ▸ hfits⟩
  · rintro ⟨hwrite, hfits⟩
    obtain ⟨sent, hsent, hdone⟩ := hformed.sized.send_fits (hfits m client hmessage) client.context
      client.sends k.write k.alloc
    obtain ⟨hret, hwritten⟩ := hdone hwrite
    have hclient : Coap.iotCoapClientSend k.client (coapRequest k .sendData data) k.write k.alloc =
        .ok (sent, { client with context := sent.context, sends := client.sends + 1 }) :=
      bind_eq_ok.mpr ⟨(m, client), hmessage, bind_eq_ok.mpr ⟨sent, hsent, rfl⟩⟩
    refine ⟨_, bind_eq_ok.mpr ⟨_, hclient, rfl⟩, reported (Or.inl ⟨hret, m, client, hmessage, ?_⟩)⟩
    rw [hwritten]
    rfl

/-- Each back end reports its failures as the interface says exactly if its call is sound, or
the connection is not up. -/
theorem sendData_reports_iff (networkState : NetworkState) (connState : ConnState)
    (backend : Backend) (data : Payload) :
    Reports networkState connState backend data ↔
      (networkState = .connected → connState = .connected → backend.Sound data) := by
  by_cases hnetwork : networkState = .connected
  · subst hnetwork
    by_cases hconn : connState = .connected
    · subst hconn
      refine Iff.trans ?_ ⟨fun h _ _ => h, fun h => h rfl rfl⟩
      cases backend with
      | mqtt k => exact mqtt_reports_iff k data
      | coap k => exact coap_reports_iff k data
    · refine ⟨fun _ _ hup => absurd hup hconn, fun _ => reports_iff.mpr ?_⟩
      rw [iotCommSendData, if_neg (by decide), if_pos hconn]
      exact ⟨_, _, rfl, reported_refused⟩
  · refine ⟨fun _ hup => absurd hup hnetwork, fun _ => reports_iff.mpr ?_⟩
    rw [iotCommSendData, if_pos hnetwork]
    exact ⟨_, _, rfl, reported_refused⟩

/-- A CoAP client that has just been made, on a network that takes nothing. -/
def deafCoap : Backend := .coap ⟨Coap.iotCoapInit, [], [], false, ⟨true, true⟩⟩

/-- `IOT_Comm_SendData` returns 265. -/
theorem not_reports_deafCoap :
    ¬∀ networkState connState backend data, Reports networkState connState backend data := by
  intro h
  obtain ⟨sent, connState, hsend, hneg, -⟩ :=
    h .connected .connected deafCoap ⟨[49], by decide⟩
  have hrun : iotCommSendData .connected .connected deafCoap ⟨[49], by decide⟩ =
      .ok (⟨265, []⟩, .connected) := by decide
  rw [hrun] at hsend
  cases hsend
  exact absurd (hneg.mpr not_handed_nil) (by decide)

end IotKit.CommIf.Channel
