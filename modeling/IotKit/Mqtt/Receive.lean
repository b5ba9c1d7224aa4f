import IotKit.Mqtt.Client
import IotKit.Mqtt.Send
import IotKit.Mqtt.Topic

/-!
# Receiving a PUBLISH

`iotx_mc_handle_recv_PUBLISH` parses the packet in the read buffer, calls
`mqtt_down_process` to open the payload in place, delivers the message to the
handlers of the matching subscriptions and acknowledges it.  The return code of
`mqtt_down_process` is dropped.

The handlers are not run by the model: a call is recorded with the message it is
given, so what no call mentions no handler sees.
-/

namespace IotKit.Mqtt

open CMemory

/-- The fields of `iotx_mqtt_topic_info_t` that a handler reads. -/
structure TopicInfo where
  packetId : Nat
  qos : Nat
  dup : Nat
  retain : Nat
  topicLen : Nat
  payload : Bytes
deriving DecidableEq, Repr

/-- A call of a handler with the event `IOTX_MQTT_EVENT_PUBLISH_RECVEIVED`. -/
structure HandlerCall where
  hFp : Nat
  pcontext : Nat
  msg : TopicInfo
deriving DecidableEq, Repr

/-- The call of a handle, if it is not NULL. -/
def EventHandle.call (h : EventHandle) (msg : TopicInfo) : List HandlerCall :=
  match h.hFp with
  | some hFp => [⟨hFp, h.pcontext, msg⟩]
  | none => []

/-- Whether one entry of `sub_handle` is for the topic. -/
def topicMatches (name : TopicName) (h : TopicHandle) : Checked Bool :=
  match h.topicFilter with
  | none => .ok false
  | some filter => do
      let equal ← mqttPacketEquals name filter
      if equal then .ok true else iotxMcIsTopicMatched filter name

/-- The loop of `iotx_mc_deliver_message`: the calls it makes. -/
def deliverLoop (name : TopicName) (msg : TopicInfo) : List TopicHandle → Checked (List HandlerCall)
  | [] => .ok []
  | h :: handles => do
      let matched ← topicMatches name h
      let calls ← deliverLoop name msg handles
      .ok ((if matched then h.handle.call msg else []) ++ calls)

/-- `iotx_mc_deliver_message`.  `flag_matched` is set where a call is made. -/
def iotxMcDeliverMessage (c : McClient) (name : TopicName) (msg : TopicInfo) :
    Checked (List HandlerCall) := do
  let calls ← deliverLoop name msg c.subHandle.toList
  .ok (if calls = [] then c.handleEvent.call msg else calls)

/-- `mqtt_down_process` on the payload of length `len` at offset `off` of an
object: its result, its own state, the object and the payload length. -/
abbrev DownProcess (σ : Type) := σ → Bytes → Nat → Nat → Checked (Int × σ × Bytes × Nat)

/-- The characters of the topic name, in the read buffer. -/
def topicName (bufRead : Bytes) (fields : PublishFields) : TopicName where
  len := fields.topicLen
  char i :=
    if i < fields.topicLen then
      match fields.topicData with
      | some off => load bufRead ((off + i : Nat) : Int)
      | none => .error .load
    else .error .load

/-- `MQTTPuback` for PUBACK and PUBREC. -/
def mqttPuback (c : McClient) (msgId type : Nat) (writes : List Int) :
    Checked (Int × McClient) := do
  let (len, bufSend) ← mqttSerializeAck c.bufSend type 0 msgId
  let c := { c with bufSend }
  if len ≤ 0 then .ok (mqttPublishAckPacketError, c)
  else do
    let sent ← iotxMcSendPacket c.bufSend len.toNat writes
    if sent.rc ≠ successReturn then .ok (mqttNetworkError, c) else .ok (successReturn, c)

/-- `topic_msg.payload_len`: the payload length narrowed to 16 bits. -/
def payloadLen (fields : PublishFields) : Nat := (fields.payloadlen % 65536).toNat

/-- The payload after `mqtt_down_process`, whose result is dropped: its state, the
read buffer, and the payload's length and bytes. -/
def openPayload {σ : Type} (down : Option (DownProcess σ)) (s : σ) (bufRead : Bytes)
    (fields : PublishFields) : Checked (σ × Bytes × Bytes) :=
  match fields.payload, down with
  | some off, some down => do
      let (_, s, bufRead, len) ← down s bufRead off (payloadLen fields)
      .ok (s, bufRead, (bufRead.drop off).take len)
  | some off, none => .ok (s, bufRead, (bufRead.drop off).take (payloadLen fields))
  | none, some down => do
      -- a NULL payload: an object without bytes
      let (_, s, mem, len) ← down s [] 0 (payloadLen fields)
      .ok (s, bufRead, mem.take len)
  | none, none => .ok (s, bufRead, [])

structure RecvResult (σ : Type) where
  rc : Int
  client : McClient
  state : σ
  calls : List HandlerCall

/-- The end of `iotx_mc_handle_recv_PUBLISH`: the acknowledgement. -/
def acknowledge (c : McClient) (qos packetid : Nat) (writes : List Int) :
    Checked (Int × McClient) :=
  if qos = 0 then .ok (successReturn, c)
  else if qos = 1 then mqttPuback c packetid puback writes
  else if qos = 2 then mqttPuback c packetid pubrec writes
  else .ok (mqttPublishQosError, c)

/-- `iotx_mc_handle_recv_PUBLISH`. -/
def iotxMcHandleRecvPublish {σ : Type} (down : Option (DownProcess σ)) (s : σ) (c : McClient)
    (writes : List Int) : Checked (RecvResult σ) := do
  let (rc, fields) ← mqttDeserializePublish c.bufRead
  if rc ≠ 1 then .ok ⟨mqttPublishPacketError, c, s, []⟩
  else do
    let (s, bufRead, payload) ← openPayload down s c.bufRead fields
    let c := { c with bufRead }
    let msg : TopicInfo :=
      { packetId := fields.packetid, qos := fields.qos, dup := fields.dup,
        retain := fields.retained, topicLen := fields.topicLen, payload }
    let calls ← iotxMcDeliverMessage c (topicName bufRead fields) msg
    let (rc, c) ← acknowledge c fields.qos fields.packetid writes
    .ok ⟨rc, c, s, calls⟩

/-! ## Who is called -/

/-- Some handler is called for the topic: one of a matching subscription, or the
default handler. -/
def Listening (c : McClient) (name : TopicName) : Prop :=
  (∃ h ∈ c.subHandle.toList, topicMatches name h = .ok true ∧ h.handle.hFp.isSome) ∨
    c.handleEvent.hFp.isSome

theorem EventHandle.call_msg {h : EventHandle} {msg : TopicInfo} {call : HandlerCall}
    (hcall : call ∈ h.call msg) : call.msg = msg := by
  rw [EventHandle.call] at hcall
  split at hcall
  · rw [List.mem_singleton.mp hcall]
  · cases hcall

theorem EventHandle.call_eq_nil {h : EventHandle} {msg : TopicInfo} :
    h.call msg = [] ↔ ¬ h.hFp.isSome := by
  rw [EventHandle.call]
  cases h.hFp with
  | none => exact ⟨fun _ => nofun, fun _ => rfl⟩
  | some hFp => exact ⟨nofun, fun hnone => absurd rfl hnone⟩

theorem deliverLoop_msg {name : TopicName} {msg : TopicInfo} {handles : List TopicHandle}
    {calls : List HandlerCall} (h : deliverLoop name msg handles = .ok calls) :
    ∀ call ∈ calls, call.msg = msg := by
  induction handles generalizing calls with
  | nil =>
      cases h
      exact fun _ hcall => absurd hcall List.not_mem_nil
  | cons handle handles ih =>
      obtain ⟨matched, _, h⟩ := bind_eq_ok.mp h
      obtain ⟨rest, hrest, h⟩ := bind_eq_ok.mp h
      cases h
      intro call hcall
      rcases List.mem_append.mp hcall with hcall | hcall
      · split at hcall
        · exact EventHandle.call_msg hcall
        · cases hcall
      · exact ih hrest call hcall

theorem deliverLoop_eq_nil {name : TopicName} {msg : TopicInfo} {handles : List TopicHandle}
    {calls : List HandlerCall} (h : deliverLoop name msg handles = .ok calls) :
    calls = [] ↔ ¬ ∃ h ∈ handles, topicMatches name h = .ok true ∧ h.handle.hFp.isSome := by
  induction handles generalizing calls with
  | nil =>
      cases h
      exact ⟨fun _ ⟨_, hmem, _⟩ => absurd hmem List.not_mem_nil, fun _ => rfl⟩
  | cons handle handles ih =>
      obtain ⟨matched, hmatched, h⟩ := bind_eq_ok.mp h
      obtain ⟨rest, hrest, h⟩ := bind_eq_ok.mp h
      cases h
      rw [List.append_eq_nil_iff, ih hrest, List.exists_mem_cons_iff, not_or, hmatched]
      cases matched with
      | true =>
          rw [if_pos rfl, EventHandle.call_eq_nil]
          exact and_congr_left fun _ =>
            ⟨fun hnone hsome => hnone hsome.2, fun hnone hsome => hnone ⟨rfl, hsome⟩⟩
      | false =>
          exact and_congr_left fun _ => ⟨fun _ hfalse => (nomatch hfalse.1), fun _ => rfl⟩

/-- Every call carries the message, and there is one exactly where somebody
listens. -/
theorem iotxMcDeliverMessage_cases {c : McClient} {name : TopicName} {msg : TopicInfo}
    {calls : List HandlerCall} (h : iotxMcDeliverMessage c name msg = .ok calls) :
    (∀ call ∈ calls, call.msg = msg) ∧ (calls = [] ↔ ¬ Listening c name) := by
  obtain ⟨looped, hloop, h⟩ := bind_eq_ok.mp h
  have hnil := deliverLoop_eq_nil hloop
  cases h
  split
  next hempty =>
    refine ⟨fun call hcall => EventHandle.call_msg hcall, ?_⟩
    rw [EventHandle.call_eq_nil, Listening, not_or]
    exact ⟨fun hnone => ⟨hnil.mp hempty, hnone⟩, And.right⟩
  next hsome =>
    refine ⟨deliverLoop_msg hloop, ⟨fun hempty => absurd hempty hsome, fun hnone => ?_⟩⟩
    exact hnil.mpr fun hex => hnone (Or.inl hex)

end IotKit.Mqtt
