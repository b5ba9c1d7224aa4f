import IotKit.Mqtt.Published
import IotKit.Mqtt.Subscribe
import IotKit.Utils.List

/-!
# The pending lists

The requests of a client with the nodes of their two lists.  `MQTTPublish`, `MQTTSubscribe`
and `MQTTUnsubscribe` put the entry of a request into its list before they send the packet,
and take its node out again where the send fails.

A dangling node is a fault of the model.  The locks are left out: a call is atomic.
-/

namespace IotKit.Mqtt.Pending

open CMemory Utils

/-! ## The source -/

/-- An entry with the time it was started at. -/
structure Timed (α : Type) where
  info : α
  startTime : UInt32
deriving DecidableEq, Repr

/-- `IOTX_MC_REQUEST_TIMEOUT_MAX_MS`. -/
def iotxMcRequestTimeoutMaxMs : UInt32 := 5000

/-- What `iotx_mc_client_t` has for its pending lists.  The value of a node may be NULL.
`iotx_mc_init` keeps the timeout in its range. -/
structure Client where
  bufSend : Bytes
  requestTimeoutMs : UInt32
  clientState : McState
  handleEvent : EventHandle
  listPubWaitAck : ListT (Option (Timed PubInfo))
  listSubWaitAck : ListT (Option (Timed SubInfo))
  timeout_le : requestTimeoutMs ≤ iotxMcRequestTimeoutMaxMs

/-- The environment of a request: `now` is the clock when its entry is started. -/
structure RequestEnv extends PublishEnv where
  now : UInt32

/-- A request's return code, the client after it, and what `iotx_mc_send_packet` did where it
was called. -/
structure Result where
  rc : Int
  client : Client
  sent : Option SendResult

/-- An access to a node. -/
def access {α : Type} (x : Except ObjectHeap.Fault α) : Checked α := x.mapError fun _ => .load

/-- The common part of the two functions below: the node and the list with it. -/
def pushInfo {α : Type} (l : ListT (Option (Timed α))) (max : Nat) (bufSend : Bytes) (len : Nat)
    (info : Bytes → α) (env : RequestEnv) :
    Checked (Option (Nat × ListT (Option (Timed α)))) :=
  if max ≤ l.len.toNat then .ok none
  else if env.infoMalloc = false then .ok none
  else do
    let buf ← loadN bufSend 0 len
    match listNodeNew l (some ⟨info buf, env.now⟩) env.nodeMalloc with
    | (none, _) => .ok none
    | (some node, l) => do
        let l ← access (listRpush l (some node))
        .ok (some (node, l))

/-- `iotx_mc_push_pubInfo_to`. -/
def iotxMcPushPubInfoTo (c : Client) (len msgId : Nat) (env : RequestEnv) :
    Checked (Option (Nat × ListT (Option (Timed PubInfo)))) :=
  if c.bufSend.length < len then .ok none
  else
    pushInfo c.listPubWaitAck iotxMcRepubNumMax c.bufSend len
      (fun buf => ⟨.normal, msgId % 65536, buf⟩) env

/-- `iotx_mc_push_subInfo_to`. -/
def iotxMcPushSubInfoTo (c : Client) (len msgId : Nat) (type : RequestType)
    (handler : TopicHandle) (env : RequestEnv) :
    Checked (Option (Nat × ListT (Option (Timed SubInfo)))) :=
  pushInfo c.listSubWaitAck iotxMcSubRequestNumMax c.bufSend len
    (fun buf => ⟨type, msgId % 65536, .normal, handler, buf⟩) env

/-- What the three requests do with the result of a push: the return code, the list, and what
`iotx_mc_send_packet` did. -/
def sendPushed {α : Type} (l : ListT α) (pushed : Option (Nat × ListT α)) (bufSend : Bytes)
    (len : Nat) (writes : List Int) : Checked (Int × ListT α × Option SendResult) :=
  match pushed with
  | none => .ok (mqttPushToListError, l, none)
  | some (node, l) => do
      let sent ← iotxMcSendPacket bufSend len writes
      if sent.rc ≠ successReturn then do
        let l ← access (listRemove l node)
        .ok (mqttNetworkError, l, some sent)
      else .ok (successReturn, l, some sent)

/-- `MQTTPublish`. -/
def mqttPublish (c : Client) (topicName : Option Bytes) (msg : Message) (env : RequestEnv) :
    Checked Result :=
  match topicName with
  | none => .ok ⟨failReturn, c, none⟩
  | some topicName => do
      let (len, bufSend) ←
        mqttSerializePublish c.bufSend 0 msg.qos msg.retain msg.packetId topicName msg.payload
      let c := { c with bufSend }
      if len ≤ 0 then .ok ⟨mqttPublishPacketError, c, none⟩
      else if 0 < msg.qos then do
        let pushed ← iotxMcPushPubInfoTo c len.toNat msg.packetId env
        let (rc, listPubWaitAck, sent) ←
          sendPushed c.listPubWaitAck pushed c.bufSend len.toNat env.writes
        .ok ⟨rc, { c with listPubWaitAck }, sent⟩
      else do
        let sent ← iotxMcSendPacket c.bufSend len.toNat env.writes
        .ok ⟨if sent.rc ≠ successReturn then mqttNetworkError else successReturn, c, some sent⟩

/-- `MQTTSubscribe` and `MQTTUnsubscribe` after the packet is serialized. -/
def sendRequest (c : Client) (packetError : Int) (len : Int) (msgId : Nat) (type : RequestType)
    (handler : TopicHandle) (env : RequestEnv) : Checked Result :=
  if len ≤ 0 then .ok ⟨packetError, c, none⟩
  else do
    let pushed ← iotxMcPushSubInfoTo c len.toNat msgId type handler env
    let (rc, listSubWaitAck, sent) ←
      sendPushed c.listSubWaitAck pushed c.bufSend len.toNat env.writes
    .ok ⟨rc, { c with listSubWaitAck }, sent⟩

/-- `MQTTSubscribe`. -/
def mqttSubscribe (c : Client) (topicFilter : Option Bytes) (qos msgId : Nat)
    (messageHandler : EventHandle) (env : RequestEnv) : Checked Result :=
  match topicFilter, messageHandler.hFp with
  | some filter, some _ => do
      let (len, bufSend) ← mqttSerializeSubscribe c.bufSend (msgId % 65536) filter qos
      sendRequest { c with bufSend } mqttSubscribePacketError len msgId .subscribe
        ⟨topicFilter, messageHandler⟩ env
  | _, _ => .ok ⟨failReturn, c, none⟩

/-- `MQTTUnsubscribe`. -/
def mqttUnsubscribe (c : Client) (topicFilter : Option Bytes) (msgId : Nat) (env : RequestEnv) :
    Checked Result :=
  match topicFilter with
  | some filter => do
      let (len, bufSend) ← mqttSerializeUnsubscribe c.bufSend (msgId % 65536) filter
      sendRequest { c with bufSend } mqttUnsubscribePacketError len msgId .unsubscribe
        ⟨topicFilter, ⟨none, 0⟩⟩ env
  | none => .ok ⟨failReturn, c, none⟩

/-! ## Well-formed clients -/

/-- The lists are well formed, hold these entries, and are within their bounds. -/
structure Lists (c : Client) (pubs : List (Option (Timed PubInfo)))
    (subs : List (Option (Timed SubInfo))) : Prop where
  pub : c.listPubWaitAck.Holds pubs
  sub : c.listSubWaitAck.Holds subs
  pub_le : pubs.length ≤ iotxMcRepubNumMax
  sub_le : subs.length ≤ iotxMcSubRequestNumMax

/-- An operation on a well-formed list is no fault. -/
theorem access_of_ok {α : Type} {x : Except ObjectHeap.Fault α} {a : α} (h : x = .ok a) :
    access x = .ok a := by
  rw [h]
  rfl

/-! ## Pushing and taking back -/

section Push

variable {α : Type} {l : ListT (Option (Timed α))} (max : Nat) {len : Nat} {bufSend : Bytes}
  (info : Bytes → α) {env : RequestEnv}

/-- What a push and the send after it leave of a list that held `vs`. -/
structure Pushed (vs : List (Option (Timed α))) (l : ListT (Option (Timed α))) (max : Nat)
    (entry : Timed α) (rc : Int) (sent : Option SendResult) : Prop where
  success : rc = successReturn ↔ ∃ res, sent = some res ∧ res.rc = successReturn
  appended : rc = successReturn → vs.length < max ∧ l.Holds (vs ++ [some entry])
  kept : rc ≠ successReturn → l.Holds vs

/-- Either the push fails, or its node is the last of the list. -/
theorem pushInfo_cases {vs : List (Option (Timed α))} (hmax : max < 2 ^ 32 - 1)
    (hholds : l.Holds vs) (hlen : len ≤ bufSend.length) :
    pushInfo l max bufSend len info env = .ok none ∨
      ∃ node l' ns, pushInfo l max bufSend len info env = .ok (some (node, l')) ∧
        vs.length < max ∧ ns.map Prod.snd = vs ∧
        Linked l' (ns ++ [(node, some ⟨info (bufSend.take len), env.now⟩)]) := by
  obtain ⟨ns, hns, rfl⟩ := hholds
  rw [pushInfo]
  split
  next => exact Or.inl rfl
  next hroom =>
    split
    next => exact Or.inl rfl
    next =>
      rw [loadN_front hlen, ok_bind]
      cases hnode : env.nodeMalloc with
      | false => exact Or.inl rfl
      | true =>
          rw [hns.len] at hroom
          have hlinked := listNodeNew_linked hns (some ⟨info (bufSend.take len), env.now⟩)
          obtain ⟨l', hpush, hlast⟩ := listRpush_linked hlinked ObjectHeap.Heap.alloc_self
            (fun hmem => Nat.lt_irrefl _ (hns.chain.lt_next _ hmem)) (by omega)
          refine Or.inr ⟨_, l', ns, bind_eq_ok.mpr ⟨l', access_of_ok hpush, rfl⟩, ?_, rfl, hlast⟩
          rw [List.length_map]
          exact Nat.lt_of_not_le hroom

/-- The three requests keep the entry exactly where the send succeeds.  The send has no defined
end where the network takes bytes from behind the buffer. -/
theorem sendPushed_pushed {vs : List (Option (Timed α))} (hmax : max < 2 ^ 32 - 1)
    (hholds : l.Holds vs) (hlen : len ≤ bufSend.length) :
    ∃ pushed, pushInfo l max bufSend len info env = .ok pushed ∧
      ((∃ rc l' sent, sendPushed l pushed bufSend len env.writes = .ok (rc, l', sent) ∧
          Pushed vs l' max ⟨info (bufSend.take len), env.now⟩ rc sent ∧
          ∀ res, sent = some res → iotxMcSendPacket bufSend len env.writes = .ok res) ∨
        (∃ e, sendPushed l pushed bufSend len env.writes = .error e) ∧
          ¬WritesInside bufSend.length len env.writes 0) := by
  rcases @pushInfo_cases α l max len bufSend info env vs hmax hholds hlen with
    hfail | ⟨node, l', ns, hpush, hroom, rfl, hlinked⟩
  · refine ⟨none, hfail, Or.inl ⟨_, l, none, rfl, ⟨?_, ?_, fun _ => hholds⟩, nofun⟩⟩
    · exact ⟨fun h => absurd h (by decide), nofun⟩
    · exact fun h => absurd h (by decide)
  · refine ⟨_, hpush, ?_⟩
    rw [sendPushed]
    cases hsent : iotxMcSendPacket bufSend len env.writes with
    | error e =>
        refine Or.inr ⟨⟨e, rfl⟩, fun hinside => ?_⟩
        obtain ⟨res, hres⟩ := iotxMcSendPacket_inside.mpr hinside
        rw [hsent] at hres
        cases hres
    | ok res =>
        refine Or.inl ?_
        by_cases hrc : res.rc = successReturn
        · refine ⟨successReturn, l', some res, ?_, ⟨?_, fun _ => ⟨hroom, _, hlinked, ?_⟩, ?_⟩,
            fun _ h => by rw [Option.some.inj h]⟩
          · rw [ok_bind, if_neg (not_not.mpr hrc)]
          · exact ⟨fun _ => ⟨res, rfl, hrc⟩, fun _ => rfl⟩
          · rw [List.map_append]
            rfl
          · exact fun h => absurd rfl h
        · obtain ⟨l₂, hremove, hlinked₂, -, -⟩ := listRemove_linked hlinked
          rw [List.append_nil] at hlinked₂
          refine ⟨mqttNetworkError, l₂, some res, ?_, ⟨?_, ?_, fun _ => ⟨ns, hlinked₂, rfl⟩⟩,
            fun _ h => by rw [Option.some.inj h]⟩
          · rw [ok_bind, if_pos hrc]
            exact bind_eq_ok.mpr ⟨l₂, access_of_ok hremove, rfl⟩
          · refine ⟨fun h => absurd h mqttNetworkError_ne_success, ?_⟩
            rintro ⟨_, h, hsuccess⟩
            cases h
            exact absurd hsuccess hrc
          · exact fun h => absurd h mqttNetworkError_ne_success

end Push

/-! ## Specification -/

/-- A request that the client makes.  A publish has QoS 1. -/
inductive Request where
  | publish (topicName : Option Bytes) (msg : Message) (qos : msg.qos = 1)
  | subscribe (topicFilter : Option Bytes) (qos msgId : Nat) (messageHandler : EventHandle)
  | unsubscribe (topicFilter : Option Bytes) (msgId : Nat)

namespace Request

/-- The function of the source. -/
def send (c : Client) (env : RequestEnv) : Request → Checked Result
  | publish topicName msg _ => mqttPublish c topicName msg env
  | subscribe topicFilter qos msgId messageHandler =>
      mqttSubscribe c topicFilter qos msgId messageHandler env
  | unsubscribe topicFilter msgId => mqttUnsubscribe c topicFilter msgId env

/-- How the packet is serialized, and its remaining length.  Without a topic or a handler
there is none. -/
def serializer : Request → Option ((Bytes → Checked (Int × Bytes)) × Nat)
  | publish (some topicName) msg _ =>
      some (fun buf =>
          mqttSerializePublish buf 0 msg.qos msg.retain msg.packetId topicName msg.payload,
        mqttSerializePublishLength msg.qos topicName msg.payload.length)
  | subscribe (some topicFilter) qos msgId ⟨some _, _⟩ =>
      some (fun buf => mqttSerializeSubscribe buf (msgId % 65536) topicFilter qos,
        2 + (2 + topicFilter.length + 1))
  | unsubscribe (some topicFilter) msgId =>
      some (fun buf => mqttSerializeUnsubscribe buf (msgId % 65536) topicFilter,
        2 + (2 + topicFilter.length + 0))
  | _ => none

/-- The two lists with the entry of the request at the end of its own. -/
def recorded (packet : Bytes) (now : UInt32) (pubs : List (Option (Timed PubInfo)))
    (subs : List (Option (Timed SubInfo))) :
    Request → List (Option (Timed PubInfo)) × List (Option (Timed SubInfo))
  | publish _ msg _ => (pubs ++ [some ⟨⟨.normal, msg.packetId % 65536, packet⟩, now⟩], subs)
  | subscribe topicFilter _ msgId messageHandler =>
      (pubs, subs ++
        [some ⟨⟨.subscribe, msgId % 65536, .normal, ⟨topicFilter, messageHandler⟩, packet⟩, now⟩])
  | unsubscribe topicFilter msgId =>
      (pubs, subs ++
        [some ⟨⟨.unsubscribe, msgId % 65536, .normal, ⟨topicFilter, ⟨none, 0⟩⟩, packet⟩, now⟩])

end Request

/-- A request is recorded exactly where its packet was sent. -/
structure Atomic (c : Client) (pubs : List (Option (Timed PubInfo)))
    (subs : List (Option (Timed SubInfo))) (req : Request) (env : RequestEnv) (r : Result) :
    Prop where
  success : r.rc = successReturn ↔ ∃ res, r.sent = some res ∧ res.rc = successReturn
  called : ∀ res, r.sent = some res → ∃ serialize remLen packet,
    req.serializer = some (serialize, remLen) ∧
      serialize c.bufSend = .ok ((packet.length : Nat), r.client.bufSend) ∧
      r.client.bufSend.take packet.length = packet ∧
      iotxMcSendPacket r.client.bufSend packet.length env.writes = .ok res
  appended : r.rc = successReturn → ∃ serialize remLen packet,
    req.serializer = some (serialize, remLen) ∧
      serialize c.bufSend = .ok ((packet.length : Nat), r.client.bufSend) ∧
      r.client.bufSend.take packet.length = packet ∧
      Lists r.client (req.recorded packet env.now pubs subs).1
        (req.recorded packet env.now pubs subs).2
  kept : r.rc ≠ successReturn → Lists r.client pubs subs

/-- The call has no defined end: the packet has more bytes than a remaining length can count
and does not fit where `MQTTPacket_len` lets it through, or the network takes bytes from behind
the send buffer. -/
def Outside (c : Client) (req : Request) (env : RequestEnv) : Prop :=
  ∃ serialize remLen, req.serializer = some (serialize, remLen) ∧
    ((128 ^ 4 ≤ remLen ∧ ∀ res, serialize c.bufSend ≠ .ok res) ∨
      ∃ len bufSend, serialize c.bufSend = .ok (len, bufSend) ∧
        ¬WritesInside bufSend.length len.toNat env.writes 0)

theorem serializeRequest_ok {buf topicFilter options : Bytes} {type packetid : Nat}
    (hsmall : 2 + (2 + topicFilter.length + options.length) < 128 ^ 4) :
    ∃ res, serializeRequest buf type packetid topicFilter options = .ok res := by
  refine stored_ok ?_ hsmall
  simp only [List.length_cons, List.length_append, be16_length]
  omega

theorem mqttSerializePublish_ok {buf topicName payload : Bytes} {dup qos retained packetid : Nat}
    (hsmall : mqttSerializePublishLength qos topicName payload.length < 128 ^ 4) :
    ∃ res, mqttSerializePublish buf dup qos retained packetid topicName payload = .ok res := by
  refine stored_ok ?_ hsmall
  rw [List.length_append, publishHead_length]

/-! ## The requests -/

section Requests

variable {c : Client} {pubs : List (Option (Timed PubInfo))} {subs : List (Option (Timed SubInfo))}
  {env : RequestEnv} {r : Result}

/-- A call that ends before it pushes anything. -/
theorem Atomic.refused {req : Request} (hrc : r.rc ≠ successReturn) (hsent : r.sent = none)
    (hlists : Lists r.client pubs subs) : Atomic c pubs subs req env r where
  success := by
    rw [hsent]
    exact ⟨fun h => absurd h hrc, nofun⟩
  called := by
    rw [hsent]
    nofun
  appended := fun h => absurd h hrc
  kept := fun _ => hlists

/-- A call that serialized its packet and came to the end of its push. -/
theorem Atomic.pushed {req : Request} {serialize : Bytes → Checked (Int × Bytes)} {remLen : Nat}
    {len : Int} (hreq : req.serializer = some (serialize, remLen))
    (hser : serialize c.bufSend = .ok (len, r.client.bufSend))
    (hlen : len = len.toNat) (hin : len.toNat ≤ r.client.bufSend.length)
    (hsuccess : r.rc = successReturn ↔ ∃ res, r.sent = some res ∧ res.rc = successReturn)
    (hsent : ∀ res, r.sent = some res →
      iotxMcSendPacket r.client.bufSend len.toNat env.writes = .ok res)
    (happended : r.rc = successReturn →
      Lists r.client (req.recorded (r.client.bufSend.take len.toNat) env.now pubs subs).1
        (req.recorded (r.client.bufSend.take len.toNat) env.now pubs subs).2)
    (hkept : r.rc ≠ successReturn → Lists r.client pubs subs) :
    Atomic c pubs subs req env r := by
  have hpacket : (r.client.bufSend.take len.toNat).length = len.toNat := by
    rw [List.length_take, Nat.min_eq_left hin]
  have hser' : serialize c.bufSend =
      .ok (((r.client.bufSend.take len.toNat).length : Nat), r.client.bufSend) := by
    rw [hpacket, ← hlen]
    exact hser
  refine ⟨hsuccess, fun res hres => ⟨_, _, _, hreq, hser', ?_, ?_⟩,
    fun hrc => ⟨_, _, _, hreq, hser', ?_, happended hrc⟩, hkept⟩
  · rw [hpacket]
  · rw [hpacket]
    exact hsent res hres
  · rw [hpacket]

/-- `MQTTPublish` with QoS 1. -/
theorem mqttPublish_atomic {topicName : Option Bytes} {msg : Message} (hqos : msg.qos = 1)
    (h : Lists c pubs subs) :
    (∃ r, mqttPublish c topicName msg env = .ok r ∧
        Atomic c pubs subs (.publish topicName msg hqos) env r) ∨
      (∃ e, mqttPublish c topicName msg env = .error e) ∧
        Outside c (.publish topicName msg hqos) env := by
  cases topicName with
  | none => exact Or.inl ⟨_, rfl, .refused failReturn_ne_success rfl h⟩
  | some topic =>
      cases hser : mqttSerializePublish c.bufSend 0 msg.qos msg.retain msg.packetId topic
          msg.payload with
      | error e =>
          refine Or.inr ⟨⟨e, by rw [mqttPublish, hser]; rfl⟩, _, _, rfl,
            Or.inl ⟨?_, fun res hres => ?_⟩⟩
          · by_contra hsmall
            obtain ⟨res, hres⟩ := @mqttSerializePublish_ok c.bufSend topic msg.payload 0 msg.qos
              msg.retain msg.packetId (Nat.lt_of_not_le hsmall)
            rw [hser] at hres
            cases hres
          · rw [hser] at hres
            cases hres
      | ok res =>
          obtain ⟨len, bufSend⟩ := res
          have hclient : Lists { c with bufSend } pubs subs := ⟨h.pub, h.sub, h.pub_le, h.sub_le⟩
          rw [mqttPublish]
          dsimp only
          rw [hser, ok_bind]
          dsimp only
          split
          next =>
            exact Or.inl
              ⟨_, rfl, .refused (show mqttPublishPacketError ≠ _ by decide) rfl hclient⟩
          next hpos =>
            obtain ⟨hlen, hin, -⟩ := stored_packet hser (Int.not_le.mp hpos)
            rw [← Int.toNat_natCast (List.length _), ← hlen] at hin
            obtain ⟨pushed, hpush, hend⟩ := @sendPushed_pushed _ _ iotxMcRepubNumMax _ _
              (fun buf => (⟨.normal, msg.packetId % 65536, buf⟩ : PubInfo)) env _ (by decide)
              h.pub hin
            rw [if_pos (by omega), iotxMcPushPubInfoTo, if_neg (Nat.not_lt.mpr hin)]
            rcases hend with ⟨rc, listPubWaitAck, sent, hsend, hpushed, hsent⟩ | ⟨⟨e, he⟩, hout⟩
            · refine Or.inl ⟨⟨rc, { c with bufSend, listPubWaitAck }, sent⟩,
                bind_eq_ok.mpr ⟨pushed, hpush, bind_eq_ok.mpr ⟨_, hsend, rfl⟩⟩, ?_⟩
              refine .pushed rfl hser (by omega) hin hpushed.success hsent (fun hrc => ?_)
                fun hrc => ⟨hpushed.kept hrc, h.sub, h.pub_le, h.sub_le⟩
              obtain ⟨hroom, hheld⟩ := hpushed.appended hrc
              refine ⟨hheld, h.sub, ?_, h.sub_le⟩
              rw [Request.recorded, List.length_append]
              exact hroom
            · exact Or.inr ⟨⟨e, bind_eq_error.mpr (Or.inr ⟨pushed, hpush,
                bind_eq_error.mpr (Or.inl he)⟩)⟩, _, _, rfl, Or.inr ⟨len, bufSend, hser, hout⟩⟩

/-- What `MQTTSubscribe` and `MQTTUnsubscribe` share. -/
theorem sendRequest_atomic {req : Request} {serialize : Bytes → Checked (Int × Bytes)}
    {remLen : Nat} {len packetError : Int} {bufSend packet : Bytes} {msgId : Nat}
    {type : RequestType} {handler : TopicHandle}
    (hreq : req.serializer = some (serialize, remLen))
    (hser : serialize c.bufSend = .ok (len, bufSend))
    (hstored : 0 < len → len = packet.length ∧ packet.length ≤ bufSend.length)
    (herror : packetError ≠ successReturn)
    (hrecorded : ∀ buf, req.recorded buf env.now pubs subs =
      (pubs, subs ++ [some ⟨⟨type, msgId % 65536, .normal, handler, buf⟩, env.now⟩]))
    (h : Lists c pubs subs) :
    (∃ r, sendRequest { c with bufSend } packetError len msgId type handler env = .ok r ∧
        Atomic c pubs subs req env r) ∨
      (∃ e, sendRequest { c with bufSend } packetError len msgId type handler env = .error e) ∧
        Outside c req env := by
  rw [sendRequest]
  split
  next => exact Or.inl ⟨_, rfl, .refused herror rfl ⟨h.pub, h.sub, h.pub_le, h.sub_le⟩⟩
  next hpos =>
    obtain ⟨hlen, hin⟩ := hstored (Int.not_le.mp hpos)
    rw [← Int.toNat_natCast (List.length _), ← hlen] at hin
    obtain ⟨pushed, hpush, hend⟩ := @sendPushed_pushed _ _ iotxMcSubRequestNumMax _ _
      (fun buf => (⟨type, msgId % 65536, .normal, handler, buf⟩ : SubInfo)) env _ (by decide)
      h.sub hin
    rcases hend with ⟨rc, listSubWaitAck, sent, hsend, hpushed, hsent⟩ | ⟨⟨e, he⟩, hout⟩
    · refine Or.inl ⟨⟨rc, { c with bufSend, listSubWaitAck }, sent⟩,
        bind_eq_ok.mpr ⟨pushed, hpush, bind_eq_ok.mpr ⟨_, hsend, rfl⟩⟩, ?_⟩
      refine .pushed hreq hser (by omega) hin hpushed.success hsent (fun hrc => ?_)
        fun hrc => ⟨h.pub, hpushed.kept hrc, h.pub_le, h.sub_le⟩
      obtain ⟨hroom, hheld⟩ := hpushed.appended hrc
      rw [hrecorded]
      refine ⟨h.pub, hheld, h.pub_le, ?_⟩
      rw [List.length_append]
      exact hroom
    · exact Or.inr ⟨⟨e, bind_eq_error.mpr (Or.inr ⟨pushed, hpush, bind_eq_error.mpr (Or.inl he)⟩)⟩,
        _, _, hreq, Or.inr ⟨len, bufSend, hser, hout⟩⟩

theorem mqttSubscribe_atomic {topicFilter : Option Bytes} {qos msgId : Nat}
    {messageHandler : EventHandle} (h : Lists c pubs subs) :
    (∃ r, mqttSubscribe c topicFilter qos msgId messageHandler env = .ok r ∧
        Atomic c pubs subs (.subscribe topicFilter qos msgId messageHandler) env r) ∨
      (∃ e, mqttSubscribe c topicFilter qos msgId messageHandler env = .error e) ∧
        Outside c (.subscribe topicFilter qos msgId messageHandler) env := by
  obtain ⟨hFp, pcontext⟩ := messageHandler
  cases topicFilter with
  | none => exact Or.inl ⟨_, rfl, .refused failReturn_ne_success rfl h⟩
  | some filter =>
      cases hFp with
      | none => exact Or.inl ⟨_, rfl, .refused failReturn_ne_success rfl h⟩
      | some hFp =>
          cases hser : mqttSerializeSubscribe c.bufSend (msgId % 65536) filter qos with
          | error e =>
              refine Or.inr ⟨⟨e, by unfold mqttSubscribe; dsimp only; rw [hser]; rfl⟩, _, _, rfl,
                Or.inl ⟨?_, fun res hres => ?_⟩⟩
              · by_contra hsmall
                obtain ⟨res, hres⟩ := @serializeRequest_ok c.bufSend filter [UInt8.ofNat qos]
                  subscribe (msgId % 65536) (Nat.lt_of_not_le hsmall)
                exact absurd (hser.symm.trans hres) nofun
              · exact absurd (hser.symm.trans hres) nofun
          | ok res =>
              obtain ⟨len, bufSend⟩ := res
              unfold mqttSubscribe
              dsimp only
              rw [hser, ok_bind]
              exact sendRequest_atomic rfl hser
                (fun hpos => (stored_packet hser hpos).imp_right And.left) (by decide)
                (fun _ => rfl) h

theorem mqttUnsubscribe_atomic {topicFilter : Option Bytes} {msgId : Nat}
    (h : Lists c pubs subs) :
    (∃ r, mqttUnsubscribe c topicFilter msgId env = .ok r ∧
        Atomic c pubs subs (.unsubscribe topicFilter msgId) env r) ∨
      (∃ e, mqttUnsubscribe c topicFilter msgId env = .error e) ∧
        Outside c (.unsubscribe topicFilter msgId) env := by
  cases topicFilter with
  | none => exact Or.inl ⟨_, rfl, .refused failReturn_ne_success rfl h⟩
  | some filter =>
      cases hser : mqttSerializeUnsubscribe c.bufSend (msgId % 65536) filter with
      | error e =>
          refine Or.inr ⟨⟨e, by rw [mqttUnsubscribe, hser]; rfl⟩, _, _, rfl,
            Or.inl ⟨?_, fun res hres => ?_⟩⟩
          · by_contra hsmall
            obtain ⟨res, hres⟩ := @serializeRequest_ok c.bufSend filter [] unsubscribe
              (msgId % 65536) (Nat.lt_of_not_le hsmall)
            exact absurd (hser.symm.trans hres) nofun
          · exact absurd (hser.symm.trans hres) nofun
      | ok res =>
          obtain ⟨len, bufSend⟩ := res
          rw [mqttUnsubscribe]
          dsimp only
          rw [hser, ok_bind]
          exact sendRequest_atomic rfl hser
            (fun hpos => (stored_packet hser hpos).imp_right And.left) (by decide)
            (fun _ => rfl) h

/-- The three requests: the return code is success exactly where `iotx_mc_send_packet`
succeeded, and then the entry is the last of its list.  Otherwise the lists are as before. -/
theorem send_atomic (h : Lists c pubs subs) (req : Request) :
    (∃ r, req.send c env = .ok r ∧ Atomic c pubs subs req env r) ∨
      (∃ e, req.send c env = .error e) ∧ Outside c req env := by
  cases req with
  | publish topicName msg hqos => exact mqttPublish_atomic hqos h
  | subscribe topicFilter qos msgId messageHandler => exact mqttSubscribe_atomic h
  | unsubscribe topicFilter msgId => exact mqttUnsubscribe_atomic h

end Requests

/-- A connected client without requests. -/
def idleClient : Client where
  bufSend := List.replicate 16 0
  requestTimeoutMs := 2000
  clientState := .connected
  handleEvent := ⟨some 7, 0⟩
  listPubWaitAck := listNew
  listSubWaitAck := listNew
  timeout_le := by decide

theorem idleClient_lists : Lists idleClient [] [] :=
  ⟨holds_listNew, holds_listNew, Nat.zero_le _, Nat.zero_le _⟩

def firstSubscribe : Request := .subscribe (some [99]) 0 4 ⟨some 8, 0⟩
def secondSubscribe : Request := .subscribe (some [97, 47, 98]) 1 5 ⟨some 9, 0⟩

/-- A subscription behind another one, whose packet the network takes in two pieces. -/
theorem send_atomic_subscribe : ∃ c first r, Lists c [] [first] ∧
    secondSubscribe.send c ⟨⟨true, true, [0, 10]⟩, 0⟩ = .ok r ∧ r.rc = successReturn ∧
    Atomic c [] [first] secondSubscribe ⟨⟨true, true, [0, 10]⟩, 0⟩ r := by
  have hruns : (do
      let r ← firstSubscribe.send idleClient ⟨⟨true, true, [8]⟩, 0⟩
      let r' ← secondSubscribe.send r.client ⟨⟨true, true, [0, 10]⟩, 0⟩
      .ok (r.rc, r'.rc) : Checked (Int × Int)) = .ok (successReturn, successReturn) := by
    decide +kernel
  obtain ⟨r, hr, hruns⟩ := bind_eq_ok.mp hruns
  obtain ⟨r', hr', hruns⟩ := bind_eq_ok.mp hruns
  obtain ⟨hrc, hrc'⟩ := Prod.ext_iff.mp (Except.ok.inj hruns)
  obtain ⟨r₁, hr₁, hatomic⟩ | ⟨⟨e, he⟩, -⟩ :=
    @send_atomic _ _ _ ⟨⟨true, true, [8]⟩, 0⟩ idleClient_lists firstSubscribe
  · cases hr₁.symm.trans hr
    obtain ⟨_, _, packet, -, -, -, hlists⟩ := hatomic.appended hrc
    obtain ⟨r₂, hr₂, hatomic'⟩ | ⟨⟨e, he⟩, -⟩ :=
      @send_atomic _ _ _ ⟨⟨true, true, [0, 10]⟩, 0⟩ hlists secondSubscribe
    · cases hr₂.symm.trans hr'
      exact ⟨_, _, _, hlists, hr₂, hrc', hatomic'⟩
    · cases he.symm.trans hr'
  · cases he.symm.trans hr

end IotKit.Mqtt.Pending
