import IotKit.Mqtt.Receive
import IotKit.Mqtt.Subscribe

/-!
# Acknowledgements

The handlers of PUBACK, SUBACK and UNSUBACK, and the two sweeps of `IOT_MQTT_Yield`.
An acknowledgement is matched by its packet id alone: `iotx_mc_mask_subInfo_from`
looks neither at the kind of a pending request nor at its state.

A deserializer that finds a packet shorter than its packet id returns the number of
length bytes, which is the 1 of success where there is one.  The id is then what the
variable held.  The indeterminate values, of that variable and of the handler that
`iotx_mc_handle_recv_UNSUBACK` does not initialise, are arguments of the model.
-/

namespace IotKit.Mqtt

open CMemory

/-! ## The packets -/

/-- `MQTTDeserialize_ack`: the result, `*packettype`, `*dup` and `*packetid`. -/
def mqttDeserializeAck (buf : Bytes) (packetid : Nat) : Checked (Nat × Nat × Nat × Nat) := do
  let header ← load buf 0
  let (rc, mylen) ← mqttPacketDecodeBuf buf 1
  if mylen < 2 then .ok (rc, headerType header, headerDup header, packetid)
  else do
    let packetid ← readInt buf (1 + rc)
    .ok (1, headerType header, headerDup header, packetid)

/-- `MQTTDeserialize_unsuback`: the result and `*packetid`. -/
def mqttDeserializeUnsuback (buf : Bytes) (packetid : Nat) : Checked (Nat × Nat) := do
  let (rc, type, _, packetid) ← mqttDeserializeAck buf packetid
  .ok (if type = unsuback then 1 else rc, packetid)

/-- `readChar`: a `char` is signed. -/
def readChar (b : UInt8) : Int := if b.toNat < 128 then b.toNat else (b.toNat : Int) - 256

/-- The loop of `MQTTDeserialize_suback` over the `left` return codes from `curdata` on: its
result, `*count` and the array `grantedQoSs`.  The test against `maxcount` lets one code
more into the array than it has room for. -/
def grantedLoop (buf : Bytes) (maxcount : Nat) :
    Nat → Nat → Nat → List Int → Checked (Int × Nat × List Int)
  | 0, _, count, grantedQoSs => .ok (1, count, grantedQoSs)
  | left + 1, curdata, count, grantedQoSs =>
      if maxcount < count then .ok (-1, count, grantedQoSs)
      else do
        let b ← load buf (curdata : Int)
        if count < grantedQoSs.length then
          grantedLoop buf maxcount left (curdata + 1) (count + 1)
            (grantedQoSs.set count (readChar b))
        else .error .store

/-- `MQTTDeserialize_suback`: the result, `*packetid`, `*count` and `grantedQoSs`. -/
def mqttDeserializeSuback (buf : Bytes) (packetid maxcount count : Nat)
    (grantedQoSs : List Int) : Checked (Int × Nat × Nat × List Int) := do
  let header ← load buf 0
  if headerType header ≠ suback then .ok (0, packetid, count, grantedQoSs)
  else do
    let (rc, mylen) ← mqttPacketDecodeBuf buf 1
    if mylen < 2 then .ok (rc, packetid, count, grantedQoSs)
    else do
      let packetid ← readInt buf (1 + rc)
      let (rc, count, grantedQoSs) ←
        grantedLoop buf maxcount (mylen - 2) (1 + rc + 2) 0 grantedQoSs
      .ok (rc, packetid, count, grantedQoSs)

/-! ## The pending lists -/

/-- `iotx_mc_mask_pubInfo_from`.  Without memory for the iterator nothing is marked. -/
def iotxMcMaskPubInfoFrom (c : SubClient) (iterator : Bool) (msgId : Nat) : SubClient :=
  if iterator = false then c
  else
    { c with listPubWaitAck := c.listPubWaitAck.map fun info =>
        if info.msgId = msgId then { info with nodeState := .invalid } else info }

/-- The loop of `iotx_mc_mask_subInfo_from`, from the newest request to the oldest:
`*messageHandler` and the list. -/
def maskLoop (msgId : Nat) (messageHandler : TopicHandle) (infos : List SubInfo) :
    TopicHandle × List SubInfo :=
  infos.foldr (fun info (messageHandler, infos) =>
    if info.msgId = msgId then (info.handler, { info with nodeState := .invalid } :: infos)
    else (messageHandler, info :: infos)) (messageHandler, [])

/-- `iotx_mc_mask_subInfo_from`: `*messageHandler` and the client. -/
def iotxMcMaskSubInfoFrom (c : SubClient) (iterator : Bool) (msgId : Nat)
    (messageHandler : TopicHandle) : TopicHandle × SubClient :=
  if iterator = false then (messageHandler, c)
  else
    let (messageHandler, listSubWaitAck) := maskLoop msgId messageHandler c.listSubWaitAck
    (messageHandler, { c with listSubWaitAck })

/-! ## Events -/

/-- `iotx_mqtt_event_type_t` of the requests. -/
inductive EventType where
  | subcribeSuccess
  | subcribeTimeout
  | subcribeNack
  | unsubcribeSuccess
  | unsubcribeTimeout
  | publishSuccess
deriving DecidableEq, Repr

/-- A call of `handle_event` about the request with a packet id. -/
structure EventMsg where
  hFp : Nat
  pcontext : Nat
  eventType : EventType
  packetId : Nat
deriving DecidableEq, Repr

/-- The call, if the handle is not NULL. -/
def EventHandle.notify (h : EventHandle) (eventType : EventType) (packetId : Nat) :
    List EventMsg :=
  match h.hFp with
  | some hFp => [⟨hFp, h.pcontext, eventType, packetId⟩]
  | none => []

structure AckResult where
  rc : Int
  client : SubClient
  events : List EventMsg

/-- The environment of an acknowledgement: whether there is memory for the iterator, and
the indeterminate values. -/
structure AckEnv where
  iterator : Bool
  packetid : Nat
  messageHandler : TopicHandle

/-! ## The handlers -/

/-- `iotx_mc_handle_recv_PUBACK`. -/
def iotxMcHandleRecvPuback (c : SubClient) (env : AckEnv) : Checked AckResult := do
  let (rc, _, _, mypacketid) ← mqttDeserializeAck c.bufRead env.packetid
  if rc ≠ 1 then .ok ⟨mqttPublishAckPacketError, c, []⟩
  else
    let c := iotxMcMaskPubInfoFrom c env.iterator mypacketid
    .ok ⟨successReturn, c, c.handleEvent.notify .publishSuccess mypacketid⟩

/-- `iotx_mc_check_handle_is_identical`, true where it returns 0.  A filter that is not a
string stops `strlen`. -/
def iotxMcCheckHandleIsIdentical (messageHandlers1 messageHandler2 : TopicHandle) :
    Checked Bool :=
  match messageHandlers1.topicFilter, messageHandler2.topicFilter with
  | some filter1, some filter2 =>
      .ok (filter1 = filter2 ∧ messageHandlers1.handle.hFp = messageHandler2.handle.hFp ∧
        messageHandlers1.handle.pcontext = messageHandler2.handle.pcontext)
  | _, _ => .error .load

/-- The loop of `iotx_mc_handle_recv_SUBACK` from entry `i` on: `flag_dup` and `i_free`. -/
def searchLoop (messagehandler : TopicHandle) :
    List TopicHandle → Nat → Option Nat → Checked (Bool × Option Nat)
  | [], _, iFree => .ok (false, iFree)
  | h :: handles, i, iFree =>
      if h.topicFilter = none then
        searchLoop messagehandler handles (i + 1) (if iFree = none then some i else iFree)
      else do
        let identical ← iotxMcCheckHandleIsIdentical h messagehandler
        if identical then .ok (true, iFree)
        else searchLoop messagehandler handles (i + 1) iFree

/-- The end of `iotx_mc_handle_recv_SUBACK` for a request that was found. -/
def register (c : SubClient) (messagehandler : TopicHandle) (mypacketid : Nat) :
    Checked AckResult := do
  let (flagDup, iFree) ← searchLoop messagehandler c.subHandle.toList 0 none
  let events := c.handleEvent.notify .subcribeSuccess mypacketid
  if flagDup then .ok ⟨successReturn, c, events⟩
  else
    match iFree with
    | none => .ok ⟨failReturn, c, []⟩
    | some i =>
        if h : i < iotxMcSubNumMax then
          .ok ⟨successReturn, { c with subHandle := c.subHandle.set i messagehandler h }, events⟩
        else .error .index

/-- The handler after `memset`. -/
def TopicHandle.zero : TopicHandle := ⟨none, ⟨none, 0⟩⟩

/-- `iotx_mc_handle_recv_SUBACK`. -/
def iotxMcHandleRecvSuback (c : SubClient) (env : AckEnv) : Checked AckResult := do
  let (rc, mypacketid, _, grantedQoSs) ← mqttDeserializeSuback c.bufRead env.packetid 1 0 [-1]
  if rc ≠ 1 then .ok ⟨mqttSubscribeAckPacketError, c, []⟩
  else
    let (messagehandler, c) := iotxMcMaskSubInfoFrom c env.iterator mypacketid .zero
    if grantedQoSs.headD 0 % 256 = 128 then
      .ok ⟨mqttSubscribeAckFailure, c, c.handleEvent.notify .subcribeNack mypacketid⟩
    else if messagehandler.handle.hFp = none ∨ messagehandler.topicFilter = none then
      .ok ⟨mqttSubInfoNotFoundError, c, []⟩
    else register c messagehandler mypacketid

/-- The loop of `iotx_mc_handle_recv_UNSUBACK` over the entries of `sub_handle`. -/
def removeLoop (messageHandler : TopicHandle) : List TopicHandle → Checked (List TopicHandle)
  | [] => .ok []
  | h :: handles =>
      if h.topicFilter = none then do
        let handles ← removeLoop messageHandler handles
        .ok (h :: handles)
      else do
        let identical ← iotxMcCheckHandleIsIdentical h messageHandler
        let handles ← removeLoop messageHandler handles
        .ok ((if identical then .zero else h) :: handles)

theorem removeLoop_length {messageHandler : TopicHandle} {handles handles' : List TopicHandle}
    (h : removeLoop messageHandler handles = .ok handles') : handles'.length = handles.length := by
  induction handles generalizing handles' with
  | nil =>
      cases h
      rfl
  | cons handle handles ih =>
      rw [removeLoop] at h
      split at h
      · obtain ⟨rest, hrest, h⟩ := bind_eq_ok.mp h
        cases h
        simp [ih hrest]
      · obtain ⟨identical, _, h⟩ := bind_eq_ok.mp h
        obtain ⟨rest, hrest, h⟩ := bind_eq_ok.mp h
        cases h
        simp [ih hrest]

/-- The array `sub_handle` after its loop. -/
def removeHandles (c : SubClient) (messageHandler : TopicHandle) : Checked SubClient :=
  match h : removeLoop messageHandler c.subHandle.toList with
  | .error e => .error e
  | .ok handles =>
      .ok { c with subHandle := ⟨handles.toArray, by simpa using removeLoop_length h⟩ }

/-- `iotx_mc_handle_recv_UNSUBACK`. -/
def iotxMcHandleRecvUnsuback (c : SubClient) (env : AckEnv) : Checked AckResult := do
  let (rc, mypacketid) ← mqttDeserializeUnsuback c.bufRead 0
  if rc ≠ 1 then .ok ⟨mqttUnsubscribeAckPacketError, c, []⟩
  else do
    let (messageHandler, c) := iotxMcMaskSubInfoFrom c env.iterator mypacketid env.messageHandler
    let c ← removeHandles c messageHandler
    .ok ⟨successReturn, c, c.handleEvent.notify .unsubcribeSuccess mypacketid⟩

/-! ## The sweeps -/

/-- The loop of `MQTTSubInfoProc`, from the newest request to the oldest: the requests that
stay and the events.  `expired` says of each request, the oldest first, whether its time is
over. -/
def sweepSub (c : SubClient) : List SubInfo → List Bool → List SubInfo × List EventMsg
  | [], _ => ([], [])
  | info :: infos, expired =>
      let (kept, events) := sweepSub c infos expired.tail
      if info.nodeState = .invalid then (kept, events)
      else if c.clientState ≠ .connected then (info :: kept, events)
      else if expired.headD false = false then (info :: kept, events)
      else
        let eventType :=
          if info.type = .subscribe then .subcribeTimeout else .unsubcribeTimeout
        (kept, events ++ c.handleEvent.notify eventType info.msgId)

/-- `MQTTSubInfoProc`. -/
def mqttSubInfoProc (c : SubClient) (iterator : Bool) (expired : List Bool) :
    SubClient × List EventMsg :=
  if iterator = false then (c, [])
  else
    let (listSubWaitAck, events) := sweepSub c c.listSubWaitAck expired
    ({ c with listSubWaitAck }, events)

/-- The loop of `MQTTPubInfoProc`, from the newest publish to the oldest: those that stay,
and whether the network failed, which ends the loop.  `writes` has for each publish, the
oldest first, the results of `ipstack->write` if its time is over. -/
def sweepPub (clientState : McState) :
    List PubInfo → List (Option (List Int)) → Checked (List PubInfo × Bool)
  | [], _ => .ok ([], false)
  | info :: infos, writes => do
      let (kept, failed) ← sweepPub clientState infos writes.tail
      if failed then .ok (info :: kept, true)
      else if info.nodeState = .invalid then .ok (kept, false)
      else if clientState ≠ .connected then .ok (info :: kept, false)
      else
        match writes.headD none with
        | none => .ok (info :: kept, false)
        | some writes => do
            let sent ← iotxMcSendPacket info.buf info.buf.length writes
            .ok (info :: kept, sent.rc ≠ successReturn)

/-- `MQTTPubInfoProc`. -/
def mqttPubInfoProc (c : SubClient) (iterator : Bool) (writes : List (Option (List Int))) :
    Checked SubClient :=
  if iterator = false then .ok c
  else do
    let (listPubWaitAck, failed) ← sweepPub c.clientState c.listPubWaitAck writes
    let clientState := if failed then .disconnected else c.clientState
    .ok { c with listPubWaitAck, clientState }

end IotKit.Mqtt
