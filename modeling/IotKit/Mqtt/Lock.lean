import IotKit.Lib.MutexTrace
import IotKit.Mqtt.Client

/-!
# The mutexes of the client

Where `iotx_mqtt_client.c` takes and gives back its four mutexes, and where it calls the
application.  Everything a function reads may have been written by another thread since it
last looked, so what it finds is an input: the client state, the lists, the clock, the
network, the packets and the outcomes of allocations.

A callback is the calls that the application makes in it.  `delay` lets the system loop
run, which may yield to this client again, and is recorded like a callback.  Checks of
arguments that every caller has made are left out.
-/

namespace IotKit.Mqtt.Lock

open MutexTrace

/-- `lock_generic`, `lock_list_pub`, `lock_list_sub` and `lock_write_buf`. -/
inductive Mutex where
  | generic
  | listPub
  | listSub
  | writeBuf
deriving DecidableEq, Repr

abbrev Action := Locking Mutex

/-- `delay`. -/
def delay : Action Unit := callback (pure ())

/-! ## The client state and the packet id -/

/-- `iotx_mc_get_client_state`. -/
def iotxMcGetClientState (seen : McState) : Action McState := do
  lock .generic
  unlock .generic
  return seen

/-- `iotx_mc_set_client_state`. -/
def iotxMcSetClientState (_newState : McState) : Action Unit := do
  lock .generic
  unlock .generic

/-- `iotx_mc_check_state_normal`. -/
def iotxMcCheckStateNormal (seen : McState) : Action Bool := do
  let state ← iotxMcGetClientState seen
  return decide (state = .connected)

/-- `iotx_mc_get_next_packetid`. -/
def iotxMcGetNextPacketid : Action Unit := do
  lock .generic
  unlock .generic

/-! ## The lists -/

/-- How an entry is put on a list: the list is full, there is no memory for the entry or
none for its node, or it is pushed. -/
inductive Push where
  | full
  | noInfo
  | noNode
  | pushed
deriving DecidableEq

/-- What both push functions do, each with the mutex of its list. -/
def pushInfoTo (list : Mutex) : Push → Action Int
  | .full => do
      lock list
      unlock list
      return failReturn
  | .noInfo => do
      lock list
      unlock list
      return failReturn
  | .noNode => do
      lock list
      unlock list
      return failReturn
  | .pushed => do
      lock list
      unlock list
      return successReturn

/-- `iotx_mc_push_pubInfo_to`.  The length is in range where the packet was serialized. -/
def iotxMcPushPubInfoTo (o : Push) : Action Int := pushInfoTo .listPub o

/-- `iotx_mc_push_subInfo_to`. -/
def iotxMcPushSubInfoTo (o : Push) : Action Int := pushInfoTo .listSub o

/-- What both mask functions do: a list without entries needs no iterator. -/
def maskInfoFrom (list : Mutex) (empty iterator : Bool) : Action Int := do
  lock list
  if empty = false ∧ iterator = false then
    unlock list
    return successReturn
  unlock list
  return successReturn

/-- `iotx_mc_mask_pubInfo_from`. -/
def iotxMcMaskPubInfoFrom (empty iterator : Bool) : Action Int :=
  maskInfoFrom .listPub empty iterator

/-- `iotx_mc_mask_subInfo_from`. -/
def iotxMcMaskSubInfoFrom (empty iterator : Bool) : Action Int :=
  maskInfoFrom .listSub empty iterator

/-! ## Sending packets -/

/-- Whether the length of the packet is positive, and whether `iotx_mc_send_packet`
succeeds. -/
structure Sending where
  serialized : Bool
  sent : Bool

/-- A packet that waits for its acknowledgement. -/
structure Request extends Sending where
  push : Push

/-- What `MQTTKeepalive` and `MQTTConnect` do, each with the error of its packet. -/
def sendPacket (packetError : Int) (o : Sending) : Action Int := do
  lock .writeBuf
  if o.serialized = false then
    unlock .writeBuf
    return packetError
  if o.sent = false then
    unlock .writeBuf
    return mqttNetworkError
  unlock .writeBuf
  return successReturn

/-- `MQTTKeepalive`. -/
def mqttKeepalive (o : Sending) : Action Int := sendPacket mqttPingPacketError o

/-- `MQTTConnect`. -/
def mqttConnect (o : Sending) : Action Int := sendPacket mqttConnectPacketError o

/-- `MQTTPublish`. -/
def mqttPublish (qos : Nat) (o : Request) : Action Int := do
  lock .writeBuf
  if o.serialized = false then
    unlock .writeBuf
    return mqttPublishPacketError
  if 0 < qos then
    let rc ← iotxMcPushPubInfoTo o.push
    if rc ≠ successReturn then
      unlock .writeBuf
      return mqttPushToListError
  if o.sent = false then
    if 0 < qos then
      lock .listPub
      unlock .listPub
    unlock .writeBuf
    return mqttNetworkError
  unlock .writeBuf
  return successReturn

/-- `MQTTPuback`, whose caller asks for a PUBACK or a PUBREC. -/
def mqttPuback (o : Sending) (type : Nat) : Action Int := do
  lock .writeBuf
  if type ≠ puback ∧ type ≠ pubrec ∧ type ≠ pubrel then
    unlock .writeBuf
    return mqttPublishAckTypeError
  if o.serialized = false then
    unlock .writeBuf
    return mqttPublishAckPacketError
  if o.sent = false then
    unlock .writeBuf
    return mqttNetworkError
  unlock .writeBuf
  return successReturn

/-- What `MQTTSubscribe` and `MQTTUnsubscribe` do, each with the error of its packet. -/
def sendRequest (packetError : Int) (o : Request) : Action Int := do
  lock .writeBuf
  if o.serialized = false then
    unlock .writeBuf
    return packetError
  let rc ← iotxMcPushSubInfoTo o.push
  if rc ≠ successReturn then
    unlock .writeBuf
    return mqttPushToListError
  if o.sent = false then
    lock .listSub
    unlock .listSub
    unlock .writeBuf
    return mqttNetworkError
  unlock .writeBuf
  return successReturn

/-- `MQTTSubscribe`. -/
def mqttSubscribe (o : Request) : Action Int := sendRequest mqttSubscribePacketError o

/-- `MQTTUnsubscribe`. -/
def mqttUnsubscribe (o : Request) : Action Int := sendRequest mqttUnsubscribePacketError o

/-- `MQTTDisconnect`. -/
def mqttDisconnect (o : Sending) : Action Int := do
  lock .writeBuf
  let rc := if o.serialized then (if o.sent then successReturn else mqttNetworkError)
    else failReturn
  unlock .writeBuf
  return rc

/-- `MQTTRePublish`. -/
def mqttRePublish (sent : Bool) : Action Int := do
  lock .writeBuf
  if sent = false then
    unlock .writeBuf
    return mqttNetworkError
  unlock .writeBuf
  return successReturn

/-! ## The calls of the application -/

structure SubscribeCall where
  sane : Bool
  seen : McState
  topicFormat : Bool
  request : Request

structure PublishCall where
  sane : Bool
  seen : McState
  topicFormat : Bool
  qos : Nat
  request : Request

/-- `iotx_mc_subscribe`.  The message about a wrong state asks for the state again. -/
def iotxMcSubscribe (i : SubscribeCall) : Action Unit := do
  let normal ← iotxMcCheckStateNormal i.seen
  if normal = false then
    let _ ← iotxMcGetClientState i.seen
    return
  if i.topicFormat = false then
    return
  iotxMcGetNextPacketid
  let rc ← mqttSubscribe i.request
  if rc = mqttNetworkError then
    iotxMcSetClientState .disconnected

/-- `iotx_mc_unsubscribe`. -/
def iotxMcUnsubscribe (i : SubscribeCall) : Action Unit := do
  iotxMcGetNextPacketid
  if i.topicFormat = false then
    return
  let normal ← iotxMcCheckStateNormal i.seen
  if normal = false then
    let _ ← iotxMcGetClientState i.seen
    return
  let rc ← mqttUnsubscribe i.request
  if rc = mqttNetworkError then
    iotxMcSetClientState .disconnected

/-- `iotx_mc_publish`. -/
def iotxMcPublish (i : PublishCall) : Action Unit := do
  if i.topicFormat = false then
    return
  let normal ← iotxMcCheckStateNormal i.seen
  if normal = false then
    let _ ← iotxMcGetClientState i.seen
    return
  if i.qos = 1 ∨ i.qos = 2 then
    iotxMcGetNextPacketid
  if i.qos = 2 then
    return
  let rc ← mqttPublish i.qos i.request
  if rc = mqttNetworkError then
    iotxMcSetClientState .disconnected

/-- `IOT_MQTT_Subscribe`. -/
def iotMqttSubscribe (i : SubscribeCall) : Action Unit :=
  if i.sane then iotxMcSubscribe i else pure ()

/-- `IOT_MQTT_Unsubscribe`. -/
def iotMqttUnsubscribe (i : SubscribeCall) : Action Unit :=
  if i.sane then iotxMcUnsubscribe i else pure ()

/-- `IOT_MQTT_Publish`. -/
def iotMqttPublish (i : PublishCall) : Action Unit :=
  if i.sane then iotxMcPublish i else pure ()

/-- `IOT_MQTT_CheckStateNormal`. -/
def iotMqttCheckStateNormal (sane : Bool) (seen : McState) : Action Unit := do
  if sane then
    let _ ← iotxMcCheckStateNormal seen

/-- A call that the application makes in a callback. -/
inductive ApiCall where
  | subscribe (i : SubscribeCall)
  | unsubscribe (i : SubscribeCall)
  | publish (i : PublishCall)
  | checkStateNormal (sane : Bool) (seen : McState)

def ApiCall.exec : ApiCall → Action Unit
  | subscribe i => iotMqttSubscribe i
  | unsubscribe i => iotMqttUnsubscribe i
  | publish i => iotMqttPublish i
  | checkStateNormal sane seen => iotMqttCheckStateNormal sane seen

/-- What the application does in a callback. -/
abbrev Body := List ApiCall

def Body.exec : Body → Action Unit
  | [] => pure ()
  | call :: calls => do
      call.exec
      Body.exec calls

/-- The call of `handle_event`, where one was given to `iotx_mc_init`. -/
def notify (handleEvent : Bool) (body : Body) : Action Unit :=
  if handleEvent then callback (Body.exec body) else pure ()

/-! ## Received packets -/

/-- What `iotx_mc_read_packet` finds on the wire.  A packet larger than the buffer is
dropped, and the application is told. -/
inductive Reading where
  | timeout
  | failed
  | badLength (tooLong : Bool)
  | dropped (body : Body)
  | packet (type : Nat)

/-- `iotx_mc_read_packet`: its result and `*packet_type`. -/
def iotxMcReadPacket (handleEvent : Bool) (packetType : Nat) : Reading → Action (Int × Nat)
  | .timeout => pure (successReturn, cptReserved)
  | .failed => pure (failReturn, packetType)
  | .badLength tooLong =>
      pure (if tooLong then mqttPacketReadError else mqttNetworkError, packetType)
  | .dropped body => do
      notify handleEvent body
      return (successReturn, packetType)
  | .packet type => pure (successReturn, type)

/-- A slot of `sub_handle`, as a received topic finds it. -/
inductive Slot where
  | unmatched
  | matched (hFp : Option Body)

/-- The loop of `iotx_mc_deliver_message`: `flag_matched`. -/
def deliverLoop : Bool → List Slot → Action Bool
  | flagMatched, [] => pure flagMatched
  | flagMatched, .unmatched :: slots => deliverLoop flagMatched slots
  | flagMatched, .matched none :: slots => do
      unlock .generic
      lock .generic
      deliverLoop flagMatched slots
  | _, .matched (some body) :: slots => do
      unlock .generic
      callback (Body.exec body)
      lock .generic
      deliverLoop true slots

/-- `iotx_mc_deliver_message`. -/
def iotxMcDeliverMessage (handleEvent : Bool) (slots : List Slot) (body : Body) :
    Action Unit := do
  lock .generic
  let flagMatched ← deliverLoop false slots
  unlock .generic
  if flagMatched = false then
    notify handleEvent body

structure PubackInput where
  parsed : Bool
  empty : Bool
  iterator : Bool
  body : Body

/-- `iotx_mc_handle_recv_PUBACK`. -/
def iotxMcHandleRecvPuback (handleEvent : Bool) (i : PubackInput) : Action Int := do
  if i.parsed = false then
    return mqttPublishAckPacketError
  let _ ← iotxMcMaskPubInfoFrom i.empty i.iterator
  notify handleEvent i.body
  return successReturn

structure SubackInput where
  parsed : Bool
  empty : Bool
  iterator : Bool
  refused : Bool
  /-- The request has a handler and a topic filter. -/
  found : Bool
  flagDup : Bool
  free : Bool
  body : Body

/-- `iotx_mc_handle_recv_SUBACK`. -/
def iotxMcHandleRecvSuback (handleEvent : Bool) (i : SubackInput) : Action Int := do
  if i.parsed = false then
    return mqttSubscribeAckPacketError
  let _ ← iotxMcMaskSubInfoFrom i.empty i.iterator
  if i.refused then
    notify handleEvent i.body
    return mqttSubscribeAckFailure
  if i.found = false then
    return mqttSubInfoNotFoundError
  lock .generic
  if i.flagDup = false ∧ i.free = false then
    unlock .generic
    return failReturn
  unlock .generic
  notify handleEvent i.body
  return successReturn

structure PublishInput where
  parsed : Bool
  slots : List Slot
  body : Body
  qos : Nat
  ack : Sending

/-- `iotx_mc_handle_recv_PUBLISH`. -/
def iotxMcHandleRecvPublish (handleEvent : Bool) (i : PublishInput) : Action Int := do
  if i.parsed = false then
    return mqttPublishPacketError
  iotxMcDeliverMessage handleEvent i.slots i.body
  if i.qos = 0 then
    return successReturn
  else if i.qos = 1 then
    mqttPuback i.ack puback
  else if i.qos = 2 then
    mqttPuback i.ack pubrec
  else
    return mqttPublishQosError

structure UnsubackInput where
  parsed : Bool
  empty : Bool
  iterator : Bool
  body : Body

/-- `iotx_mc_handle_recv_UNSUBACK`. -/
def iotxMcHandleRecvUnsuback (handleEvent : Bool) (i : UnsubackInput) : Action Int := do
  if i.parsed = false then
    return mqttUnsubscribeAckPacketError
  let _ ← iotxMcMaskSubInfoFrom i.empty i.iterator
  lock .generic
  notify handleEvent i.body
  unlock .generic
  return successReturn

/-- `iotx_mc_handle_recv_CONNACK`: the return code, or `none` for a packet that cannot be
read. -/
def iotxMcHandleRecvConnack : Option Nat → Action Int
  | none => pure mqttConnectAckPacketError
  | some 0 => pure successReturn
  | some 1 => pure mqttConanckUnacceptableProtocolVersionError
  | some 2 => pure mqttConnackIdentifierRejectedError
  | some 3 => pure mqttConnackServerUnavailableError
  | some 4 => pure mqttConnackBadUserdataError
  | some 5 => pure mqttConnackNotAuthorizedError
  | some _ => pure mqttConnackUnknownError

/-- The loop of `iotx_mc_wait_CONNACK`, with `left` packets still allowed. -/
def waitLoop (handleEvent : Bool) (connackRc : Option Nat) :
    Nat → Nat → (Nat → Reading) → Action Int
  | left, packetType, readings => do
      let (rc, packetType) ← iotxMcReadPacket handleEvent packetType (readings 0)
      if rc ≠ successReturn then
        return mqttNetworkError
      match left with
      | 0 => return mqttNetworkError
      | left + 1 =>
          if packetType = connack then
            iotxMcHandleRecvConnack connackRc
          else
            waitLoop handleEvent connackRc left packetType fun n => readings (n + 1)

/-- `iotx_mc_wait_CONNACK`. -/
def iotxMcWaitConnack (handleEvent : Bool) (readings : Nat → Reading)
    (connackRc : Option Nat) : Action Int :=
  waitLoop handleEvent connackRc waitConnackMax 0 readings

structure CycleInput where
  seen : McState
  probesExceeded : Bool
  indeterminate : Nat
  reading : Reading
  puback : PubackInput
  suback : SubackInput
  publish : PublishInput
  unsuback : UnsubackInput

/-- The `switch` of `iotx_mc_cycle`. -/
def dispatch (handleEvent : Bool) (i : CycleInput) (packetType : Nat) : Action Int :=
  if packetType = connack then pure successReturn
  else if packetType = puback then iotxMcHandleRecvPuback handleEvent i.puback
  else if packetType = suback then iotxMcHandleRecvSuback handleEvent i.suback
  else if packetType = publish then iotxMcHandleRecvPublish handleEvent i.publish
  else if packetType = unsuback then iotxMcHandleRecvUnsuback handleEvent i.unsuback
  else if packetType = pingresp then pure successReturn
  else pure failReturn

/-- `iotx_mc_cycle`. -/
def iotxMcCycle (handleEvent : Bool) (i : CycleInput) : Action Int := do
  let state ← iotxMcGetClientState i.seen
  if state ≠ .connected then
    return mqttStateError
  if i.probesExceeded then
    iotxMcSetClientState .disconnected
  let (rc, packetType) ← iotxMcReadPacket handleEvent i.indeterminate i.reading
  if rc ≠ successReturn then
    iotxMcSetClientState .disconnected
    return mqttNetworkError
  if packetType = cptReserved then
    return successReturn
  lock .generic
  unlock .generic
  dispatch handleEvent i packetType

/-! ## The sweeps -/

/-- An entry of `list_sub_wait_ack`.  `seen` and `expired` are what the sweep finds when it
comes to the entry. -/
inductive SubNode where
  | null
  | invalid
  | waiting (seen : McState) (expired : Bool) (body : Body)

/-- The loop of `MQTTSubInfoProc`. -/
def subInfoLoop (handleEvent : Bool) : List SubNode → Action Unit
  | [] => pure ()
  | .null :: nodes => subInfoLoop handleEvent nodes
  | .invalid :: nodes => subInfoLoop handleEvent nodes
  | .waiting seen expired body :: nodes => do
      let state ← iotxMcGetClientState seen
      if state ≠ .connected then
        subInfoLoop handleEvent nodes
      else if expired = false then
        subInfoLoop handleEvent nodes
      else
        notify handleEvent body
        subInfoLoop handleEvent nodes

structure SubSweep where
  iterator : Bool
  nodes : List SubNode

/-- `MQTTSubInfoProc`. -/
def mqttSubInfoProc (handleEvent : Bool) (i : SubSweep) : Action Unit := do
  lock .listSub
  if i.nodes.isEmpty = false ∧ i.iterator = false then
    unlock .listSub
    return
  subInfoLoop handleEvent i.nodes
  unlock .listSub

/-- An entry of `list_pub_wait_ack`. -/
inductive PubNode where
  | null
  | invalid
  | waiting (seen : McState) (expired sent : Bool)

/-- The loop of `MQTTPubInfoProc`. -/
def pubInfoLoop : List PubNode → Action Unit
  | [] => pure ()
  | .null :: nodes => pubInfoLoop nodes
  | .invalid :: nodes => pubInfoLoop nodes
  | .waiting seen expired sent :: nodes => do
      let state ← iotxMcGetClientState seen
      if state ≠ .connected then
        pubInfoLoop nodes
      else if expired = false then
        pubInfoLoop nodes
      else
        unlock .listPub
        let rc ← mqttRePublish sent
        lock .listPub
        if rc = mqttNetworkError then
          iotxMcSetClientState .disconnected
        else
          pubInfoLoop nodes

structure PubSweep where
  iterator : Bool
  nodes : List PubNode

/-- `MQTTPubInfoProc`. -/
def mqttPubInfoProc (i : PubSweep) : Action Unit := do
  lock .listPub
  if i.iterator then
    pubInfoLoop i.nodes
  unlock .listPub

/-! ## Connecting -/

/-- The outcome of `ipstack->connect`. -/
inductive NetConnect where
  | ok
  | certificateExpired
  | failed

structure ConnectInput where
  preAuth : Bool
  net : NetConnect
  connect : Sending
  readings : Nat → Reading
  connackRc : Option Nat
  disconnect : Sending
  postAuth : Bool

/-- `iotx_mc_connect`. -/
def iotxMcConnect (handleEvent : Bool) (i : ConnectInput) : Action Int := do
  if i.preAuth = false then
    return failReturn
  match i.net with
  | .certificateExpired => return errorCertVerifyFail
  | .failed => return mqttNetworkConnectError
  | .ok =>
      let rc ← mqttConnect i.connect
      if rc ≠ successReturn then
        return rc
      let rc ← iotxMcWaitConnack handleEvent i.readings i.connackRc
      if rc ≠ successReturn then
        let _ ← mqttDisconnect i.disconnect
        return mqttConnectError
      iotxMcSetClientState .connected
      if i.postAuth = false then
        return failReturn
      return successReturn

/-- `iotx_mc_attempt_reconnect`. -/
def iotxMcAttemptReconnect (handleEvent : Bool) (i : ConnectInput) : Action Int :=
  iotxMcConnect handleEvent i

def delays : Nat → Action Unit
  | 0 => pure ()
  | n + 1 => do
      delay
      delays n

/-- `iotx_mc_handle_reconnect`, which waits `waits` times. -/
def iotxMcHandleReconnect (handleEvent : Bool) (waits : Nat) (i : ConnectInput) :
    Action Int := do
  delays waits
  let rc ← iotxMcAttemptReconnect handleEvent i
  if rc = successReturn then
    iotxMcSetClientState .connected
    return successReturn
  return rc

/-- `iotx_mc_disconnect_callback`. -/
def iotxMcDisconnectCallback (handleEvent : Bool) (body : Body) : Action Unit :=
  notify handleEvent body

/-- `iotx_mc_reconnect_callback`. -/
def iotxMcReconnectCallback (handleEvent : Bool) (body : Body) : Action Unit :=
  notify handleEvent body

structure PingInput where
  seen : McState
  expired : Bool
  ping : Sending

/-- `iotx_mc_keepalive_sub`. -/
def iotxMcKeepaliveSub (i : PingInput) : Action Int := do
  let normal ← iotxMcCheckStateNormal i.seen
  if normal = false then
    return successReturn
  if i.expired = false then
    return successReturn
  let rc ← mqttKeepalive i.ping
  if rc ≠ successReturn then
    if rc = mqttNetworkError then
      iotxMcSetClientState .disconnected
    return rc
  lock .generic
  unlock .generic
  return successReturn

structure KeepaliveInput where
  ping : PingInput
  reconnectOpen : Bool
  currentState : McState
  waits : Nat
  connect : ConnectInput
  body : Body

/-- `iotx_mc_keepalive`. -/
def iotxMcKeepalive (handleEvent : Bool) (i : KeepaliveInput) : Action Unit := do
  let _ ← iotxMcKeepaliveSub i.ping
  if i.reconnectOpen = false then
    return
  let currentState ← iotxMcGetClientState i.currentState
  if currentState = .disconnectedReconnecting then
    lock .generic
    unlock .generic
    let rc ← iotxMcHandleReconnect handleEvent i.waits i.connect
    if rc = successReturn then
      iotxMcReconnectCallback handleEvent i.body
  else if currentState = .disconnected then
    iotxMcDisconnectCallback handleEvent i.body
    iotxMcSetClientState .disconnectedReconnecting

structure DisconnectInput where
  seen : McState
  disconnect : Sending

/-- `iotx_mc_disconnect`. -/
def iotxMcDisconnect (i : DisconnectInput) : Action Unit := do
  let normal ← iotxMcCheckStateNormal i.seen
  if normal then
    let _ ← mqttDisconnect i.disconnect
  iotxMcSetClientState .initialized

/-- `iotx_mc_release`. -/
def iotxMcRelease (i : DisconnectInput) : Action Unit := do
  delay
  iotxMcDisconnect i
  iotxMcSetClientState .invalid
  delay

/-- `iotx_mc_init`: `none` where a mutex cannot be created, and otherwise whether the rest
goes well. -/
def iotxMcInit : Option Bool → Action Int
  | none => pure failReturn
  | some ok => do
      iotxMcSetClientState (if ok then .initialized else .invalid)
      return if ok then successReturn else failReturn

/-! ## The public interface -/

structure ConstructInput where
  init : Option Bool
  connect : ConnectInput
  release : DisconnectInput

/-- `IOT_MQTT_Construct`. -/
def iotMqttConstruct (handleEvent : Bool) (i : ConstructInput) : Action Unit := do
  let err ← iotxMcInit i.init
  if err ≠ successReturn then
    return
  let err ← iotxMcConnect handleEvent i.connect
  if err ≠ successReturn then
    iotxMcRelease i.release

/-- `IOT_MQTT_Destroy`. -/
def iotMqttDestroy (i : DisconnectInput) : Action Unit := iotxMcRelease i

/-- A turn of the loop of `IOT_MQTT_Yield`. -/
structure Pass where
  keepalive : KeepaliveInput
  cycle : CycleInput
  pubs : PubSweep
  subs : SubSweep

/-- The loop of `IOT_MQTT_Yield`, which does as many turns as the clock lets it. -/
def yieldLoop (handleEvent : Bool) : Int → List Pass → Action Unit
  | _, [] => pure ()
  | rc, p :: ps => do
      if rc ≠ successReturn then
        delay
      iotxMcKeepalive handleEvent p.keepalive
      let rc ← iotxMcCycle handleEvent p.cycle
      if rc = successReturn then
        mqttPubInfoProc p.pubs
        mqttSubInfoProc handleEvent p.subs
      yieldLoop handleEvent rc ps

/-- `IOT_MQTT_Yield`.  A call with a bad argument does no turn. -/
def iotMqttYield (handleEvent : Bool) (passes : List Pass) : Action Unit :=
  yieldLoop handleEvent successReturn passes

/-- A call of the public interface. -/
inductive Operation where
  | construct (i : ConstructInput)
  | destroy (i : DisconnectInput)
  | yield (passes : List Pass)
  | call (i : ApiCall)

def Operation.exec (handleEvent : Bool) : Operation → Action Unit
  | construct i => iotMqttConstruct handleEvent i
  | destroy i => iotMqttDestroy i
  | yield passes => iotMqttYield handleEvent passes
  | call i => i.exec

def run (handleEvent : Bool) : List Operation → Action Unit
  | [] => pure ()
  | op :: ops => do
      op.exec handleEvent
      run handleEvent ops

end IotKit.Mqtt.Lock
