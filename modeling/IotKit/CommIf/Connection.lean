import IotKit.Lib.Heap
import IotKit.Lib.Run
import IotKit.Mqtt.Client

/-!
# The connection layer

`iotx_comm_if_api.c` and `iotx_comm_if_mqtt.c` over the MQTT client, as far as
they own memory: the client that `conn_info.pclient` points to and its send and
read buffers are objects of a heap, and every access goes through the heap.  The
bytes of a packet are not here.

What the platform and the broker do in a call is an argument of the call.
`delay` runs `IOT_SYSTEM_Loop` until the time is over, so a call that delays is
re-entered: its argument holds the turns of the loop, which are calls of
`IOT_Comm_Yield`.  A turn may delay again.  The functions are therefore written over a
type `τ` of turns and a function `turn` that takes them, and `systemLoop` ties
the knot at each depth of re-entry.
-/

namespace IotKit.CommIf

open ObjectHeap
open Mqtt (McState)

/-! ## State -/

/-- `iotx_network_state_t`. -/
inductive NetworkState where
  | disconnected
  | connected
deriving DecidableEq, Repr

/-- `iotx_conn_state_t`. -/
inductive ConnState where
  | invalid
  | initialized
  | connected
  | disconnected
  | disconnectedReconnecting
deriving DecidableEq, Repr

/-- The fields of `iotx_mc_client_t` that ownership depends on.  The buffers are
addresses. -/
structure ClientObject where
  bufSend : Nat
  bufRead : Nat
  clientState : McState
deriving DecidableEq, Repr

inductive Object where
  | client (k : ClientObject)
  | buffer
deriving DecidableEq, Repr

/-- The heap and the fields of `iotx_conn_info_t`. -/
structure Comm where
  heap : Heap Object
  pclient : Option Nat
  connState : ConnState
  networkState : NetworkState

/-- After `IOT_Comm_Init`. -/
def Comm.initial : Comm := ⟨.empty, none, .invalid, .disconnected⟩

/-- The client at an address. -/
def Comm.client (s : Comm) (a : Nat) : Except Fault ClientObject := do
  let o ← s.heap.read a
  match o with
  | .client k => .ok k
  | .buffer => .error (.dangling a)

/-- An access to a buffer. -/
def Comm.buffer (s : Comm) (b : Nat) : Except Fault Unit := do
  let o ← s.heap.read b
  match o with
  | .buffer => .ok ()
  | .client _ => .error (.dangling b)

/-- `HAL_Malloc`. -/
def Comm.malloc (s : Comm) (o : Object) : Nat × Comm :=
  (s.heap.next, { s with heap := s.heap.alloc o })

/-- `HAL_Free`. -/
def Comm.free (s : Comm) (a : Nat) : Except Fault Comm := do
  let heap ← s.heap.free a
  .ok { s with heap }

/-- `HAL_Free` where the pointer is not NULL. -/
def Comm.freeIf (s : Comm) : Option Nat → Except Fault Comm
  | none => .ok s
  | some a => s.free a

/-! ## What happens in a call -/

/-- The turns in the two delays of an `iotx_mc_release`. -/
structure Releasing (τ : Type) where
  first : List τ
  second : List τ

/-- How far `iotx_mc_connect` gets: the step that fails. -/
inductive McConnect where
  | preAuth
  | ipstack
  | connectPacket
  | connack
  | postAuth
  | accepted
deriving DecidableEq, Repr

/-- `inited` says that the checks, `HAL_Malloc` and `iotx_mc_init` pass. -/
structure Constructing (τ : Type) where
  inited : Bool
  connect : McConnect
  release : Releasing τ

/-- The outcome for a packet that a connected client is to send. -/
inductive Sending where
  | rejected
  | packetError
  | networkError
  | sent
deriving DecidableEq, Repr

/-- A call of `iotx_comm_connect`: its steps in their order, and the delays of the
`IOT_MQTT_Destroy` in `iotx_comm_disconnect` and after `do_exit`. -/
structure Connecting (τ : Type) where
  disconnect : Releasing τ
  mallocWrite : Bool
  mallocRead : Bool
  construct : Constructing τ
  topicTx : Bool
  subscribeTx : Sending
  topicAction : Bool
  subscribeAction : Sending
  deviceInfo : Bool
  topicInfo : Bool
  publishInfo : Sending
  destroy : Releasing τ

/-- A call of `iotx_comm_send`.  `prepared` says that the topic is generated and the
payload allocated. -/
structure Message where
  prepared : Bool
  publish : Sending

/-- A pass of the loop of `IOT_MQTT_Yield`: the turns of the delay if the pass before
failed, the ping if one is due, the packet that is read, what a callback
sends in reply to it, and the message that is published again if one is due. -/
structure Cycle (τ : Type) where
  wait : List τ
  ping : Option Sending
  probesOver : Bool
  read : Bool
  reply : Option Message
  handled : Bool
  republish : Option Sending

/-- A call of `IOT_Comm_Yield`.  The loop of `IOT_MQTT_Yield` runs at least once. -/
structure Yielding (τ : Type) where
  cycle : Cycle τ
  cycles : List (Cycle τ)
  automatic : Option Message
  expired : Bool
  connect : Connecting τ

/-- A turn of `IOT_SYSTEM_Loop`, and the state of the network it finds. -/
structure Turn (τ : Type) where
  network : NetworkState
  yield : Yielding τ

/-! ## The MQTT client -/

/-- `iotx_mc_set_client_state`. -/
def iotxMcSetClientState (s : Comm) (a : Nat) (newState : McState) : Except Fault Comm := do
  let k ← s.client a
  let heap ← s.heap.write a (.client { k with clientState := newState })
  .ok { s with heap }

/-- `iotx_mc_check_state_normal`. -/
def iotxMcCheckStateNormal (s : Comm) (a : Nat) : Except Fault Bool := do
  let k ← s.client a
  .ok (k.clientState = .connected)

/-- `MQTTDisconnect`: the packet goes through `buf_send`. -/
def mqttDisconnect (s : Comm) (a : Nat) : Except Fault Unit := do
  let k ← s.client a
  s.buffer k.bufSend

/-- `iotx_mc_disconnect`. -/
def iotxMcDisconnect (s : Comm) (a : Nat) : Except Fault Comm := do
  let normal ← iotxMcCheckStateNormal s a
  let _ ← (if normal then mqttDisconnect s a else .ok ())
  iotxMcSetClientState s a .initialized

/-- `iotx_mc_connect`. -/
def iotxMcConnect (s : Comm) (a : Nat) (outcome : McConnect) : Except Fault (Bool × Comm) := do
  let k ← s.client a
  match outcome with
  | .preAuth | .ipstack => .ok (false, s)
  | .connectPacket =>
      s.buffer k.bufSend
      .ok (false, s)
  | .connack =>
      s.buffer k.bufSend
      s.buffer k.bufRead
      mqttDisconnect s a
      .ok (false, s)
  | .postAuth =>
      s.buffer k.bufSend
      s.buffer k.bufRead
      let s ← iotxMcSetClientState s a .connected
      .ok (false, s)
  | .accepted =>
      s.buffer k.bufSend
      s.buffer k.bufRead
      let s ← iotxMcSetClientState s a .connected
      .ok (true, s)

/-- `iotx_mc_subscribe`, `iotx_mc_publish` and the other functions that send one packet:
only a connected client sends, and a network error disconnects it. -/
def sendPacket (s : Comm) (a : Nat) (outcome : Sending) : Except Fault (Bool × Comm) := do
  let normal ← iotxMcCheckStateNormal s a
  if normal then
    let k ← s.client a
    match outcome with
    | .rejected => .ok (false, s)
    | .packetError =>
        s.buffer k.bufSend
        .ok (false, s)
    | .networkError =>
        s.buffer k.bufSend
        let s ← iotxMcSetClientState s a .disconnected
        .ok (false, s)
    | .sent =>
        s.buffer k.bufSend
        .ok (true, s)
  else .ok (false, s)

/-- A packet that may not be due. -/
def sendPacketIf (s : Comm) (a : Nat) : Option Sending → Except Fault Comm
  | none => do
      let _ ← s.client a
      .ok s
  | some outcome => do
      let (_, s) ← sendPacket s a outcome
      .ok s

/-- `IOT_MQTT_Subscribe`. -/
def iotMqttSubscribe (s : Comm) (a : Nat) (outcome : Sending) : Except Fault (Bool × Comm) :=
  sendPacket s a outcome

/-- `IOT_MQTT_Publish`. -/
def iotMqttPublish (s : Comm) (a : Nat) (outcome : Sending) : Except Fault (Bool × Comm) :=
  sendPacket s a outcome

/-- `iotx_mc_keepalive`: `reconnect_open` is false, so it only pings. -/
def iotxMcKeepalive (s : Comm) (a : Nat) (ping : Option Sending) : Except Fault Comm :=
  sendPacketIf s a ping

/-- `MQTTPubInfoProc`. -/
def mqttPubInfoProc (s : Comm) (a : Nat) (republish : Option Sending) : Except Fault Comm :=
  sendPacketIf s a republish

/-! ## The connection layer without delays -/

/-- `iotx_set_conn_state`. -/
def iotxSetConnState (s : Comm) (newState : ConnState) : Comm := { s with connState := newState }

/-- `IOT_Network_SetState`. -/
def iotNetworkSetState (s : Comm) (newState : NetworkState) : Comm :=
  { s with networkState := newState }

/-- `IOT_Network_IsConnected`. -/
def iotNetworkIsConnected (s : Comm) : Bool × Comm :=
  if s.networkState ≠ .connected then (false, iotxSetConnState s .disconnected) else (true, s)

/-- `iotx_comm_isconnected`. -/
def iotxCommIsconnected (s : Comm) : Except Fault Bool :=
  match s.pclient with
  | none => .ok false
  | some a => iotxMcCheckStateNormal s a

/-- `IOT_Comm_IsConnected`. -/
def iotCommIsConnected (s : Comm) : Except Fault (Bool × Comm) := do
  let (up, s) := iotNetworkIsConnected s
  if up = false then .ok (false, s)
  else if s.connState ≠ .connected then .ok (false, s)
  else
    let rst ← iotxCommIsconnected s
    .ok (rst, iotxSetConnState s (if rst then .connected else .disconnected))

/-- `iotx_comm_send`. -/
def iotxCommSend (s : Comm) (m : Message) : Except Fault (Bool × Comm) :=
  match s.pclient with
  | none => .ok (false, s)
  | some a => if m.prepared = false then .ok (false, s) else iotMqttPublish s a m.publish

/-- `IOT_Comm_SendData`. -/
def iotCommSendData (s : Comm) (m : Message) : Except Fault Comm := do
  let (up, s) := iotNetworkIsConnected s
  if up = false then .ok s
  else if s.connState ≠ .connected then .ok s
  else
    let (rst, s) ← iotxCommSend s m
    .ok (if rst then s else iotxSetConnState s .disconnected)

/-- What a callback or the automatic upload sends, if anything. -/
def iotCommSendDataIf (s : Comm) : Option Message → Except Fault Comm
  | none => .ok s
  | some m => iotCommSendData s m

/-- `iotx_mc_cycle`. -/
def iotxMcCycle {τ : Type} (s : Comm) (a : Nat) (c : Cycle τ) : Except Fault (Bool × Comm) := do
  let normal ← iotxMcCheckStateNormal s a
  if normal then
    let s ← (if c.probesOver then iotxMcSetClientState s a .disconnected else .ok s)
    let k ← s.client a
    s.buffer k.bufRead
    if c.read = false then
      let s ← iotxMcSetClientState s a .disconnected
      .ok (false, s)
    else
      let s ← iotCommSendDataIf s c.reply
      .ok (c.handled, s)
  else .ok (false, s)

/-- A pass of the loop of `IOT_MQTT_Yield` without its delay. -/
def yieldPass {τ : Type} (s : Comm) (a : Nat) (c : Cycle τ) : Except Fault (Bool × Comm) := do
  let s ← iotxMcKeepalive s a c.ping
  let (rc, s) ← iotxMcCycle s a c
  let s ← (if rc then mqttPubInfoProc s a c.republish else .ok s)
  .ok (rc, s)

/-! ## The connection layer with delays -/

section Reentered

variable {τ : Type} (turn : Comm → τ → Except Fault Comm)

/-- `delay`. -/
def delay (s : Comm) (turns : List τ) : Except Fault Comm := Runs.run turn s turns

/-- `iotx_mc_release`.  Locks, lists and `ipstack` go with the client. -/
def iotxMcRelease (s : Comm) (a : Nat) (r : Releasing τ) : Except Fault Comm := do
  let s ← delay turn s r.first
  let s ← iotxMcDisconnect s a
  let s ← iotxMcSetClientState s a .invalid
  let s ← delay turn s r.second
  let _ ← s.client a
  .ok s

/-- `IOT_MQTT_Destroy`.  The pointer it sets to NULL is a copy of the caller's. -/
def iotMqttDestroy (s : Comm) (a : Nat) (r : Releasing τ) : Except Fault Comm := do
  let s ← iotxMcRelease turn s a r
  s.free a

/-- `IOT_MQTT_Construct`. -/
def iotMqttConstruct (s : Comm) (write read : Nat) (i : Constructing τ) :
    Except Fault (Option Nat × Comm) := do
  if i.inited = false then .ok (none, s)
  else
    let (a, s) := s.malloc (.client ⟨write, read, .initialized⟩)
    let (err, s) ← iotxMcConnect s a i.connect
    if err then .ok (some a, s)
    else
      let s ← iotxMcRelease turn s a i.release
      let s ← s.free a
      .ok (none, s)

/-- A pass of the loop of `IOT_MQTT_Yield`, after a pass that ended with the given `rc`. -/
def yieldCycle (a : Nat) (st : Bool × Comm) (c : Cycle τ) : Except Fault (Bool × Comm) := do
  let s ← (if st.1 then .ok st.2 else delay turn st.2 c.wait)
  yieldPass s a c

/-- `IOT_MQTT_Yield`. -/
def iotMqttYield (s : Comm) (a : Nat) (cycles : List (Cycle τ)) : Except Fault Comm := do
  let (_, s) ← Runs.run (yieldCycle turn a) (true, s) cycles
  .ok s

/-- `iotx_comm_yield`. -/
def iotxCommYield (s : Comm) (y : Yielding τ) : Except Fault Comm :=
  match s.pclient with
  | none => .ok s
  | some a => iotMqttYield turn s a (y.cycle :: y.cycles)

/-- `iotx_comm_disconnect`.  `conn_info.pclient` stays as it is. -/
def iotxCommDisconnect (s : Comm) (r : Releasing τ) : Except Fault Comm :=
  match s.pclient with
  | none => .ok s
  | some a => do
      let k ← s.client a
      let s ← iotMqttDestroy turn s a r
      let s ← s.free k.bufSend
      s.free k.bufRead

/-- `IOT_MQTT_Destroy` where the pointer is not NULL. -/
def iotMqttDestroyIf (s : Comm) (pclient : Option Nat) (r : Releasing τ) : Except Fault Comm :=
  match pclient with
  | none => .ok s
  | some a => iotMqttDestroy turn s a r

/-- The code after `do_exit`: the buffers go before the client. -/
def doExit (s : Comm) (write read pclient : Option Nat) (r : Releasing τ) :
    Except Fault (Bool × Comm) := do
  let s ← s.freeIf write
  let s ← s.freeIf read
  let s ← iotMqttDestroyIf turn s pclient r
  .ok (false, s)

/-- `goto do_exit` where a return code is negative. -/
def orDoExit (r : Except Fault (Bool × Comm)) (rest : Comm → Except Fault (Bool × Comm)) :
    Except Fault (Bool × Comm) := do
  let (rc, s) ← r
  if rc = false then .ok (false, s) else rest s

/-- The part of `iotx_comm_connect` that subscribes and publishes. -/
def openSession (s : Comm) (a : Nat) (i : Connecting τ) : Except Fault (Bool × Comm) :=
  if i.topicTx = false then .ok (false, s)
  else orDoExit (iotMqttSubscribe s a i.subscribeTx) fun s =>
    if i.topicAction = false then .ok (false, s)
    else orDoExit (iotMqttSubscribe s a i.subscribeAction) fun s =>
      if i.deviceInfo = false then .ok (false, s)
      else if i.topicInfo = false then .ok (false, s)
      else iotMqttPublish s a i.publishInfo

/-- The part of `iotx_comm_connect` that has both buffers. -/
def connectClient (s : Comm) (write read : Nat) (i : Connecting τ) :
    Except Fault (Bool × Comm) := do
  let (pclient, s) ← iotMqttConstruct turn s write read i.construct
  match pclient with
  | none => doExit turn s (some write) (some read) none i.destroy
  | some a =>
      let (rc, s) ← openSession s a i
      if rc = false then doExit turn s (some write) (some read) (some a) i.destroy
      else .ok (true, { s with pclient := some a })

/-- `iotx_comm_connect` after its `iotx_comm_disconnect`. -/
def establish (s : Comm) (i : Connecting τ) : Except Fault (Bool × Comm) :=
  if i.mallocWrite = false then doExit turn s none none none i.destroy
  else
    let (write, s) := s.malloc .buffer
    if i.mallocRead = false then doExit turn s (some write) none none i.destroy
    else
      let (read, s) := s.malloc .buffer
      connectClient turn s write read i

/-- `iotx_comm_connect`. -/
def iotxCommConnect (s : Comm) (i : Connecting τ) : Except Fault (Bool × Comm) := do
  let s ← iotxCommDisconnect turn s i.disconnect
  establish turn s i

/-- `IOT_Comm_Connect`. -/
def iotCommConnect (s : Comm) (i : Connecting τ) : Except Fault Comm := do
  let (up, s) := iotNetworkIsConnected s
  if up = false then .ok s
  else if s.connState = .connected then .ok s
  else
    let (rst, s) ← iotxCommConnect turn s i
    .ok (iotxSetConnState s (if rst then .connected else .disconnected))

/-- `IOT_Comm_Disconnect`. -/
def iotCommDisconnect (s : Comm) (r : Releasing τ) : Except Fault Comm :=
  iotxCommDisconnect turn (iotxSetConnState s .initialized) r

/-- `iotx_conn_handle_reconnect`. -/
def iotxConnHandleReconnect (s : Comm) (y : Yielding τ) : Except Fault Comm := do
  if y.expired = false then .ok s
  else
    let (rc, s) ← iotxCommConnect turn s y.connect
    .ok (if rc then iotxSetConnState s .connected else s)

/-- `IOT_Comm_Yield`. -/
def iotCommYield (s : Comm) (y : Yielding τ) : Except Fault Comm := do
  let (up, s) := iotNetworkIsConnected s
  if up = false then .ok s
  else
    let s ← iotxCommYield turn s y
    let (up, s) ← iotCommIsConnected s
    if up then iotCommSendDataIf s y.automatic
    else if s.connState = .disconnectedReconnecting then iotxConnHandleReconnect turn s y
    else if s.connState = .disconnected then .ok (iotxSetConnState s .disconnectedReconnecting)
    else .ok s

/-- The calls of an application. -/
inductive Call (τ : Type) where
  | setNetwork (newState : NetworkState)
  | connect (i : Connecting τ)
  | disconnect (r : Releasing τ)
  | yield (y : Yielding τ)
  | sendData (m : Message)

def call (s : Comm) : Call τ → Except Fault Comm
  | .setNetwork newState => .ok (iotNetworkSetState s newState)
  | .connect i => iotCommConnect turn s i
  | .disconnect r => iotCommDisconnect turn s r
  | .yield y => iotCommYield turn s y
  | .sendData m => iotCommSendData s m

end Reentered

/-! ## Depth of re-entry -/

/-- Turns whose delays are re-entered to at most the given depth. -/
def TurnAt : Nat → Type
  | 0 => Empty
  | depth + 1 => Turn (TurnAt depth)

/-- `IOT_SYSTEM_Loop`. -/
def systemLoop : (depth : Nat) → Comm → TurnAt depth → Except Fault Comm
  | 0, _, t => nomatch t
  | depth + 1, s, t =>
      iotCommYield (systemLoop depth) (iotNetworkSetState s t.network) t.yield

/-- The calls of an application, one after the other, from the start. -/
def runCalls (depth : Nat) (calls : List (Call (TurnAt depth))) : Except Fault Comm :=
  Runs.run (call (systemLoop depth)) .initial calls

end IotKit.CommIf
