import IotKit.Lib.Run
import IotKit.CommIf.Connection

/-!
# The connection state and its notifications

`iotx_comm_if_api.c` step by step.  A function of the file may be entered while another one
is at work: `iotx_set_conn_state` calls the event callback of the application before it
stores the new state, the callback may query the state, and `iotx_comm_yield`,
`iotx_comm_connect` and `iotx_comm_disconnect` let the system loop run and the application
answer what it receives.  The functions at work are a stack of frames, and an action is a
call or the return of what the function on top waits for.

What the MQTT client does is behind `iotx_comm_*`: their results are part of the actions.
The state remembers the notifications of `event_cloud_status` (`told`), each store that
makes the connection state connected or no longer connected (`crossings`), both with the
latest first, and how often `iotx_comm_connect` was called (`dials`).
-/

namespace IotKit.CommIf.Status

/-- Where a function at work waits. -/
inductive Frame where
  /-- `iotx_set_conn_state`, for the event callback. -/
  | notifying (newState : ConnState)
  /-- `iotx_set_network_state`, for the event callback. -/
  | notifyingNetwork (newState : NetworkState)
  /-- `IOT_Comm_Yield`, for `iotx_comm_yield`. -/
  | yielding
  /-- `IOT_Comm_Yield`, for `IOT_Comm_IsConnected`. -/
  | yielded (expired : Bool)
  /-- `IOT_Comm_Connect`, for `iotx_comm_connect`. -/
  | connecting
  /-- `iotx_conn_handle_reconnect`, for `iotx_comm_connect`. -/
  | reconnecting
  /-- `IOT_Comm_Disconnect`, for `iotx_set_conn_state`. -/
  | disconnecting
  /-- `IOT_Comm_Disconnect`, for `iotx_comm_disconnect`. -/
  | destroying
deriving DecidableEq, Repr

structure Machine where
  connState : ConnState
  networkState : NetworkState
  frames : List Frame
  told : List Bool
  crossings : List Bool
  dials : Nat
deriving DecidableEq, Repr

/-- After `IOT_Comm_Init`. -/
def Machine.initial : Machine := ⟨.invalid, .disconnected, [], [], [], 0⟩

/-! ## The functions -/

def isConnected (state : ConnState) : Bool := decide (state = .connected)

/-- The end of `iotx_set_conn_state`. -/
def store (m : Machine) (newState : ConnState) : Machine :=
  { m with
    connState := newState
    crossings :=
      if isConnected newState = isConnected m.connState then m.crossings
      else isConnected newState :: m.crossings }

/-- The switch of `iotx_set_conn_state`: the notification, if there is one. -/
def notification (old newState : ConnState) : Option Bool :=
  if old = newState then none
  else
    match newState with
    | .initialized | .disconnected => if old = .connected then some false else none
    | .connected => some true
    | _ => none

/-- `IOT_Comm_Yield` where `IOT_Comm_IsConnected` returned false. -/
def yieldTail (m : Machine) (expired : Bool) : Machine :=
  if m.connState = .disconnectedReconnecting then
    -- iotx_conn_handle_reconnect
    if expired then { m with frames := .reconnecting :: m.frames, dials := m.dials + 1 } else m
  else if m.connState = .disconnected then store m .disconnectedReconnecting
  else m

/-- The function on top goes on if it waited for a call that has returned. -/
def resume (m : Machine) : Machine :=
  match m.frames with
  | .yielded expired :: frames => yieldTail { m with frames } expired
  | .disconnecting :: frames => { m with frames := .destroying :: frames }
  | _ => m

/-- `iotx_set_conn_state`.  `rest` is the frame of the caller, if the caller has more to do. -/
def iotxSetConnState (m : Machine) (newState : ConnState) (rest : List Frame) : Machine :=
  match notification m.connState newState with
  | some up =>
      { m with frames := .notifying newState :: (rest ++ m.frames), told := up :: m.told }
  | none => resume (store { m with frames := rest ++ m.frames } newState)

/-- `IOT_Network_IsConnected`, after which the caller returns or goes on with `k`. -/
def iotNetworkIsConnected (m : Machine) (rest : List Frame) (k : Machine → Machine) : Machine :=
  if m.networkState ≠ .connected then iotxSetConnState m .disconnected rest else k m

/-- `IOT_Comm_IsConnected`, where `iotx_comm_isconnected` returns `rst`. -/
def iotCommIsConnected (m : Machine) (rst : Bool) (rest : List Frame) : Machine :=
  iotNetworkIsConnected m rest fun m =>
    if m.connState ≠ .connected then resume { m with frames := rest ++ m.frames }
    else iotxSetConnState m (if rst then .connected else .disconnected) rest

/-- `IOT_Comm_SendData`, where `iotx_comm_send` succeeds or not. -/
def iotCommSendData (m : Machine) (sent : Bool) : Machine :=
  iotNetworkIsConnected m [] fun m =>
    if m.connState ≠ .connected then m
    else if sent then m
    else iotxSetConnState m .disconnected []

/-- `IOT_Comm_SendActionReply`. -/
def iotCommSendActionReply (m : Machine) (formatted sent : Bool) : Machine :=
  iotNetworkIsConnected m [] fun m =>
    if m.connState ≠ .connected then m
    else if formatted = false then m
    else if sent then m
    else iotxSetConnState m .disconnected []

/-- `iotx_set_network_state`. -/
def iotxSetNetworkState (m : Machine) (newState : NetworkState) : Machine :=
  if m.networkState ≠ newState then { m with frames := .notifyingNetwork newState :: m.frames }
  else m

/-- `IOT_Comm_Connect` up to `iotx_comm_connect`. -/
def iotCommConnect (m : Machine) : Machine :=
  iotNetworkIsConnected m [] fun m =>
    if m.connState = .connected then m
    else { m with frames := .connecting :: m.frames, dials := m.dials + 1 }

/-- `IOT_Comm_Disconnect` up to `iotx_comm_disconnect`. -/
def iotCommDisconnect (m : Machine) : Machine := iotxSetConnState m .initialized [.disconnecting]

/-- `IOT_Comm_Yield` up to `iotx_comm_yield`. -/
def iotCommYield (m : Machine) : Machine :=
  iotNetworkIsConnected m [] fun m => { m with frames := .yielding :: m.frames }

/-- What `IOT_Comm_Yield` finds after `iotx_comm_yield`: whether the client is connected, the
automatic upload and whether it is sent, and whether the time to reconnect has come. -/
structure Yielded where
  rst : Bool
  automatic : Option Bool
  expired : Bool

/-- `IOT_Comm_Yield` after `iotx_comm_yield`.  Where `IOT_Comm_IsConnected` returns true it
leaves the state connected. -/
def afterYield (m : Machine) (y : Yielded) : Machine :=
  if m.networkState = .connected ∧ m.connState = .connected ∧ y.rst = true then
    match y.automatic with
    | none => m
    | some sent => iotCommSendData m sent
  else iotCommIsConnected m y.rst [.yielded y.expired]

/-! ## Actions -/

inductive Call where
  | setNetworkState (newState : NetworkState)
  | networkIsConnected
  | commIsConnected (rst : Bool)
  | sendData (sent : Bool)
  | sendActionReply (formatted sent : Bool)
  | yield
  | connect
  | disconnect
deriving DecidableEq, Repr

inductive Action where
  | call (c : Call)
  | callbackReturns
  | yieldReturns (y : Yielded)
  | connectReturns (ok : Bool)
  | disconnectReturns

/-- The calls that may be made while a function waits.  The event callback queries. -/
def Call.possible (c : Call) : Option Frame → Bool
  | none => true
  | some (.notifying _) | some (.notifyingNetwork _) =>
      match c with
      | .networkIsConnected | .commIsConnected _ => true
      | _ => false
  | some _ => decide (c ≠ .connect ∧ c ≠ .disconnect)

def enter (m : Machine) : Call → Machine
  | .setNetworkState newState => iotxSetNetworkState m newState
  | .networkIsConnected => iotNetworkIsConnected m [] id
  | .commIsConnected rst => iotCommIsConnected m rst []
  | .sendData sent => iotCommSendData m sent
  | .sendActionReply formatted sent => iotCommSendActionReply m formatted sent
  | .yield => iotCommYield m
  | .connect => iotCommConnect m
  | .disconnect => iotCommDisconnect m

/-- The action is not one that can come now. -/
inductive Impossible where
  | impossible
deriving DecidableEq, Repr

def step (m : Machine) : Action → Except Impossible Machine
  | .call c => if c.possible m.frames.head? then .ok (enter m c) else .error .impossible
  | .callbackReturns =>
      match m.frames with
      | .notifying newState :: frames => .ok (resume (store { m with frames } newState))
      | .notifyingNetwork newState :: frames =>
          .ok { m with frames, networkState := newState }
      | _ => .error .impossible
  | .yieldReturns y =>
      match m.frames with
      | .yielding :: frames => .ok (afterYield { m with frames } y)
      | _ => .error .impossible
  | .connectReturns ok =>
      match m.frames with
      | .connecting :: frames =>
          .ok (iotxSetConnState { m with frames } (if ok then .connected else .disconnected) [])
      | .reconnecting :: frames =>
          .ok (if ok then iotxSetConnState { m with frames } .connected [] else { m with frames })
      | _ => .error .impossible
  | .disconnectReturns =>
      match m.frames with
      | .destroying :: frames => .ok { m with frames }
      | _ => .error .impossible

end IotKit.CommIf.Status
