import IotKit.Lib.Run
import IotKit.CommIf.Connection
import IotKit.Utils.Timer

/-!
# The system loop

The way round from `IOT_Comm_Yield` to itself.  `IOT_MQTT_Yield` makes passes for 200 ms and
delays before a pass that comes after a failed one, `iotx_mc_release` delays twice, and
`delay` runs `IOT_SYSTEM_Loop`, which calls `IOT_Comm_Yield`, until its time is over.  The
functions at work are a stack of frames, and an action is what the function on top does
next, with the clock readings it takes and what the network and the broker do.

Clock readings are the 32-bit milliseconds of `HAL_UptimeMs`.  A client that was released
keeps its last state here.
-/

namespace IotKit.CommIf.Loop

open Mqtt (McState)

/-! ## Timers -/

/-- `utils_time_is_expired`. -/
def utilsTimeIsExpired (timer now : UInt32) : Bool := decide (now - timer < 2147483647)

/-- `iotx_time_left`, which reads the clock twice. -/
def iotxTimeLeft (timer now₁ now₂ : UInt32) : UInt32 :=
  if utilsTimeIsExpired timer now₁ then 0 else timer - now₂

/-- The timers are those of `utils_timer.c`, at a reading of the clock. -/
theorem utilsTimeIsExpired_reading (timer : UInt32) (c : Utils.Timer.Clock) :
    (Utils.Timer.utilsTimeIsExpired (some timer) c).1 =
      if utilsTimeIsExpired timer (Utils.Timer.halUptimeMs c).1 then 1 else 0 := by
  simp [Utils.Timer.utilsTimeIsExpired, utilsTimeIsExpired]

/-- The time that `IOT_MQTT_Yield` delays before a pass. -/
def waitTime (timer now₁ now₂ : UInt32) : UInt32 :=
  let leftT := iotxTimeLeft timer now₁ now₂
  if leftT < 20 then leftT else 20

/-- The time that has gone by in `delay`. -/
def elapsedMillis (startMillis currentMillis : UInt32) : UInt32 :=
  if currentMillis < startMillis then 4294967295 - startMillis + currentMillis
  else currentMillis - startMillis

/-! ## The machine -/

/-- Where `IOT_MQTT_Yield` stands in its loop. -/
inductive Phase where
  /-- At the top, after a pass that failed. -/
  | failed
  /-- Before `iotx_mc_keepalive`. -/
  | ready
  /-- At the condition of the loop, after a pass with the result `rc`. -/
  | ended (rc : Bool)
deriving DecidableEq, Repr

inductive Frame where
  /-- `delay`, in its loop. -/
  | delaying (startMillis ms : UInt32)
  /-- `IOT_MQTT_Yield` with the client `a`. -/
  | mqttYield (a : Nat) (time : UInt32) (phase : Phase)
  /-- `IOT_Comm_Yield` after `iotx_comm_yield`. -/
  | yielded
  /-- `iotx_mc_release` of the client `a` in `iotx_comm_connect`, with the delays that are
  to come, and whether the connection is made after it. -/
  | releasing (a : Nat) (delays : Nat) (connects : Bool)
  /-- `iotx_comm_connect` after its `iotx_comm_disconnect`, in `iotx_conn_handle_reconnect`. -/
  | connecting
deriving DecidableEq, Repr

/-- `pclient` is an index of `clients`, and `now` the last clock reading. -/
structure Machine where
  networkState : NetworkState
  connState : ConnState
  clients : List McState
  pclient : Option Nat
  now : UInt32
  frames : List Frame
deriving DecidableEq, Repr

def Machine.client (m : Machine) (a : Nat) : McState := m.clients.getD a .invalid

def Machine.setClient (m : Machine) (a : Nat) (state : McState) : Machine :=
  { m with clients := m.clients.set a state }

/-- How far the attempt to connect gets: no client is made, the client does not connect, it
cannot subscribe or publish, or the session is open. -/
inductive Connect where
  | noClient
  | refused
  | sessionFailed
  | accepted
deriving DecidableEq, Repr

/-- The automatic upload: nothing is due, the data is sent, or sending fails, which may
disconnect the client. -/
inductive Upload where
  | none
  | sent
  | failed (lost : Bool)
deriving DecidableEq, Repr

inductive Action where
  | setNetworkState (newState : NetworkState)
  /-- A pass of the loop of `IOT_MQTT_Yield` with a connected client ends with `rc`, and the
  client may be lost in it. -/
  | pass (rc lost : Bool)
  | check (now : UInt32)
  | wait (now₁ now₂ now₃ : UInt32)
  | poll (now₁ now₂ : UInt32)
  | startDelay (now : UInt32)
  | released
  | connect (outcome : Connect)
  /-- `expired` says that the time to reconnect has come. -/
  | finish (upload : Upload) (expired : Bool)
deriving DecidableEq, Repr

/-- `IOT_Comm_Yield` up to the loop of `IOT_MQTT_Yield`. -/
def iotCommYield (m : Machine) (now : UInt32) : Machine :=
  if m.networkState ≠ .connected then { m with connState := .disconnected }
  else
    match m.pclient with
    | none => { m with frames := .yielded :: m.frames }
    | some a => { m with now, frames := .mqttYield a (now + 200) .ready :: m.frames }

/-- The switch of `IOT_Comm_Yield` over the connection state. -/
def handleState (m : Machine) (expired : Bool) : Machine :=
  match m.connState with
  | .disconnectedReconnecting =>
      if expired = false then m
      else
        match m.pclient with
        | none => { m with frames := .connecting :: m.frames }
        | some a => { m with frames := .releasing a 2 true :: m.frames }
  | .disconnected => { m with connState := .disconnectedReconnecting }
  | _ => m

/-- `IOT_DataPoint_SendDatapointAutomatic` with a connected client. -/
def sendAutomatic (m : Machine) (a : Nat) : Upload → Machine
  | .none => m
  | .sent => m
  | .failed lost =>
      let m := { m with connState := .disconnected }
      if lost then m.setClient a .disconnected else m

/-- `IOT_Comm_Yield` after `iotx_comm_yield`. -/
def afterYield (m : Machine) (upload : Upload) (expired : Bool) : Machine :=
  if m.networkState ≠ .connected then handleState { m with connState := .disconnected } expired
  else if m.connState ≠ .connected then handleState m expired
  else
    match m.pclient with
    | none => handleState { m with connState := .disconnected } expired
    | some a =>
        if m.client a = .connected then sendAutomatic m a upload
        else handleState { m with connState := .disconnected } expired

/-- `iotx_comm_connect` after its `iotx_comm_disconnect`. -/
def connect (m : Machine) : Connect → Machine
  | .noClient => m
  | .refused =>
      { m with
        clients := m.clients ++ [.initialized]
        frames := .releasing m.clients.length 2 false :: m.frames }
  | .sessionFailed =>
      { m with
        clients := m.clients ++ [.connected]
        frames := .releasing m.clients.length 2 false :: m.frames }
  | .accepted =>
      { m with
        clients := m.clients ++ [.connected]
        pclient := some m.clients.length
        connState := .connected }

/-- The action is not what the function on top does next, or the clock goes back. -/
inductive Impossible where
  | impossible
deriving DecidableEq, Repr

def step (m : Machine) : Action → Except Impossible Machine
  | .setNetworkState newState => .ok { m with networkState := newState }
  | .pass rc lost =>
      match m.frames with
      | .mqttYield a time .ready :: frames =>
          if m.client a = .connected then
            .ok { m.setClient a (if lost then .disconnected else .connected) with
              frames := .mqttYield a time (.ended rc) :: frames }
          else .ok { m with frames := .mqttYield a time (.ended false) :: frames }
      | _ => .error .impossible
  | .check now =>
      match m.frames with
      | .mqttYield a time (.ended rc) :: frames =>
          if now < m.now then .error .impossible
          else if utilsTimeIsExpired time now then
            .ok { m with now, frames := .yielded :: frames }
          else
            .ok { m with
              now
              frames := .mqttYield a time (if rc then .ready else .failed) :: frames }
      | _ => .error .impossible
  | .wait now₁ now₂ now₃ =>
      match m.frames with
      | .mqttYield a time .failed :: frames =>
          if now₁ < m.now ∨ now₂ < now₁ ∨ now₃ < now₂ then .error .impossible
          else if waitTime time now₁ now₂ = 0 then
            .ok { m with now := now₃, frames := .mqttYield a time .ready :: frames }
          else
            .ok { m with
              now := now₃
              frames := .delaying now₃ (waitTime time now₁ now₂) ::
                .mqttYield a time .ready :: frames }
      | _ => .error .impossible
  | .poll now₁ now₂ =>
      match m.frames with
      | .delaying startMillis ms :: frames =>
          if now₁ < m.now ∨ now₂ < now₁ then .error .impossible
          else if ms < elapsedMillis startMillis now₁ then .ok { m with now := now₁, frames }
          else .ok (iotCommYield { m with now := now₁ } now₂)
      | _ => .error .impossible
  | .startDelay now =>
      match m.frames with
      | .releasing a (delays + 1) connects :: frames =>
          if now < m.now then .error .impossible
          else
            -- iotx_mc_disconnect and the state INVALID come between the two delays
            .ok { (if delays = 0 then m.setClient a .invalid else m) with
              now
              frames := .delaying now 100 :: .releasing a delays connects :: frames }
      | _ => .error .impossible
  | .released =>
      match m.frames with
      | .releasing _ 0 connects :: frames =>
          .ok { m with frames := if connects then .connecting :: frames else frames }
      | _ => .error .impossible
  | .connect outcome =>
      match m.frames with
      | .connecting :: frames => .ok (connect { m with frames } outcome)
      | _ => .error .impossible
  | .finish upload expired =>
      match m.frames with
      | .yielded :: frames => .ok (afterYield { m with frames } upload expired)
      | _ => .error .impossible

/-- A call of `IOT_Comm_Yield` while no function is at work. -/
def called (m : Machine) (now : UInt32) : Machine := iotCommYield { m with frames := [] } now

end IotKit.CommIf.Loop
