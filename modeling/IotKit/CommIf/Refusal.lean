import IotKit.CommIf.Channel
import IotKit.CommIf.Status
import IotKit.Mqtt.Confidentiality

/-!
# Sends that the client refuses

`IOT_Comm_SendData` and `IOT_Comm_SendActionReply` over MQTT, with both state machines: the
connection state and its notifications, and the MQTT client.  `iotx_mc_publish` disconnects the
client for a network error alone.  The two functions above it see only that the result is
negative, and disconnect for each.  A reply whose text cannot be made does not get that far.
-/

namespace IotKit.CommIf.Refusal

open CMemory
open Channel (ConnSend Payload)

/-! ## The source -/

/-- `iotx_ota_reply_t`.  The last stands for the numbers that are none of its constants. -/
inductive OtaReply where
  | progress
  | fetchFailed
  | fetchSuccess
  | burnFailed
  | burnSuccess
  | undefined
deriving DecidableEq, Repr

/-- `"%d"` of a byte. -/
def decimal (n : UInt8) : Bytes := (Nat.toDigits 10 n.toNat).map fun c => UInt8.ofNat c.toNat

/-- The text up to the file type: an opening brace and `"type":"`. -/
def typeKey : Bytes := [123, 34, 116, 121, 112, 101, 34, 58, 34]

/-- `","status":"`. -/
def statusKey : Bytes := [34, 44, 34, 115, 116, 97, 116, 117, 115, 34, 58, 34]

/-- `","progress":"`. -/
def progressKey : Bytes :=
  [34, 44, 34, 112, 114, 111, 103, 114, 101, 115, 115, 34, 58, 34]

/-- The end of the text: `"` and a closing brace. -/
def closing : Bytes := [34, 125]

/-- The text with a status of two digits. -/
def statusText (fileType : UInt8) (status : Bytes) (rest : Bytes) : Bytes :=
  typeKey ++ (decimal fileType ++ (statusKey ++ (status ++ (rest ++ closing))))

/-- The text of a reply, if there is one. -/
def OtaReply.text (fileType progress : UInt8) : OtaReply → Option Bytes
  | .progress => some (statusText fileType [49, 48] (progressKey ++ decimal progress))
  | .fetchFailed => some (statusText fileType [49, 49] [])
  | .fetchSuccess => some (statusText fileType [49, 53] [])
  | .burnFailed => some (statusText fileType [49, 51] [])
  | .burnSuccess => some (statusText fileType [49, 52] [])
  | .undefined => none

/-- `iotx_get_action_reply`: what it leaves in a buffer of `buflen` bytes. -/
def iotxGetActionReply (buflen : Nat) (fileType : UInt8) (reply : OtaReply) (progress : UInt8) :
    Option { text : Bytes // text.length < buflen } :=
  match reply.text fileType progress with
  | none => none
  | some text =>
      let temp := Channel.snprintf 128 text
      if h : temp.length < buflen then some ⟨temp, h⟩ else none

/-- The environment of `iotx_comm_send`: whether the copy is allocated, what
`iotx_mqtt_up_process` returns and leaves, and the network. -/
structure SendEnv where
  deviceId : Bytes
  malloc : Bool
  up : Int × Payload
  env : Mqtt.PublishEnv

def SendEnv.topic (e : SendEnv) (sendType : ConnSend) : Bytes :=
  Channel.genMqtTopic e.deviceId sendType.tail

/-- What `iotx_comm_send` returns and leaves, and what it asked of the socket. -/
structure CommSent where
  rst : Int
  pclient : Option Mqtt.McClient
  requests : List Mqtt.WriteReq

/-- `iotx_comm_send` of `iotx_comm_if_mqtt.c`. -/
def iotxCommSend (pclient : Option Mqtt.McClient) (e : SendEnv) (sendType : ConnSend)
    (data : Payload) : Checked CommSent :=
  match pclient with
  | none => .ok ⟨-1, none, []⟩
  | some c =>
      if e.malloc = false then .ok ⟨-1, some c, []⟩
      -- the copy into the buffer
      else if (data.1.length + 6) % 65536 < data.1.length then .error .store
      else do
        let r ← Mqtt.iotxMcPublish c (e.topic sendType) (Channel.mqttMessage data)
          (some (e.up.1, Channel.mqttMessage e.up.2)) e.env
        .ok ⟨r.rc, some r.client, r.requests⟩

/-- The connection state, and the MQTT client under it. -/
structure Link where
  machine : Status.Machine
  pclient : Option Mqtt.McClient

/-- What a call returns and leaves, up to the event callback where there is one, and what it
asked of the socket. -/
structure Returned where
  rst : Int
  link : Link
  requests : List Mqtt.WriteReq

/-- The two functions. -/
inductive SendCall where
  | sendData (data : Payload)
  | sendActionReply (fileType : UInt8) (reply : OtaReply) (progress : UInt8)

/-- What is sent, if there is something. -/
def SendCall.message : SendCall → Option (ConnSend × Payload)
  | .sendData data => some (.sendData, data)
  | .sendActionReply fileType reply progress =>
      (iotxGetActionReply 128 fileType reply progress).map fun text =>
        (.sendActionReply, ⟨text.1, Nat.lt_trans text.2 (by decide)⟩)

/-- The call as the connection state sees it. -/
def SendCall.statusCall (sent : Bool) : SendCall → Status.Call
  | .sendData _ => .sendData sent
  | .sendActionReply fileType reply progress =>
      .sendActionReply (iotxGetActionReply 128 fileType reply progress).isSome sent

/-- `IOT_Comm_SendData` and `IOT_Comm_SendActionReply`. -/
def SendCall.send (l : Link) (e : SendEnv) (call : SendCall) : Checked Returned :=
  if l.machine.networkState ≠ .connected ∨ l.machine.connState ≠ .connected then
    .ok ⟨-1, ⟨Status.enter l.machine (call.statusCall false), l.pclient⟩, []⟩
  else
    match call.message with
    | none => .ok ⟨-1, ⟨Status.enter l.machine (call.statusCall false), l.pclient⟩, []⟩
    | some (sendType, data) => do
        let sent ← iotxCommSend l.pclient e sendType data
        .ok ⟨sent.rst,
          ⟨Status.enter l.machine (call.statusCall (decide (0 ≤ sent.rst))), sent.pclient⟩,
          sent.requests⟩

/-! ## Runs -/

/-- What happens to the link: a step of the interface that sends nothing, with the client that
it leaves, or a send. -/
inductive Action where
  | status (a : Status.Action) (pclient : Option Mqtt.McClient)
  | send (e : SendEnv) (call : SendCall)

/-- The step sends.  `IOT_Comm_Yield` with something to upload is the step that finds nothing,
and then a send. -/
def sends : Status.Action → Bool
  | .call (.sendData _) | .call (.sendActionReply _ _) => true
  | .yieldReturns y => y.automatic.isSome
  | _ => false

/-- The action cannot come now, or the language gives it no meaning. -/
inductive Stop where
  | impossible
  | undefined

def step (l : Link) : Action → Except Stop Link
  | .status a pclient =>
      if sends a then .error .impossible
      else
        match Status.step l.machine a with
        | .ok machine => .ok ⟨machine, pclient⟩
        | .error _ => .error .impossible
  | .send e call =>
      if (call.statusCall false).possible l.machine.frames.head? then
        match call.send l e with
        | .ok r => .ok r.link
        | .error _ => .error .undefined
      else .error .impossible

/-- After `IOT_Comm_Init`. -/
def Link.initial : Link := ⟨.initial, none⟩

/-! ## Specification -/

/-- The connection state and the client are both connected. -/
structure Link.Connected (l : Link) : Prop where
  connState : l.machine.connState = .connected
  client : ∃ c, l.pclient = some c ∧ c.clientState = .connected

/-- The call fails, and nothing was asked of the socket. -/
structure FailsUnsent (r : Returned) : Prop where
  fails : r.rst < 0
  unsent : r.requests = []

/-- Both are connected, and the application was told nothing. -/
structure Kept (l : Link) (r : Returned) : Prop where
  connected : r.link.Connected
  told : r.link.machine.told = l.machine.told

/-- A send that fails with nothing given to the socket keeps the connection. -/
def Keeps (l : Link) : Action → Prop
  | .status _ _ => True
  | .send e call => l.Connected → ∀ r, call.send l e = .ok r → FailsUnsent r → Kept l r

/-- The copy is allocated, the client takes the topic and has room for the packet, and the timer
leaves time for a write. -/
def Accepts (c : Mqtt.McClient) (e : SendEnv) (sendType : ConnSend) (data : Payload) : Prop :=
  e.malloc = true ∧ e.env.writes ≠ [] ∧ Mqtt.Sends c (e.topic sendType) (Channel.mqttMessage data)
    (Channel.mqttMessage e.up.2)

/-- The network is up, and the client accepts what is sent, if there is something. -/
def Accepted (l : Link) (e : SendEnv) (call : SendCall) : Prop :=
  l.machine.networkState = .connected ∧
    ∀ c sendType data, l.pclient = some c → call.message = some (sendType, data) →
      Accepts c e sendType data

/-- A send on a connected link is accepted. -/
def Careful (l : Link) : Action → Prop
  | .status _ _ => True
  | .send e call => l.Connected → Accepted l e call

/-- The language gives the send no meaning: the size of the copy wraps, or the network takes
bytes from behind the send buffer. -/
def Undefined (c : Mqtt.McClient) (e : SendEnv) (sendType : ConnSend) (data : Payload) : Prop :=
  e.malloc = true ∧
    (65536 ≤ data.1.length + 6 ∨
      Mqtt.Sends c (e.topic sendType) (Channel.mqttMessage data) (Channel.mqttMessage e.up.2) ∧
        ¬Mqtt.WritesInside c.bufSend.length
          (Mqtt.publishPacket (e.topic sendType) (Channel.mqttMessage e.up.2)).length
          e.env.writes 0)

/-! ## The message -/

/-- The result is the one that the interface over both channels sees. -/
theorem iotxCommSendMqtt_rst (k : Channel.MqttCall) (sendType : ConnSend) (data : Payload) :
    (Channel.iotxCommSendMqtt k sendType data).map (·.rst) =
      (iotxCommSend k.pclient ⟨k.deviceId, k.malloc, k.up, k.env⟩ sendType data).map (·.rst) := by
  rw [Channel.iotxCommSendMqtt]
  cases k.pclient with
  | none => rfl
  | some c =>
      rw [iotxCommSend]
      dsimp only
      split
      · rfl
      split
      · rfl
      · rw [SendEnv.topic]
        cases Mqtt.iotxMcPublish c (Channel.genMqtTopic k.deviceId sendType.tail)
            (Channel.mqttMessage data) (some (k.up.1, Channel.mqttMessage k.up.2)) k.env with
        | ok r => rfl
        | error err => rfl

/-! ## The client -/

/-- A send makes a request exactly if it is accepted, and fails if it makes none. -/
theorem iotxCommSend_cases (c : Mqtt.McClient) (e : SendEnv) (sendType : ConnSend)
    (data : Payload) :
    (∃ sent, iotxCommSend (some c) e sendType data = .ok sent ∧
      (sent.requests = [] ↔ ¬Accepts c e sendType data) ∧
      (sent.requests = [] → sent.rst < 0)) ∨
    (∃ err, iotxCommSend (some c) e sendType data = .error err) ∧
      Undefined c e sendType data := by
  rw [iotxCommSend]
  split
  next hmalloc =>
    refine Or.inl ⟨_, rfl, ⟨fun _ haccepts => ?_, fun _ => rfl⟩,
      fun _ => show (-1 : Int) < 0 by decide⟩
    exact Bool.false_ne_true (hmalloc.symm.trans haccepts.1)
  next hmalloc =>
    rw [Bool.not_eq_false] at hmalloc
    have hdata := data.2
    split
    next hwrap => exact Or.inr ⟨⟨_, rfl⟩, hmalloc, Or.inl (by omega)⟩
    next hwrap =>
      cases hpublish : Mqtt.iotxMcPublish c (e.topic sendType) (Channel.mqttMessage data)
          (some (e.up.1, Channel.mqttMessage e.up.2)) e.env with
      | ok r =>
          refine Or.inl ⟨_, rfl, ?_, Mqtt.iotxMcPublish_unsent_fails rfl rfl hpublish⟩
          refine (Mqtt.iotxMcPublish_unsent rfl rfl hpublish).trans ?_
          exact ⟨fun hnone haccepts => hnone haccepts.2,
            fun hnone hsome => hnone ⟨hmalloc, hsome⟩⟩
      | error err =>
          refine Or.inr ⟨⟨err, rfl⟩, hmalloc, Or.inr ?_⟩
          have hends : ¬∃ r, Mqtt.iotxMcPublish c (e.topic sendType) (Channel.mqttMessage data)
              (some (e.up.1, Channel.mqttMessage e.up.2)) e.env = .ok r := by
            rintro ⟨r, hr⟩
            cases hpublish.symm.trans hr
          rw [Mqtt.iotxMcPublish_ends rfl rfl] at hends
          exact Classical.not_imp.mp hends

/-! ## The connection state -/

section State

variable {l : Link} {e : SendEnv} {call : SendCall}

theorem told_disconnected {m : Status.Machine} (hconn : m.connState = .connected) :
    (Status.iotxSetConnState m .disconnected []).told = false :: m.told := by
  rw [Status.iotxSetConnState, hconn]
  rfl

/-- Without the network the call is told to the application as a disconnect. -/
theorem enter_down (m : Status.Machine) (sent : Bool) (hdown : m.networkState ≠ .connected)
    (hconn : m.connState = .connected) :
    (Status.enter m (call.statusCall sent)).told = false :: m.told := by
  cases call with
  | sendData data =>
      rw [SendCall.statusCall, Status.enter, Status.iotCommSendData, Status.iotNetworkIsConnected,
        if_pos hdown]
      exact told_disconnected hconn
  | sendActionReply fileType reply progress =>
      rw [SendCall.statusCall, Status.enter, Status.iotCommSendActionReply,
        Status.iotNetworkIsConnected, if_pos hdown]
      exact told_disconnected hconn

/-- So is each failure of a message. -/
theorem enter_failed (m : Status.Machine) (hup : m.networkState = .connected)
    (hconn : m.connState = .connected) (hmessage : call.message ≠ none) :
    (Status.enter m (call.statusCall false)).told = false :: m.told := by
  cases call with
  | sendData data =>
      rw [SendCall.statusCall, Status.enter, Status.iotCommSendData, Status.iotNetworkIsConnected,
        if_neg (not_not.mpr hup), if_neg (not_not.mpr hconn), if_neg Bool.false_ne_true]
      exact told_disconnected hconn
  | sendActionReply fileType reply progress =>
      have hsome : (iotxGetActionReply 128 fileType reply progress).isSome = true := by
        rw [Option.isSome_iff_ne_none]
        intro hnone
        rw [SendCall.message, hnone] at hmessage
        exact hmessage rfl
      rw [SendCall.statusCall, hsome, Status.enter, Status.iotCommSendActionReply,
        Status.iotNetworkIsConnected, if_neg (not_not.mpr hup), if_neg (not_not.mpr hconn),
        if_neg (Bool.false_ne_true ∘ Eq.symm), if_neg Bool.false_ne_true]
      exact told_disconnected hconn

/-- A reply whose text cannot be made leaves the state. -/
theorem enter_unmade (m : Status.Machine) (hup : m.networkState = .connected)
    (hconn : m.connState = .connected) (hmessage : call.message = none) :
    Status.enter m (call.statusCall false) = m := by
  cases call with
  | sendData data => cases hmessage
  | sendActionReply fileType reply progress =>
      rw [SendCall.message, Option.map_eq_none_iff] at hmessage
      rw [SendCall.statusCall, hmessage, Status.enter, Status.iotCommSendActionReply,
        Status.iotNetworkIsConnected, if_neg (not_not.mpr hup), if_neg (not_not.mpr hconn)]
      exact if_pos rfl

/-- A call that was told as a disconnect did not keep the connection. -/
theorem not_kept_of_told {r : Returned}
    (htold : r.link.machine.told = false :: l.machine.told) : ¬Kept l r := fun hkept =>
  List.cons_ne_self _ _ (htold.symm.trans hkept.told)

/-- Where both are connected, a call that comes back keeps the connection if it fails with
nothing given to the socket, exactly if it is accepted. -/
theorem send_keeps_iff (hconn : l.Connected) {r : Returned} (h : call.send l e = .ok r) :
    (FailsUnsent r → Kept l r) ↔ Accepted l e call := by
  obtain ⟨hstate, c, hc, hclient⟩ := hconn
  rw [SendCall.send] at h
  split at h
  next hdown =>
    replace hdown := hdown.resolve_right (not_not.mpr hstate)
    cases h
    refine ⟨fun hkeeps => ?_, fun haccepted => absurd haccepted.1 hdown⟩
    exact absurd (hkeeps ⟨show (-1 : Int) < 0 by decide, rfl⟩)
      (not_kept_of_told (enter_down l.machine false hdown hstate))
  next hup =>
    replace hup := not_not.mp (not_or.mp hup).1
    split at h
    next hnone =>
      cases h
      have hsame := enter_unmade l.machine hup hstate hnone
      refine ⟨fun _ => ⟨hup, fun c' sendType data _ hsome => ?_⟩, fun _ _ => ?_⟩
      · cases hnone.symm.trans hsome
      · exact ⟨⟨(congrArg _ hsame).trans hstate, c, hc, hclient⟩, congrArg _ hsame⟩
    next sendType data hsome =>
      obtain ⟨sent, hsent, h⟩ := bind_eq_ok.mp h
      cases h
      rw [hc] at hsent
      obtain ⟨sent', hsent', hunsent, hfails⟩ | ⟨⟨err, herr⟩, -⟩ :=
        iotxCommSend_cases c e sendType data
      · cases hsent.symm.trans hsent'
        refine ⟨fun hkeeps => ⟨hup, fun c' sendType' data' hc' hsome' => ?_⟩,
          fun haccepted hunsent' => ?_⟩
        · cases hc.symm.trans hc'
          cases hsome.symm.trans hsome'
          by_contra hrefused
          have hrst := hfails (hunsent.mpr hrefused)
          refine not_kept_of_told ?_ (hkeeps ⟨hrst, hunsent.mpr hrefused⟩)
          dsimp only
          rw [decide_eq_false (Int.not_le.mpr hrst)]
          exact enter_failed l.machine hup hstate (hsome ▸ Option.some_ne_none _)
        · exact absurd (haccepted.2 c sendType data hc hsome) (hunsent.mp hunsent'.unsent)
      · cases hsent.symm.trans herr

/-- A call that does not come back is one that the language gives no meaning. -/
theorem send_error {err : Fault} (h : call.send l e = .error err) :
    ∃ c sendType data, l.pclient = some c ∧ call.message = some (sendType, data) ∧
      Undefined c e sendType data := by
  rw [SendCall.send] at h
  split at h
  · cases h
  split at h
  · cases h
  next sendType data hsome =>
    cases hc : l.pclient with
    | none =>
        rw [hc] at h
        cases h
    | some c =>
        rw [hc] at h
        obtain ⟨sent, hsent, -⟩ | ⟨-, hundefined⟩ := iotxCommSend_cases c e sendType data
        · rw [hsent] at h
          cases h
        · exact ⟨c, sendType, data, rfl, hsome, hundefined⟩

/-- What a call does to the connection state. -/
theorem send_machine {r : Returned} (h : call.send l e = .ok r) :
    ∃ sent, r.link.machine = Status.enter l.machine (call.statusCall sent) := by
  rw [SendCall.send] at h
  split at h
  · cases h
    exact ⟨false, rfl⟩
  split at h
  · cases h
    exact ⟨false, rfl⟩
  · obtain ⟨sent, -, h⟩ := bind_eq_ok.mp h
    cases h
    exact ⟨_, rfl⟩

/-- The connection state of a link does what `iotx_comm_if_api.c` does. -/
theorem step_machine {a : Action} {l' : Link} (h : step l a = .ok l') :
    ∃ a', Status.step l.machine a' = .ok l'.machine := by
  cases a with
  | status a pclient =>
      rw [step] at h
      split at h
      · cases h
      split at h
      next machine hmachine =>
        cases h
        exact ⟨a, hmachine⟩
      next => cases h
  | send e call =>
      rw [step] at h
      split at h
      next hpossible =>
        split at h
        next r hr =>
          cases h
          obtain ⟨sent, hsent⟩ := send_machine hr
          have hpossible' : (call.statusCall sent).possible l.machine.frames.head? = true := by
            cases call with
            | sendData data => exact hpossible
            | sendActionReply fileType reply progress => exact hpossible
          refine ⟨.call (call.statusCall sent), ?_⟩
          rw [Status.step, if_pos hpossible', hsent]
        next => cases h
      next => cases h

/-- So what a link reaches, the connection state reaches. -/
theorem run_machine {actions : List Action} {l' : Link} (h : Runs.run step l actions = .ok l') :
    ∃ as, Runs.run Status.step l.machine as = .ok l'.machine := by
  induction actions generalizing l with
  | nil =>
      cases h
      exact ⟨[], rfl⟩
  | cons a actions ih =>
      obtain ⟨t, hstep, h⟩ := Runs.run_cons.mp h
      obtain ⟨a', ha'⟩ := step_machine hstep
      obtain ⟨as, has⟩ := ih h
      exact ⟨a' :: as, Runs.run_cons.mpr ⟨_, ha', has⟩⟩

/-- A send of a run keeps the connection exactly if it is accepted. -/
theorem step_keeps_iff {a : Action} {l' : Link} (h : step l a = .ok l') :
    Keeps l a ↔ Careful l a := by
  cases a with
  | status a pclient => exact Iff.rfl
  | send e call =>
      have hsend : ∃ r, call.send l e = .ok r := by
        rw [step] at h
        split at h
        · split at h
          next r hr => exact ⟨r, hr⟩
          next => cases h
        · cases h
      obtain ⟨r, hr⟩ := hsend
      refine forall_congr' fun hconn => ?_
      rw [← send_keeps_iff hconn hr]
      refine ⟨fun hkeeps => hkeeps r hr, fun hkeeps r' hr' => ?_⟩
      cases hr.symm.trans hr'
      exact hkeeps

end State

/-- The network comes up, and the client connects. -/
def connecting (c : Mqtt.McClient) : List Action :=
  [.status (.call (.setNetworkState .connected)) none, .status .callbackReturns none,
    .status (.call .connect) none, .status (.connectReturns true) (some c),
    .status .callbackReturns (some c)]

def connectedLink (c : Mqtt.McClient) : Link :=
  ⟨⟨.connected, .connected, [], [true], [true], 1⟩, some c⟩

theorem run_connecting (c : Mqtt.McClient) :
    Runs.run step .initial (connecting c) = .ok (connectedLink c) := rfl

/-- In a run the sends that fail with nothing given to the socket keep the connection, exactly
if every send on a connected link is accepted. -/
theorem run_keeps_iff {actions : List Action} {l : Link}
    (hrun : Runs.run step .initial actions = .ok l) :
    Runs.Guarded step Keeps .initial actions ↔ Runs.Guarded step Careful .initial actions :=
  Runs.guarded_congr step_keeps_iff hrun

/-- One byte of data, of which the hook leaves one, on a network that takes the 19 bytes of the
packet. -/
def sendingByte : Action :=
  .send ⟨[55], true, (0, ⟨[1], by decide⟩), ⟨true, true, [19]⟩⟩ (.sendData ⟨[1], by decide⟩)

theorem step_sendingByte :
    ∃ l, step (connectedLink Mqtt.sendingClient) sendingByte = .ok l := by
  cases h : step (connectedLink Mqtt.sendingClient) sendingByte with
  | ok l => exact ⟨l, rfl⟩
  | error stop =>
      have hok : (step (connectedLink Mqtt.sendingClient) sendingByte).isOk = true := by
        decide +kernel
      rw [h] at hok
      exact absurd hok Bool.false_ne_true

theorem accepted_sendingByte : Careful (connectedLink Mqtt.sendingClient) sendingByte := by
  intro _
  refine ⟨rfl, fun c sendType data hc hmessage => ?_⟩
  cases hc
  cases hmessage
  refine ⟨rfl, by decide, ?_⟩
  rw [Mqtt.Sends]
  decide +kernel

theorem run_keeps_sendingByte :
    ∃ l, Runs.run step .initial (connecting Mqtt.sendingClient ++ [sendingByte]) = .ok l ∧
      Runs.Guarded step Keeps .initial (connecting Mqtt.sendingClient ++ [sendingByte]) := by
  obtain ⟨l, hstep⟩ := step_sendingByte
  have hrun : Runs.run step .initial (connecting Mqtt.sendingClient ++ [sendingByte]) = .ok l :=
    Runs.run_append.mpr ⟨_, run_connecting Mqtt.sendingClient, Runs.run_cons.mpr ⟨l, hstep, rfl⟩⟩
  refine ⟨l, hrun, (run_keeps_iff hrun).mpr ?_⟩
  refine ⟨trivial, fun t₁ h₁ => ⟨trivial, fun t₂ h₂ => ⟨trivial, fun t₃ h₃ => ⟨trivial,
    fun t₄ h₄ => ⟨trivial, fun t₅ h₅ => ⟨?_, fun _ _ => trivial⟩⟩⟩⟩⟩⟩
  cases h₁
  cases h₂
  cases h₃
  cases h₄
  cases h₅
  exact accepted_sendingByte

/-- A client with the write buffer that `iotx_comm_connect` gives it. -/
def commClient : Mqtt.McClient := { Mqtt.sendingClient with bufSend := List.replicate 1024 0 }

/-- Data that is longer than the write buffer. -/
def longData : Payload := ⟨List.replicate 1100 0, by rw [List.length_replicate]; decide⟩

def longEnv : SendEnv := ⟨[55], true, (0, longData), ⟨true, true, [1117]⟩⟩

def sendingLong : Action := .send longEnv (.sendData longData)

theorem step_sendingLong {l : Link} {r : Returned} (hframes : l.machine.frames = [])
    (h : (SendCall.sendData longData).send l longEnv = .ok r) :
    step l sendingLong = .ok r.link := by
  rw [sendingLong, step, hframes, if_pos (show Status.Call.possible _ _ = true from rfl), h]

/-- `MQTTPublish` has no room for the packet, and asks nothing of the socket.  The connection
is given up all the same. -/
theorem not_run_keeps :
    ¬∀ actions l, Runs.run step .initial actions = .ok l →
      Runs.Guarded step Keeps .initial actions := by
  intro h
  have hroom : Mqtt.NoRoom commClient (longEnv.topic .sendData)
      (Channel.mqttMessage longData) := by
    decide +kernel
  have hconn : (connectedLink commClient).Connected := ⟨rfl, commClient, rfl, rfl⟩
  cases hsend : (SendCall.sendData longData).send (connectedLink commClient) longEnv with
  | error err =>
      obtain ⟨c, sendType, data, hc, hmessage, -, hundefined⟩ := send_error hsend
      cases hc
      cases hmessage
      obtain hlong | ⟨hsends, -⟩ := hundefined
      · rw [longData, List.length_replicate] at hlong
        exact absurd hlong (by decide)
      · exact hsends.2 hroom
  | ok r =>
      have hrun : Runs.run step (connectedLink commClient) [sendingLong] = .ok r.link :=
        Runs.run_cons.mpr ⟨r.link, step_sendingLong rfl hsend, rfl⟩
      have hguard := h (connecting commClient ++ [sendingLong]) r.link
        (Runs.run_append.mpr ⟨_, run_connecting commClient, hrun⟩)
      have hkeeps := (hguard.append_right (run_connecting commClient)).1
      have haccepted := (send_keeps_iff hconn hsend).mp (hkeeps hconn r hsend)
      exact (haccepted.2 commClient .sendData longData rfl rfl).2.2.2 hroom

end IotKit.CommIf.Refusal
