import IotKit.Mqtt.Connect

/-!
# One pass of `IOT_MQTT_Yield`

`iotx_mc_keepalive` sends a ping or goes on reconnecting, `iotx_mc_cycle` reads a packet, and
where it succeeds the two sweeps go over the pending requests.  The waiting times of the
reconnection are left out: an attempt is made in every pass that finds the client reconnecting.

Calls of the application, in a callback or in another task, come between the parts of a pass.
What happens to the connection does not depend on the list of the pending subscriptions, which is
an input of each part.

`Quiet` says what all of this but the keep-alive leaves alone.
-/

namespace IotKit.Mqtt

open CMemory Runs Connect

/-! ## The source -/

/-- `MQTTKeepalive`. -/
def mqttKeepalive (c : McClient) (writes : List Int) : Checked (Int × McClient) := do
  let (len, bufSend) ← mqttSerializeZero c.bufSend pingreq
  let c := { c with bufSend }
  if len ≤ 0 then .ok (mqttPingPacketError, c)
  else do
    let res ← iotxMcSendPacket c.bufSend len.toNat writes
    .ok (if res.rc ≠ successReturn then mqttNetworkError else successReturn, c)

/-- What `iotx_mc_keepalive_sub` leaves, and whether it sent a ping. -/
structure PingResult where
  rc : Int
  client : McClient
  sent : Bool

/-- `iotx_mc_keepalive_sub`.  `expired` says whether the time of the next ping has come. -/
def iotxMcKeepaliveSub (c : McClient) (expired : Bool) (writes : List Int) :
    Checked PingResult :=
  if c.clientState ≠ .connected then .ok ⟨successReturn, c, false⟩
  else if expired = false then .ok ⟨successReturn, c, false⟩
  else do
    let (rc, c) ← mqttKeepalive c writes
    if rc ≠ successReturn then
      .ok ⟨rc, if rc = mqttNetworkError then iotxMcSetClientState c .disconnected else c, false⟩
    else
      .ok ⟨successReturn,
        { c with pingMark := 1, keepaliveProbes := c.keepaliveProbes + 1 }, true⟩

/-- `iotx_mc_handle_reconnect` from the end of its wait on. -/
def iotxMcHandleReconnect (c : McClient) (connectData : ConnectData) (env : ConnectEnv) :
    Checked ConnectResult := do
  let r ← iotxMcConnect c connectData env
  if r.rc = successReturn then
    .ok { r with client := iotxMcSetClientState r.client .connected }
  else .ok r

/-- What `iotx_mc_keepalive` leaves, whether it sent a ping, and whether it established a
connection. -/
structure KeepaliveResult where
  client : McClient
  pinged : Bool
  established : Bool

/-- `iotx_mc_keepalive` from the test of the state on. -/
def goOnReconnecting (connectData : ConnectData) (ping : PingResult) (env : ConnectEnv) :
    Checked KeepaliveResult :=
  match ping.client.clientState with
  | .disconnectedReconnecting => do
      let r ← iotxMcHandleReconnect { ping.client with pingMark := 0 } connectData env
      .ok ⟨r.client, ping.sent, r.client.clientState = .connected⟩
  | .disconnected =>
      .ok ⟨iotxMcSetClientState ping.client .disconnectedReconnecting, ping.sent, false⟩
  | _ => .ok ⟨ping.client, ping.sent, false⟩

/-- A call of the application. -/
inductive AppCall where
  | subscribe (topicFilter : Option Bytes) (qos : Nat) (messageHandler : EventHandle)
      (env : PublishEnv)
  | unsubscribe (topicFilter : Option Bytes) (env : PublishEnv)
  | publish (topicName : Option Bytes) (msg : Message)
      (up : Option (Int × { payload : Bytes // payload.length < 65536 })) (env : PublishEnv)

def AppCall.operation : AppCall → Operation
  | .subscribe topicFilter qos messageHandler env => .subscribe topicFilter qos messageHandler env
  | .unsubscribe topicFilter env => .unsubscribe topicFilter env
  | .publish topicName msg up env => .publish topicName msg up env

/-- One call, with the list of the pending subscriptions it meets. -/
def appCall (c : McClient) (call : AppCall × List SubInfo) : Checked McClient := do
  let c ← operate ⟨c, call.2⟩ call.1.operation
  .ok c.toMcClient

/-- What one pass meets. -/
structure Pass where
  pingExpired : Bool
  pingWrites : List Int
  connect : ConnectEnv
  /-- The calls up to `iotx_mc_cycle`. -/
  callsBefore : List (AppCall × List SubInfo)
  indeterminate : Nat
  world : World
  subs : List SubInfo
  receive : ReceiveEnv
  /-- The calls from `iotx_mc_cycle` on. -/
  callsAfter : List (AppCall × List SubInfo)
  pubIterator : Bool
  pubWrites : List (Option (List Int))
  subIterator : Bool
  subExpired : List Bool

/-- `iotx_mc_keepalive`. -/
def iotxMcKeepalive (reconnectOpen : Bool) (connectData : ConnectData) (c : McClient) (i : Pass) :
    Checked KeepaliveResult := do
  let ping ← iotxMcKeepaliveSub c i.pingExpired i.pingWrites
  if reconnectOpen = false then .ok ⟨ping.client, ping.sent, false⟩
  else goOnReconnecting connectData ping i.connect

/-- The packet handlers. -/
def packetHandlers (subs : List SubInfo) (env : ReceiveEnv) : Handlers
  | .puback, c => do
      let r ← iotxMcHandleRecvPuback ⟨c, subs⟩ env.ack
      .ok (r.rc, r.client.toMcClient)
  | .suback, c => do
      let r ← iotxMcHandleRecvSuback ⟨c, subs⟩ env.ack
      .ok (r.rc, r.client.toMcClient)
  | .publish, c => do
      let r ← iotxMcHandleRecvPublish env.down () c env.writes
      .ok (r.rc, r.client)
  | .unsuback, c => do
      let r ← iotxMcHandleRecvUnsuback ⟨c, subs⟩ env.ack
      .ok (r.rc, r.client.toMcClient)

/-- The sweeps, which come where `iotx_mc_cycle` succeeds. -/
def sweeps (r : CycleResult) (i : Pass) : Checked McClient :=
  if r.rc = successReturn then do
    let c ← mqttPubInfoProc ⟨r.client, i.subs⟩ i.pubIterator i.pubWrites
    let (c, _) := mqttSubInfoProc c i.subIterator i.subExpired
    .ok c.toMcClient
  else .ok r.client

/-- What one pass leaves, with the client that `iotx_mc_cycle` was called for. -/
structure PassResult where
  keepalive : KeepaliveResult
  entered : McClient
  client : McClient

/-- One pass of the loop of `IOT_MQTT_Yield`. -/
def yieldPass (reconnectOpen : Bool) (connectData : ConnectData) (c : McClient) (i : Pass) :
    Checked PassResult := do
  let keepalive ← iotxMcKeepalive reconnectOpen connectData c i
  let entered ← run appCall keepalive.client i.callsBefore
  let r ← iotxMcCycle (packetHandlers i.subs i.receive) entered i.indeterminate i.world
  let swept ← sweeps r i
  let client ← run appCall swept i.callsAfter
  .ok ⟨keepalive, entered, client⟩

/-! ## What leaves the keep-alive alone -/

/-- The probes are as before, and a connection is not established. -/
structure Quiet (c c' : McClient) : Prop where
  probes : c'.keepaliveProbes = c.keepaliveProbes
  connected : c'.clientState = .connected → c.clientState = .connected

theorem Quiet.refl (c : McClient) : Quiet c c := ⟨rfl, id⟩

/-- Calls that do not connect compose. -/
theorem Quiet.trans {c₁ c₂ c₃ : McClient} (h : Quiet c₁ c₂) (h' : Quiet c₂ c₃) : Quiet c₁ c₃ :=
  ⟨h'.probes.trans h.probes, h.connected ∘ h'.connected⟩

/-- The client is disconnected. -/
theorem Quiet.lost {c c' : McClient} (h : Quiet c c') :
    Quiet c (iotxMcSetClientState c' .disconnected) :=
  ⟨h.probes, nofun⟩

section Requests

variable {c : McClient}

/-- A packet id that is given out is no connection. -/
theorem assignPacketId_quiet (msg : Message) : Quiet c (assignPacketId c msg).2.1 := by
  rw [assignPacketId]
  split
  · exact ⟨rfl, id⟩
  · exact .refl c

theorem iotxMcPushPubInfoTo_quiet {pushed : McClient} {len msgId : Nat} {env : PublishEnv}
    (h : iotxMcPushPubInfoTo c len msgId env = some pushed) : Quiet c pushed := by
  rw [iotxMcPushPubInfoTo] at h
  split at h
  · cases h
  split at h
  · cases h
  split at h
  · cases h
  split at h
  · cases h
  · cases h
    exact ⟨rfl, id⟩

/-- A publish may lose the connection and does not make one. -/
theorem mqttPublish_quiet {topicName : Bytes} {msg : Message} {env : PublishEnv}
    {r : PublishResult} (h : mqttPublish c topicName msg env = .ok r) : Quiet c r.client := by
  obtain ⟨⟨len, bufSend⟩, -, h⟩ := bind_eq_ok.mp h
  have hserialized : Quiet c { c with bufSend } := ⟨rfl, id⟩
  dsimp only at h
  split at h
  · cases h
    exact hserialized
  split at h
  next =>
    cases h
    exact hserialized
  next pushed hpush =>
    have hpushed : Quiet { c with bufSend } pushed := by
      split at hpush
      · exact iotxMcPushPubInfoTo_quiet hpush
      · cases hpush
        exact .refl _
    obtain ⟨sent, -, h⟩ := bind_eq_ok.mp h
    split at h
    · cases h
      exact hserialized
    · cases h
      exact hserialized.trans hpushed

theorem iotxMcPublish_quiet {topicName : Bytes} {msg : Message} {up : Option (Int × Message)}
    {env : PublishEnv} {r : PublishResult} (h : iotxMcPublish c topicName msg up env = .ok r) :
    Quiet c r.client := by
  rw [iotxMcPublish] at h
  split at h
  · cases h
    exact .refl c
  split at h
  · cases h
    exact .refl c
  have hassigned := assignPacketId_quiet (c := c) msg
  split at h
  next msgId c₁ msg₁ heq =>
    rw [heq] at hassigned
    split at h
    · cases h
      exact hassigned
    · obtain ⟨r₁, hpublish, h⟩ := bind_eq_ok.mp h
      have hquiet := hassigned.trans (mqttPublish_quiet hpublish)
      split at h
      · cases h
        exact hquiet.lost
      · split at h
        · cases h
          exact hquiet
        · cases h
          exact hquiet

theorem requestDone_quiet {msgId : Nat} {r : RequestResult}
    (h : Quiet c r.client.toMcClient) : Quiet c (requestDone msgId r).client.toMcClient := by
  rw [requestDone]
  split
  · refine ⟨h.probes, fun hconnected => ?_⟩
    cases hconnected
  · split
    · exact h
    · exact h

/-- So may a request. -/
theorem sendRequest_quiet {c₁ : SubClient} {packetError len : Int} {msgId : Nat}
    {type : RequestType} {handler : TopicHandle} {env : PublishEnv} {r : RequestResult}
    (h : sendRequest c₁ packetError len msgId type handler env = .ok r)
    (hc : Quiet c c₁.toMcClient) : Quiet c (requestDone msgId r).client.toMcClient :=
  requestDone_quiet ((sendRequest_client h).1 ▸ hc)

theorem iotxMcSubscribe_quiet {c : SubClient} {topicFilter : Bytes} {qos : Nat}
    {messageHandler : EventHandle} {env : PublishEnv} {r : RequestResult}
    (h : iotxMcSubscribe c topicFilter qos messageHandler env = .ok r) :
    Quiet c.toMcClient r.client.toMcClient := by
  rw [iotxMcSubscribe] at h
  split at h
  · cases h
    exact .refl _
  split at h
  · cases h
    exact .refl _
  obtain ⟨r₁, hsubscribe, h⟩ := bind_eq_ok.mp h
  obtain ⟨⟨len, bufSend⟩, -, hsend⟩ := bind_eq_ok.mp hsubscribe
  cases h
  exact sendRequest_quiet hsend ⟨rfl, id⟩

theorem iotxMcUnsubscribe_quiet {c : SubClient} {topicFilter : Bytes} {env : PublishEnv}
    {r : RequestResult} (h : iotxMcUnsubscribe c topicFilter env = .ok r) :
    Quiet c.toMcClient r.client.toMcClient := by
  rw [iotxMcUnsubscribe] at h
  dsimp only at h
  split at h
  · cases h
    exact ⟨rfl, id⟩
  split at h
  · cases h
    exact ⟨rfl, id⟩
  obtain ⟨r₁, hunsubscribe, h⟩ := bind_eq_ok.mp h
  obtain ⟨⟨len, bufSend⟩, -, hsend⟩ := bind_eq_ok.mp hunsubscribe
  cases h
  exact sendRequest_quiet hsend ⟨rfl, id⟩

end Requests

/-- The application's calls leave the keep-alive alone. -/
theorem appCall_quiet {c c' : McClient} {call : AppCall × List SubInfo}
    (h : appCall c call = .ok c') : Quiet c c' := by
  obtain ⟨call, subs⟩ := call
  obtain ⟨c₁, hop, h⟩ := bind_eq_ok.mp h
  cases h
  cases call with
  | subscribe topicFilter qos messageHandler env =>
      obtain ⟨r, hrun, h⟩ := bind_eq_ok.mp hop
      cases h
      rw [iotMqttSubscribe] at hrun
      split at hrun
      · cases hrun
        exact .refl _
      split at hrun
      · cases hrun
        exact .refl _
      · exact iotxMcSubscribe_quiet hrun
  | unsubscribe topicFilter env =>
      obtain ⟨r, hrun, h⟩ := bind_eq_ok.mp hop
      cases h
      rw [iotMqttUnsubscribe] at hrun
      split at hrun
      · cases hrun
        exact .refl _
      · exact iotxMcUnsubscribe_quiet hrun
  | publish topicName msg up env =>
      obtain ⟨r, hrun, h⟩ := bind_eq_ok.mp hop
      cases h
      rw [iotMqttPublish] at hrun
      split at hrun
      · cases hrun
        exact .refl _
      · obtain ⟨r₁, hpublish, hrun⟩ := bind_eq_ok.mp hrun
        cases hrun
        exact iotxMcPublish_quiet hpublish

/-- Nor do the calls of the application. -/
theorem appCalls_quiet {c c' : McClient} {calls : List (AppCall × List SubInfo)}
    (h : run appCall c calls = .ok c') : Quiet c c' :=
  @run_rel _ _ _ _ (fun _ => True) Quiet Quiet.refl Quiet.trans
    (fun _ hstep => ⟨appCall_quiet hstep, trivial⟩) _ _ _ trivial h

/-! ### The packet handlers -/

theorem mqttPuback_quiet {c c' : McClient} {msgId type : Nat} {writes : List Int} {rc : Int}
    (h : mqttPuback c msgId type writes = .ok (rc, c')) : Quiet c c' := by
  obtain ⟨⟨len, bufSend⟩, -, h⟩ := bind_eq_ok.mp h
  dsimp only at h
  split at h
  · cases h
    exact ⟨rfl, id⟩
  · obtain ⟨sent, -, h⟩ := bind_eq_ok.mp h
    split at h
    · cases h
      exact ⟨rfl, id⟩
    · cases h
      exact ⟨rfl, id⟩

/-- An acknowledgement may lose the connection. -/
theorem acknowledge_quiet {c c' : McClient} {qos packetid : Nat} {writes : List Int} {rc : Int}
    (h : acknowledge c qos packetid writes = .ok (rc, c')) : Quiet c c' := by
  rw [acknowledge] at h
  split at h
  · cases h
    exact .refl c
  split at h
  · exact mqttPuback_quiet h
  split at h
  · exact mqttPuback_quiet h
  · cases h
    exact .refl c

/-- A search of the list leaves the client. -/
theorem iotxMcMaskSubInfoFrom_client (c : SubClient) (iterator : Bool) (msgId : Nat)
    (messageHandler : TopicHandle) :
    (iotxMcMaskSubInfoFrom c iterator msgId messageHandler).2.toMcClient = c.toMcClient := by
  rw [iotxMcMaskSubInfoFrom]
  split
  · rfl
  · rfl

/-- An entry of the table is no connection. -/
theorem register_quiet {c : SubClient} {messagehandler : TopicHandle} {mypacketid : Nat}
    {r : AckResult} (h : register c messagehandler mypacketid = .ok r) :
    Quiet c.toMcClient r.client.toMcClient := by
  obtain ⟨⟨flagDup, iFree⟩, -, h⟩ := bind_eq_ok.mp h
  dsimp only at h
  split at h
  · cases h
    exact .refl _
  split at h
  · cases h
    exact .refl _
  split at h
  · cases h
    exact ⟨rfl, id⟩
  · cases h

theorem iotxMcMaskSubInfoFrom_quiet {c c' : SubClient} {iterator : Bool} {msgId : Nat}
    {messageHandler messageHandler' : TopicHandle}
    (h : iotxMcMaskSubInfoFrom c iterator msgId messageHandler = (messageHandler', c')) :
    Quiet c.toMcClient c'.toMcClient := by
  have hmask := iotxMcMaskSubInfoFrom_client c iterator msgId messageHandler
  rw [h] at hmask
  exact hmask ▸ .refl _

theorem iotxMcHandleRecvPuback_quiet {c : SubClient} {env : AckEnv} {r : AckResult}
    (h : iotxMcHandleRecvPuback c env = .ok r) : Quiet c.toMcClient r.client.toMcClient := by
  obtain ⟨⟨rc, _, _, id⟩, -, h⟩ := bind_eq_ok.mp h
  dsimp only at h
  split at h
  · cases h
    exact .refl _
  · cases h
    rw [iotxMcMaskPubInfoFrom]
    split
    · exact .refl _
    · exact ⟨rfl, fun h => h⟩

theorem iotxMcHandleRecvSuback_quiet {c : SubClient} {env : AckEnv} {r : AckResult}
    (h : iotxMcHandleRecvSuback c env = .ok r) : Quiet c.toMcClient r.client.toMcClient := by
  obtain ⟨⟨rc, mypacketid, _, grantedQoSs⟩, -, h⟩ := bind_eq_ok.mp h
  dsimp only at h
  split at h
  · cases h
    exact .refl _
  generalize hmask : iotxMcMaskSubInfoFrom c env.iterator mypacketid .zero = masked at h
  obtain ⟨messagehandler, c₁⟩ := masked
  have hquiet := iotxMcMaskSubInfoFrom_quiet hmask
  dsimp only at h
  split at h
  · cases h
    exact hquiet
  split at h
  · cases h
    exact hquiet
  · exact hquiet.trans (register_quiet h)

/-- A message that is received may lose the connection as it is acknowledged. -/
theorem iotxMcHandleRecvPublish_quiet {σ : Type} {down : Option (DownProcess σ)} {s : σ}
    {c : McClient} {writes : List Int} {r : RecvResult σ}
    (h : iotxMcHandleRecvPublish down s c writes = .ok r) : Quiet c r.client := by
  obtain ⟨⟨rc, fields⟩, -, h⟩ := bind_eq_ok.mp h
  dsimp only at h
  split at h
  · cases h
    exact .refl _
  · obtain ⟨⟨_, bufRead, payload⟩, -, h⟩ := bind_eq_ok.mp h
    obtain ⟨calls, -, h⟩ := bind_eq_ok.mp h
    obtain ⟨⟨rc', c₁⟩, hack, h⟩ := bind_eq_ok.mp h
    cases h
    have hquiet := acknowledge_quiet hack
    exact ⟨hquiet.probes, hquiet.connected⟩

theorem iotxMcHandleRecvUnsuback_quiet {c : SubClient} {env : AckEnv} {r : AckResult}
    (h : iotxMcHandleRecvUnsuback c env = .ok r) : Quiet c.toMcClient r.client.toMcClient := by
  obtain ⟨⟨rc, mypacketid⟩, -, h⟩ := bind_eq_ok.mp h
  dsimp only at h
  split at h
  · cases h
    exact .refl _
  generalize hmask : iotxMcMaskSubInfoFrom c env.iterator mypacketid env.messageHandler = masked
    at h
  obtain ⟨messageHandler, c₁⟩ := masked
  have hquiet := iotxMcMaskSubInfoFrom_quiet hmask
  obtain ⟨c₂, hremove, h⟩ := bind_eq_ok.mp h
  cases h
  rw [removeHandles] at hremove
  split at hremove
  · cases hremove
  · cases hremove
    exact ⟨hquiet.probes, hquiet.connected⟩

/-- None of the handlers makes a connection. -/
theorem packetHandlers_quiet {subs : List SubInfo} {env : ReceiveEnv} {handler : PacketHandler}
    {c c' : McClient} {rc : Int} (h : packetHandlers subs env handler c = .ok (rc, c')) :
    Quiet c c' := by
  cases handler with
  | puback =>
      obtain ⟨r, hrun, h⟩ := bind_eq_ok.mp h
      cases h
      exact iotxMcHandleRecvPuback_quiet hrun
  | suback =>
      obtain ⟨r, hrun, h⟩ := bind_eq_ok.mp h
      cases h
      exact iotxMcHandleRecvSuback_quiet hrun
  | publish =>
      obtain ⟨r, hrun, h⟩ := bind_eq_ok.mp h
      cases h
      exact iotxMcHandleRecvPublish_quiet hrun
  | unsuback =>
      obtain ⟨r, hrun, h⟩ := bind_eq_ok.mp h
      cases h
      exact iotxMcHandleRecvUnsuback_quiet hrun

/-- A packet that is handled makes no connection. -/
theorem dispatch_quiet {subs : List SubInfo} {env : ReceiveEnv} {c : McClient} {packetType : Nat}
    {w : World} {r : CycleResult}
    (h : dispatch (packetHandlers subs env) c packetType w = .ok r) : Quiet c r.client := by
  have hcall : ∀ {handler : PacketHandler},
      (do
        let (rc, c') ← packetHandlers subs env handler c
        .ok ⟨rc, c', some handler, w⟩ : Checked CycleResult) = .ok r → Quiet c r.client := by
    intro handler hrun
    obtain ⟨⟨rc, c'⟩, hhandler, hrun⟩ := bind_eq_ok.mp hrun
    cases hrun
    exact packetHandlers_quiet hhandler
  have hskip : ∀ {rc : Int}, (.ok ⟨rc, c, none, w⟩ : Checked CycleResult) = .ok r →
      Quiet c r.client := by
    intro rc hrun
    cases hrun
    exact .refl c
  rw [dispatch] at h
  split at h
  · exact hskip h
  split at h
  · exact hcall h
  split at h
  · exact hcall h
  split at h
  · exact hcall h
  split at h
  · exact hcall h
  split at h
  · exact hskip h
  · exact hskip h

/-- The sweeps may lose the connection. -/
theorem sweeps_quiet {r : CycleResult} {c : McClient} {i : Pass} (h : sweeps r i = .ok c) :
    Quiet r.client c := by
  rw [sweeps] at h
  split at h
  · obtain ⟨c₁, hpub, h⟩ := bind_eq_ok.mp h
    have hquiet : Quiet r.client c₁.toMcClient := by
      rw [mqttPubInfoProc] at hpub
      split at hpub
      · cases hpub
        exact .refl _
      · obtain ⟨⟨listPubWaitAck, failed⟩, -, hpub⟩ := bind_eq_ok.mp hpub
        cases hpub
        cases failed with
        | true => exact ⟨rfl, nofun⟩
        | false => exact ⟨rfl, id⟩
    have hsub : (mqttSubInfoProc c₁ i.subIterator i.subExpired).1.toMcClient = c₁.toMcClient := by
      rw [mqttSubInfoProc]
      split
      · rfl
      · rfl
    cases h
    rw [← hsub] at hquiet
    exact hquiet
  · cases h
    exact .refl _

end IotKit.Mqtt
