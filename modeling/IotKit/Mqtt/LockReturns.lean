import IotKit.Mqtt.LockDiscipline
import IotKit.Mqtt.Ack
import IotKit.Mqtt.Read

/-!
# What the functions with their mutexes return

`Lock` takes what a function finds as an input and has none of the packets.  Whatever the
function returns that has them, the one with the mutexes returns for some input, if it is
entered with none held.
-/

namespace IotKit.Mqtt.Lock

open MutexTrace CMemory

/-! ## Sending -/

section Sending

variable {packetError : Int}

theorem sendPacket_returns (packetError : Int) (o : Sending) :
    Returns (o.rc packetError) (sendPacket packetError o) :=
  .of_touch _ (sendPacket_eq packetError o)

theorem sendRequest_returns (packetError : Int) (o : Request) :
    Returns (o.rc packetError true) (sendRequest packetError o) := by
  obtain ⟨ms, h⟩ := sendRequest_touches packetError o
  exact .of_touch ms h

theorem mqttPublish_returns (qos : Nat) (o : Request) :
    Returns (o.rc mqttPublishPacketError (0 < qos)) (mqttPublish qos o) := by
  obtain ⟨ms, h⟩ := mqttPublish_touches qos o
  exact .of_touch ms h

/-- `MQTTPublish` with its packet. -/
theorem mqttPublish_returned {c : McClient} {topicName : Bytes} {msg : Message} {env : PublishEnv}
    {r : PublishResult} (h : Mqtt.mqttPublish c topicName msg env = .ok r) :
    ∃ o, Returns r.rc (mqttPublish msg.qos o) := by
  suffices hrc : ∃ o : Request, o.rc mqttPublishPacketError (0 < msg.qos) = r.rc by
    obtain ⟨o, hrc⟩ := hrc
    exact ⟨o, hrc ▸ mqttPublish_returns msg.qos o⟩
  obtain ⟨⟨len, bufSend⟩, -, h⟩ := bind_eq_ok.mp h
  dsimp only at h
  split at h
  next =>
    cases h
    exact ⟨⟨⟨false, false⟩, .full⟩, rfl⟩
  next =>
    split at h
    next hpush =>
      cases h
      by_cases hqos : 0 < msg.qos
      · exact ⟨⟨⟨true, false⟩, .full⟩, by simp [Request.rc, hqos]⟩
      · rw [if_neg hqos] at hpush
        cases hpush
    next =>
      obtain ⟨sent, -, h⟩ := bind_eq_ok.mp h
      split at h
      next =>
        cases h
        exact ⟨⟨⟨true, false⟩, .pushed⟩, by simp [Request.rc, Sending.rc]⟩
      next =>
        cases h
        exact ⟨⟨⟨true, true⟩, .pushed⟩, by simp [Request.rc, Sending.rc]⟩

/-- `MQTTSubscribe` and `MQTTUnsubscribe` with their packet. -/
theorem sendRequest_returned {c : SubClient} {len : Int} {msgId : Nat} {type : RequestType}
    {handler : TopicHandle} {env : PublishEnv} {r : RequestResult}
    (h : Mqtt.sendRequest c packetError len msgId type handler env = .ok r) :
    ∃ o, Returns r.rc (sendRequest packetError o) := by
  suffices hrc : ∃ o : Request, o.rc packetError true = r.rc by
    obtain ⟨o, hrc⟩ := hrc
    exact ⟨o, hrc ▸ sendRequest_returns packetError o⟩
  rw [Mqtt.sendRequest] at h
  split at h
  next =>
    cases h
    exact ⟨⟨⟨false, false⟩, .full⟩, rfl⟩
  next =>
    split at h
    next =>
      cases h
      exact ⟨⟨⟨true, false⟩, .full⟩, rfl⟩
    next =>
      obtain ⟨sent, -, h⟩ := bind_eq_ok.mp h
      split at h
      next =>
        cases h
        exact ⟨⟨⟨true, false⟩, .pushed⟩, rfl⟩
      next =>
        cases h
        exact ⟨⟨⟨true, true⟩, .pushed⟩, rfl⟩

theorem mqttSubscribe_returned {c : SubClient} {topicFilter : Bytes} {qos msgId : Nat}
    {messageHandler : EventHandle} {env : PublishEnv} {r : RequestResult}
    (h : Mqtt.mqttSubscribe c topicFilter qos msgId messageHandler env = .ok r) :
    ∃ o, Returns r.rc (mqttSubscribe o) := by
  obtain ⟨_, -, h⟩ := bind_eq_ok.mp h
  exact sendRequest_returned h

theorem mqttUnsubscribe_returned {c : SubClient} {topicFilter : Bytes} {msgId : Nat}
    {env : PublishEnv} {r : RequestResult}
    (h : Mqtt.mqttUnsubscribe c topicFilter msgId env = .ok r) :
    ∃ o, Returns r.rc (mqttUnsubscribe o) := by
  obtain ⟨_, -, h⟩ := bind_eq_ok.mp h
  exact sendRequest_returned h

/-- `MQTTPuback` with its packet. -/
theorem mqttPuback_returned {c : McClient} {msgId type : Nat} {writes : List Int}
    {r : Int × McClient} (hknown : type = puback ∨ type = pubrec ∨ type = pubrel)
    (h : Mqtt.mqttPuback c msgId type writes = .ok r) : ∃ o, Returns r.1 (mqttPuback o type) := by
  suffices hrc : ∃ o : Sending, o.rc mqttPublishAckPacketError = r.1 by
    obtain ⟨o, hrc⟩ := hrc
    rw [← hrc]
    exact ⟨o, mqttPuback_eq o hknown ▸ sendPacket_returns mqttPublishAckPacketError o⟩
  obtain ⟨⟨len, bufSend⟩, -, h⟩ := bind_eq_ok.mp h
  dsimp only at h
  split at h
  next =>
    cases h
    exact ⟨⟨false, false⟩, rfl⟩
  next =>
    obtain ⟨sent, -, h⟩ := bind_eq_ok.mp h
    split at h
    next =>
      cases h
      exact ⟨⟨true, false⟩, rfl⟩
    next =>
      cases h
      exact ⟨⟨true, true⟩, rfl⟩

end Sending

/-! ## The packet handlers -/

section Handlers

variable {handleEvent : Bool}

/-- The application may do nothing in a callback. -/
theorem notify_returns : Returns () (notify handleEvent []) := by
  rw [notify]
  split
  · exact (Returns.pure ()).callback
  · exact .pure ()

theorem maskInfoFrom_returns (list : Mutex) (empty iterator : Bool) :
    Returns successReturn (maskInfoFrom list empty iterator) := by
  refine .of_touch [list] ?_
  simp [-bind_pure_comp, maskInfoFrom]

theorem iotxMcHandleRecvPuback_returned {c : SubClient} {env : AckEnv} {r : AckResult}
    (h : Mqtt.iotxMcHandleRecvPuback c env = .ok r) :
    ∃ i, Returns r.rc (iotxMcHandleRecvPuback handleEvent i) := by
  obtain ⟨⟨rc, _, _, mypacketid⟩, -, h⟩ := bind_eq_ok.mp h
  dsimp only at h
  split at h
  next =>
    cases h
    exact ⟨⟨false, false, true, []⟩, .pure _⟩
  next =>
    cases h
    exact ⟨⟨true, false, true, []⟩,
      (maskInfoFrom_returns ..).bind (notify_returns.bind (.pure _))⟩

/-- A request that was found is registered, or there is no room for it. -/
theorem register_rc {c : SubClient} {messagehandler : TopicHandle} {mypacketid : Nat}
    {r : AckResult} (h : Mqtt.register c messagehandler mypacketid = .ok r) :
    r.rc = failReturn ∨ r.rc = successReturn := by
  obtain ⟨⟨flagDup, iFree⟩, -, h⟩ := bind_eq_ok.mp h
  dsimp only at h
  split at h
  · cases h
    exact .inr rfl
  split at h
  · cases h
    exact .inl rfl
  split at h
  · cases h
    exact .inr rfl
  · cases h

theorem iotxMcHandleRecvSuback_returned {c : SubClient} {env : AckEnv} {r : AckResult}
    (h : Mqtt.iotxMcHandleRecvSuback c env = .ok r) :
    ∃ i, Returns r.rc (iotxMcHandleRecvSuback handleEvent i) := by
  obtain ⟨⟨rc, mypacketid, _, grantedQoSs⟩, -, h⟩ := bind_eq_ok.mp h
  dsimp only at h
  split at h
  next =>
    cases h
    exact ⟨⟨false, false, true, false, false, false, false, []⟩, .pure _⟩
  next =>
    split at h
    next =>
      cases h
      exact ⟨⟨true, false, true, true, false, false, false, []⟩,
        (maskInfoFrom_returns ..).bind (notify_returns.bind (.pure _))⟩
    next =>
      split at h
      next =>
        cases h
        exact ⟨⟨true, false, true, false, false, false, false, []⟩,
          (maskInfoFrom_returns ..).bind (.pure _)⟩
      next =>
        rcases register_rc h with hrc | hrc
        · rw [hrc]
          refine ⟨⟨true, false, true, false, true, false, false, []⟩,
            (maskInfoFrom_returns ..).bind (.of_touch [.generic] ?_)⟩
          simp [-bind_pure_comp]
        · rw [hrc]
          refine ⟨⟨true, false, true, false, true, true, false, []⟩,
            (maskInfoFrom_returns ..).bind ?_⟩
          simp only [Bool.false_eq_true, Bool.true_eq_false, false_and, if_false, lock_unlock_bind]
          exact (Returns.touch _).bind (notify_returns.bind (.pure _))

theorem iotxMcHandleRecvUnsuback_returned {c : SubClient} {env : AckEnv} {r : AckResult}
    (h : Mqtt.iotxMcHandleRecvUnsuback c env = .ok r) :
    ∃ i, Returns r.rc (iotxMcHandleRecvUnsuback handleEvent i) := by
  obtain ⟨⟨rc, mypacketid⟩, -, h⟩ := bind_eq_ok.mp h
  dsimp only at h
  split at h
  next =>
    cases h
    exact ⟨⟨false, false, true, []⟩, .pure _⟩
  next =>
    obtain ⟨_, -, h⟩ := bind_eq_ok.mp h
    cases h
    refine ⟨⟨true, false, true, []⟩, (maskInfoFrom_returns ..).bind ?_⟩
    cases handleEvent with
    | false =>
        refine .of_touch [.generic] ?_
        simp [-bind_pure_comp, notify]
    | true => exact .held_callback _ (.pure _)

theorem iotxMcDeliverMessage_returns :
    Returns () (iotxMcDeliverMessage handleEvent [] []) := by
  simp only [iotxMcDeliverMessage, deliverLoop, pure_bind, lock_unlock_bind]
  exact (Returns.touch _).bind notify_returns

theorem iotxMcHandleRecvPublish_returned {σ : Type} {down : Option (DownProcess σ)} {s : σ}
    {c : McClient} {writes : List Int} {r : RecvResult σ}
    (h : Mqtt.iotxMcHandleRecvPublish down s c writes = .ok r) :
    ∃ i, Returns r.rc (iotxMcHandleRecvPublish handleEvent i) := by
  obtain ⟨⟨rc, fields⟩, -, h⟩ := bind_eq_ok.mp h
  dsimp only at h
  split at h
  next =>
    cases h
    exact ⟨⟨false, [], [], 0, ⟨false, false⟩⟩, .pure _⟩
  next =>
    obtain ⟨_, -, h⟩ := bind_eq_ok.mp h
    obtain ⟨_, -, h⟩ := bind_eq_ok.mp h
    obtain ⟨⟨rc', c'⟩, hack, h⟩ := bind_eq_ok.mp h
    cases h
    rw [acknowledge] at hack
    split at hack
    next h0 =>
      cases hack
      refine ⟨⟨true, [], [], 0, ⟨false, false⟩⟩, iotxMcDeliverMessage_returns.bind (.pure _)⟩
    split at hack
    next h1 =>
      obtain ⟨o, ho⟩ := mqttPuback_returned (.inl rfl) hack
      exact ⟨⟨true, [], [], 1, o⟩, iotxMcDeliverMessage_returns.bind ho⟩
    split at hack
    next h2 =>
      obtain ⟨o, ho⟩ := mqttPuback_returned (.inr (.inl rfl)) hack
      exact ⟨⟨true, [], [], 2, o⟩, iotxMcDeliverMessage_returns.bind ho⟩
    next h2 =>
      cases hack
      exact ⟨⟨true, [], [], 3, ⟨false, false⟩⟩, iotxMcDeliverMessage_returns.bind (.pure _)⟩

end Handlers

/-! ## `iotx_mc_cycle` -/

section Cycle

variable {handleEvent : Bool} {handlers : Handlers} {c : McClient} {w : World} {r : CycleResult}

/-- The handler with the mutexes returns `rc` for some packet. -/
def Matched (handleEvent : Bool) (rc : Int) : PacketHandler → Prop
  | .puback => ∃ i, Returns rc (iotxMcHandleRecvPuback handleEvent i)
  | .suback => ∃ i, Returns rc (iotxMcHandleRecvSuback handleEvent i)
  | .publish => ∃ i, Returns rc (iotxMcHandleRecvPublish handleEvent i)
  | .unsuback => ∃ i, Returns rc (iotxMcHandleRecvUnsuback handleEvent i)

/-- A turn in which no packet can be read. -/
def unread : CycleInput where
  seen := .connected
  probesExceeded := false
  indeterminate := cptReserved
  reading := .failed
  puback := ⟨false, false, false, []⟩
  suback := ⟨false, false, false, false, false, false, false, []⟩
  publish := ⟨false, [], [], 0, ⟨false, false⟩⟩
  unsuback := ⟨false, false, false, []⟩

theorem dispatch_returned {packetType : Nat}
    (hmatched : ∀ h c p, handlers h c = .ok p → Matched handleEvent p.1 h)
    (h : Mqtt.dispatch handlers c packetType w = .ok r) :
    ∃ i, Returns r.rc (dispatch handleEvent i packetType) := by
  have hcall (handler : PacketHandler) {f : Int × McClient → Checked CycleResult}
      (hf : ∀ p, f p = .ok ⟨p.1, p.2, some handler, w⟩) (h : handlers handler c >>= f = .ok r) :
      Matched handleEvent r.rc handler := by
    obtain ⟨p, hrun, h⟩ := bind_eq_ok.mp h
    cases (hf p).symm.trans h
    exact hmatched _ _ _ hrun
  rw [Mqtt.dispatch] at h
  simp only [dispatch]
  split at h
  next hconnack =>
    cases h
    exact ⟨unread, by rw [if_pos hconnack]; exact .pure _⟩
  next hconnack =>
    simp only [if_neg hconnack]
    split at h
    next hpuback =>
      obtain ⟨i, hi⟩ := hcall .puback (fun _ => rfl) h
      exact ⟨{ unread with puback := i }, by rw [if_pos hpuback]; exact hi⟩
    next hpuback =>
      simp only [if_neg hpuback]
      split at h
      next hsuback =>
        obtain ⟨i, hi⟩ := hcall .suback (fun _ => rfl) h
        exact ⟨{ unread with suback := i }, by rw [if_pos hsuback]; exact hi⟩
      next hsuback =>
        simp only [if_neg hsuback]
        split at h
        next hpublish =>
          obtain ⟨i, hi⟩ := hcall .publish (fun _ => rfl) h
          exact ⟨{ unread with publish := i }, by rw [if_pos hpublish]; exact hi⟩
        next hpublish =>
          simp only [if_neg hpublish]
          split at h
          next hunsuback =>
            obtain ⟨i, hi⟩ := hcall .unsuback (fun _ => rfl) h
            exact ⟨{ unread with unsuback := i }, by rw [if_pos hunsuback]; exact hi⟩
          next hunsuback =>
            simp only [if_neg hunsuback]
            split at h
            next hpingresp =>
              cases h
              exact ⟨unread, by rw [if_pos hpingresp]; exact .pure _⟩
            next hpingresp =>
              cases h
              exact ⟨unread, by rw [if_neg hpingresp]; exact .pure _⟩

theorem iotxMcSetClientState_returns (newState : McState) :
    Returns () (iotxMcSetClientState newState) := by
  rw [iotxMcSetClientState, lock_unlock]
  exact .touch _

/-- `iotx_mc_cycle` with the stream. -/
theorem iotxMcCycle_returned {indeterminate : Nat}
    (hmatched : ∀ h c p, handlers h c = .ok p → Matched handleEvent p.1 h)
    (h : Mqtt.iotxMcCycle handlers c indeterminate w = .ok r) :
    ∃ i, Returns r.rc (iotxMcCycle handleEvent i) := by
  have hseen (seen : McState) : Returns seen (iotxMcGetClientState seen) := by
    rw [iotxMcGetClientState, lock_unlock_bind]
    exact (Returns.touch _).bind (.pure _)
  rw [Mqtt.iotxMcCycle] at h
  split at h
  next hlost =>
    cases h
    refine ⟨{ unread with seen := c.clientState }, (hseen _).bind ?_⟩
    rw [if_pos hlost]
    exact .pure _
  next =>
    dsimp only at h
    generalize (if iotxMcKeepaliveProbeMax < c.keepaliveProbes then
      { Mqtt.iotxMcSetClientState c .disconnected with keepaliveProbes := 0 } else c) = c₁ at h
    obtain ⟨packet, -, h⟩ := bind_eq_ok.mp h
    split at h
    next =>
      cases h
      refine ⟨unread, (hseen _).bind ?_⟩
      show Returns mqttNetworkError
        (iotxMcSetClientState .disconnected >>= fun _ => pure mqttNetworkError)
      exact (iotxMcSetClientState_returns _).bind (.pure _)
    split at h
    next =>
      cases h
      refine ⟨{ unread with reading := .timeout }, (hseen _).bind ?_⟩
      exact .pure successReturn
    next htype =>
      obtain ⟨i, hi⟩ := dispatch_returned hmatched h
      refine ⟨{ i with
        seen := .connected
        probesExceeded := false
        reading := .packet packet.packetType }, (hseen _).bind ?_⟩
      simp only [ne_eq, not_true, if_false, Bool.false_eq_true, iotxMcReadPacket, pure_bind,
        if_neg htype, lock_unlock_bind]
      exact (Returns.touch _).bind hi

end Cycle

end IotKit.Mqtt.Lock
