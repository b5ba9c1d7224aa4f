import IotKit.CommIf.Refusal
import IotKit.CommIf.Simulation
import IotKit.Mqtt.Read

/-!
# Sends and cycles with and without their bytes

`iotx_comm_send` and `iotx_mc_cycle` are modelled with the packet and the socket, where the bytes
matter, and with their outcome only, where the client is on the heap.  What the first returns and
leaves, the second returns and leaves for some outcome.  The connection state that
`IOT_Comm_SendData` leaves over either channel is the one that the machine comes to.
-/

namespace IotKit.CommIf

open CMemory (bind_eq_ok)

/-! ## The state of the client -/

section Publish

open Mqtt CMemory

variable {c : McClient} {topicName : Bytes} {msg : Mqtt.Message} {env : PublishEnv}
  {r : PublishResult}

/-- `MQTTPublish` leaves the state of the client to its caller. -/
theorem mqttPublish_state (h : mqttPublish c topicName msg env = .ok r) :
    r.client.clientState = c.clientState := by
  obtain ⟨⟨len, bufSend⟩, -, h⟩ := bind_eq_ok.mp h
  dsimp only at h
  split at h
  · cases h
    rfl
  split at h
  next =>
    cases h
    rfl
  next pushed hpush =>
    obtain ⟨sent, -, h⟩ := bind_eq_ok.mp h
    split at h
    · cases h
      rfl
    · cases h
      split at hpush
      · rw [iotxMcPushPubInfoTo] at hpush
        split at hpush
        · cases hpush
        split at hpush
        · cases hpush
        split at hpush
        · cases hpush
        split at hpush
        · cases hpush
        · cases hpush
          rfl
      · cases hpush
        rfl

/-- A publish keeps the state, which is connected where it succeeds, or fails on a connected
client and disconnects it. -/
theorem iotxMcPublish_state {up : Option (Int × Mqtt.Message)}
    (h : iotxMcPublish c topicName msg up env = .ok r) :
    r.client.clientState = c.clientState ∧ (0 ≤ r.rc → c.clientState = .connected) ∨
      c.clientState = .connected ∧ r.client.clientState = .disconnected ∧ r.rc < 0 := by
  rw [iotxMcPublish] at h
  split at h
  · cases h
    exact .inl ⟨rfl, fun hrc => absurd mqttTopicFormatError_neg (Int.not_lt.mpr hrc)⟩
  split at h
  · cases h
    exact .inl ⟨rfl, fun hrc => absurd mqttStateError_neg (Int.not_lt.mpr hrc)⟩
  next hstate =>
    have hconnected := not_not.mp hstate
    have hassign : (assignPacketId c msg).2.1.clientState = c.clientState := by
      rw [assignPacketId]
      split <;> rfl
    generalize assignPacketId c msg = x at h hassign
    obtain ⟨msgId, c', msg'⟩ := x
    dsimp only at h hassign
    split at h
    · cases h
      exact .inl ⟨hassign, fun _ => hconnected⟩
    · obtain ⟨r₁, hpublish, h⟩ := bind_eq_ok.mp h
      have hsame := (mqttPublish_state hpublish).trans hassign
      split at h
      next hrc =>
        cases h
        refine .inr ⟨hconnected, rfl, ?_⟩
        rw [hrc]
        decide
      next =>
        split at h
        · cases h
          exact .inl ⟨hsame, fun _ => hconnected⟩
        · cases h
          exact .inl ⟨hsame, fun _ => hconnected⟩

end Publish

/-! ## `iotx_comm_send` -/

/-- The connection has the client on its heap, with its buffers and in the same state. -/
def Holds (s : Comm) : Option Mqtt.McClient → Prop
  | none => s.pclient = none
  | some c => ∃ a k, s.pclient = some a ∧ s.heap.cells a = some (.client k) ∧
      s.heap.cells k.bufSend = some .buffer ∧ s.heap.cells k.bufRead = some .buffer ∧
      k.clientState = c.clientState

/-- A new state is the same change on the heap. -/
theorem setClientState_holds {s : Comm} {c : Mqtt.McClient} {a : Nat} (ha : s.pclient = some a)
    (hs : Holds s (some c)) (newState : Mqtt.McState) :
    ∃ s', iotxMcSetClientState s a newState = .ok s' ∧ s'.pclient = some a ∧
      Holds s' (some (Mqtt.iotxMcSetClientState c newState)) := by
  obtain ⟨a', k, ha', hk, hsend, hread, -⟩ := hs
  cases ha.symm.trans ha'
  obtain ⟨s', hset⟩ := setClientState_ok newState hk
  have hupdates := setClientState_updates hset
  obtain ⟨k', hlt, hk', rfl⟩ := setClientState_eq_ok.mp hset
  cases hk.symm.trans hk'
  exact ⟨_, hset, ha, a, { k with clientState := newState }, ha, Function.update_self ..,
    hupdates.buffer.mpr hsend, hupdates.buffer.mpr hread, rfl⟩

/-- Some outcome of the send on the heap is what the send with its packet returns and leaves. -/
theorem iotxCommSend_outcome {s : Comm} {pclient : Option Mqtt.McClient} {e : Refusal.SendEnv}
    {sendType : Channel.ConnSend} {data : Channel.Payload} {sent : Refusal.CommSent}
    (hs : Holds s pclient) (h : Refusal.iotxCommSend pclient e sendType data = .ok sent) :
    ∃ m s', iotxCommSend s m = .ok (decide (0 ≤ sent.rst), s') ∧ Holds s' sent.pclient := by
  cases pclient with
  | none =>
      cases h
      refine ⟨⟨false, .rejected⟩, s, ?_, hs⟩
      rw [iotxCommSend, hs]
      rfl
  | some c =>
      have hclient := hs
      obtain ⟨a, k, ha, hk, hsend, hread, hstate⟩ := hs
      rw [Refusal.iotxCommSend] at h
      split at h
      · cases h
        refine ⟨⟨false, .rejected⟩, s, ?_, hclient⟩
        rw [iotxCommSend, ha]
        rfl
      split at h
      · cases h
      obtain ⟨r, hpublish, h⟩ := bind_eq_ok.mp h
      cases h
      have hcall (o : Sending) : iotxCommSend s ⟨true, o⟩ = sendPacket s a o := by
        rw [iotxCommSend, ha]
        rfl
      obtain ⟨hsame, hrc⟩ | ⟨hconnected, hlost, hneg⟩ := iotxMcPublish_state hpublish
      · have hkept : Holds s (some r.client) :=
          ⟨a, k, ha, hk, hsend, hread, hstate.trans hsame.symm⟩
        by_cases hok : 0 ≤ r.rc
        · obtain ⟨t, hsent, rfl⟩ := sendPacket_connected (o := .sent) hk
            (hstate.trans (hrc hok)) hsend
          refine ⟨⟨true, .sent⟩, _, (hcall _).trans ?_, hkept⟩
          rw [hsent, decide_eq_true hok]
          rfl
        · refine ⟨⟨false, .rejected⟩, s, ?_, hkept⟩
          rw [iotxCommSend, ha, decide_eq_false hok]
          rfl
      · obtain ⟨t, hsent, hset⟩ := sendPacket_connected (o := .networkError) hk
          (hstate.trans hconnected) hsend
        rw [if_pos rfl] at hset
        obtain ⟨t', hset', -, a', k', ha', hk', hsend', hread', hstate'⟩ :=
          setClientState_holds ha hclient .disconnected
        cases hset.symm.trans hset'
        refine ⟨⟨true, .networkError⟩, t, (hcall _).trans ?_, a', k', ha', hk', hsend', hread',
          hstate'.trans hlost.symm⟩
        rw [hsent, decide_eq_false (Int.not_le.mpr hneg)]
        rfl

/-! ## `iotx_mc_cycle` -/

section Cycle

open Mqtt (Handlers PacketHandler McClient World CycleResult)

variable {τ : Type} {handlers : Handlers} {s : Comm} {c : McClient}

/-- What a handler does to the client is what a message that it sends does. -/
def Replies (handlers : Handlers) : Prop :=
  ∀ h c rc c', handlers h c = .ok (rc, c') → ∀ s, Holds s (some c) →
    ∃ reply s', iotCommSendDataIf s reply = .ok s' ∧ Holds s' (some c')

/-- A handler that leaves the state of the client sends nothing. -/
theorem replies_of_state (h : ∀ h c rc c', handlers h c = .ok (rc, c') →
    c'.clientState = c.clientState) : Replies handlers := by
  intro handler c rc c' hrun s ⟨a, k, ha, hk, hsend, hread, hstate⟩
  exact ⟨none, s, rfl, a, k, ha, hk, hsend, hread, hstate.trans (h _ _ _ _ hrun).symm⟩

/-- The handler of a packet sends at most one message. -/
theorem dispatch_outcome {packetType : Nat} {w : World} {r : CycleResult}
    (hreplies : Replies handlers) (hs : Holds s (some c))
    (h : Mqtt.dispatch handlers c packetType w = .ok r) :
    ∃ reply s', iotCommSendDataIf s reply = .ok s' ∧ Holds s' (some r.client) := by
  have hnone : ∃ reply s', iotCommSendDataIf s reply = .ok s' ∧ Holds s' (some c) :=
    ⟨none, s, rfl, hs⟩
  have hcall (handler : PacketHandler) {f : Int × McClient → CMemory.Checked CycleResult}
      (hf : ∀ p, f p = .ok ⟨p.1, p.2, some handler, w⟩) (h : handlers handler c >>= f = .ok r) :
      ∃ reply s', iotCommSendDataIf s reply = .ok s' ∧ Holds s' (some r.client) := by
    obtain ⟨p, hrun, h⟩ := bind_eq_ok.mp h
    cases (hf p).symm.trans h
    exact hreplies _ _ _ _ hrun s hs
  rw [Mqtt.dispatch] at h
  split at h
  · cases h
    exact hnone
  split at h
  · exact hcall .puback (fun _ => rfl) h
  split at h
  · exact hcall .suback (fun _ => rfl) h
  split at h
  · exact hcall .publish (fun _ => rfl) h
  split at h
  · exact hcall .unsuback (fun _ => rfl) h
  split at h
  · cases h
    exact hnone
  · cases h
    exact hnone

/-- A cycle on a connected client, once the probes are looked at. -/
theorem iotxMcCycle_reads {a : Nat} {s₁ : Comm} {y : Cycle τ}
    (hnormal : iotxMcCheckStateNormal s a = .ok true) (ha₁ : s₁.pclient = some a)
    (hs₁ : Holds s₁ (some c))
    (hover : (if y.probesOver then iotxMcSetClientState s a .disconnected else .ok s) = .ok s₁) :
    iotxMcCycle s a y =
      if y.read = false then
        iotxMcSetClientState s₁ a .disconnected >>= fun s => .ok (false, s)
      else iotCommSendDataIf s₁ y.reply >>= fun s => .ok (y.handled, s) := by
  obtain ⟨a', k, ha', hk, -, hread, -⟩ := hs₁
  cases ha₁.symm.trans ha'
  have hclient := client_eq_ok.mpr hk
  have hbuffer : s₁.buffer k.bufRead = .ok () := buffer_eq_ok.mpr hread
  rw [iotxMcCycle, hnormal]
  simp only [bind, Except.bind, if_true, hover, hclient, hbuffer]

/-- Some outcome of the cycle on the heap is what the cycle over the stream returns and leaves. -/
theorem iotxMcCycle_outcome {a indeterminate : Nat} {w : World} {r : CycleResult}
    (hreplies : Replies handlers) (ha : s.pclient = some a) (hs : Holds s (some c))
    (h : Mqtt.iotxMcCycle handlers c indeterminate w = .ok r) :
    ∃ (y : Cycle τ) (s' : Comm), iotxMcCycle s a y = .ok (decide (r.rc = successReturn), s') ∧
      Holds s' (some r.client) := by
  have hnormal : iotxMcCheckStateNormal s a = .ok (decide (c.clientState = .connected)) := by
    obtain ⟨a', k, ha', hk, -, -, hstate⟩ := hs
    cases ha.symm.trans ha'
    exact checkStateNormal_eq_ok.mpr ⟨k, hk, by rw [hstate]⟩
  rw [Mqtt.iotxMcCycle] at h
  split at h
  next hlost =>
    cases h
    refine ⟨⟨[], none, false, false, none, false, none⟩, s, ?_, hs⟩
    rw [iotxMcCycle, hnormal, decide_eq_false hlost]
    rfl
  next hconnected =>
    rw [decide_eq_true (not_not.mp hconnected)] at hnormal
    -- Too many probes without an answer disconnect the client before it reads.
    have hprobes : ∃ probesOver s₁, (if probesOver = true then
          iotxMcSetClientState s a .disconnected else .ok s) = .ok s₁ ∧ s₁.pclient = some a ∧
        Holds s₁ (some (if iotxMcKeepaliveProbeMax < c.keepaliveProbes then
          { Mqtt.iotxMcSetClientState c .disconnected with keepaliveProbes := 0 } else c)) := by
      split
      · obtain ⟨s₁, hset, ha₁, hs₁⟩ := setClientState_holds ha hs .disconnected
        exact ⟨true, s₁, hset, ha₁, hs₁⟩
      · exact ⟨false, s, rfl, ha, hs⟩
    obtain ⟨probesOver, s₁, hover, ha₁, hs₁⟩ := hprobes
    dsimp only at h
    generalize (if iotxMcKeepaliveProbeMax < c.keepaliveProbes then
      { Mqtt.iotxMcSetClientState c .disconnected with keepaliveProbes := 0 } else c) = c₁
      at h hs₁
    obtain ⟨packet, -, h⟩ := bind_eq_ok.mp h
    have hcycle (read handled : Bool) (reply : Option Message) := iotxMcCycle_reads
      (y := (⟨[], none, probesOver, read, reply, handled, none⟩ : Cycle τ)) hnormal ha₁ hs₁ hover
    split at h
    next =>
      cases h
      obtain ⟨s₂, hset, -, hs₂⟩ := setClientState_holds ha₁ hs₁ .disconnected
      refine ⟨_, s₂, (hcycle false false none).trans ?_, hs₂⟩
      rw [if_pos rfl, hset]
      rfl
    split at h
    next =>
      cases h
      exact ⟨_, s₁, hcycle true true none, hs₁⟩
    next =>
      obtain ⟨reply, s₂, hreply, hs₂⟩ := dispatch_outcome hreplies (c := { c₁ with
        bufRead := packet.bufRead, pingMark := 0, keepaliveProbes := 0 }) hs₁ h
      refine ⟨_, s₂, (hcycle true (decide (r.rc = successReturn)) reply).trans ?_, hs₂⟩
      rw [if_neg (Bool.false_ne_true ∘ Eq.symm), hreply]
      rfl

end Cycle

/-! ## `IOT_Comm_SendData` -/

open Status in
/-- Over either channel the machine comes to the connection state that the call leaves. -/
theorem iotCommSendData_machine {m : Machine} {backend : Channel.Backend}
    {data : Channel.Payload} {sent : Channel.Sent} {connState : ConnState} (hloop : Looping m)
    (h : Channel.iotCommSendData m.networkState m.connState backend data =
      .ok (sent, connState)) :
    ∃ as m', Runs.run step (Status.iotCommSendData m (decide (0 ≤ sent.rst))) as = .ok m' ∧
      m'.connState = connState ∧ m'.frames = m.frames := by
  have hlost : ∃ as m', Runs.run step (Status.iotxSetConnState m .disconnected []) as = .ok m' ∧
      m'.connState = .disconnected ∧ m'.frames = m.frames := by
    obtain ⟨as, told, hrun⟩ := setConnState_run m .disconnected []
    have hlooping : Looping (store { m with frames := [] ++ m.frames, told } .disconnected) := hloop
    rw [hlooping.resume] at hrun
    exact ⟨as, _, hrun, rfl, rfl⟩
  rw [Channel.iotCommSendData] at h
  rw [Status.iotCommSendData]
  split at h
  next hdown =>
    cases h
    rw [Status.iotNetworkIsConnected, if_pos hdown]
    exact hlost
  next hup =>
    rw [iotNetworkIsConnected_up (not_not.mp hup)]
    split at h
    next hnot =>
      cases h
      rw [if_pos hnot]
      exact ⟨[], m, rfl, rfl, rfl⟩
    next hconnected =>
      obtain ⟨sent', -, h⟩ := bind_eq_ok.mp h
      cases h
      rw [if_neg hconnected]
      by_cases hneg : sent.rst < 0
      · rw [if_pos hneg, if_neg (by simpa using hneg)]
        exact hlost
      · rw [if_neg hneg, if_pos (by simpa using hneg)]
        exact ⟨[], m, rfl, rfl, rfl⟩

end IotKit.CommIf
