import IotKit.Mqtt.Pending

/-!
# The pending lists as lists

`Publish` and `Subscribe` keep the pending requests in lists, without the nodes and the times.
`MQTTPublish`, `MQTTSubscribe` and `MQTTUnsubscribe` on the nodes give the same return code, ask
the same of the network and leave lists with the same entries.
-/

namespace IotKit.Mqtt.Pending

open CMemory Utils

/-- The nodes hold these entries, each with some time. -/
def Entries {α : Type} (l : ListT (Option (Timed α))) (infos : List α) : Prop :=
  ∃ vs : List (Timed α), l.Holds (vs.map some) ∧ vs.map Timed.info = infos

/-- The client without nodes and times. -/
structure Abstracts (c : Client) (a : SubClient) : Prop where
  bufSend : c.bufSend = a.bufSend
  clientState : c.clientState = a.clientState
  handleEvent : c.handleEvent = a.handleEvent
  pub : Entries c.listPubWaitAck a.listPubWaitAck
  sub : Entries c.listSubWaitAck a.listSubWaitAck

/-- What was asked of the network. -/
def Result.requests (r : Result) : List WriteReq :=
  match r.sent with
  | none => []
  | some sent => sent.requests

/-- Two calls that answer the same. -/
structure Answers (r : Result) (a : RequestResult) : Prop where
  rc : r.rc = a.rc
  client : Abstracts r.client a.client
  requests : r.requests = a.requests

/-- There is no room or no memory for another entry. -/
def Refuses {α : Type} (max : Nat) (infos : List α) (env : RequestEnv) : Prop :=
  max ≤ infos.length ∨ env.infoMalloc = false ∨ env.nodeMalloc = false

section Push

variable {α : Type} {l : ListT (Option (Timed α))} {infos : List α} {max n : Nat}
  {bufSend : Bytes} {f : Bytes → α} {env : RequestEnv}

theorem Entries.len (h : Entries l infos) : l.len.toNat = infos.length := by
  obtain ⟨vs, ⟨ns, hns, hvs⟩, rfl⟩ := h
  have hlength := congrArg List.length hvs
  rw [List.length_map, List.length_map] at hlength
  rw [hns.len, hlength, List.length_map]

/-- Without room or memory nothing is pushed. -/
theorem pushInfo_refused (h : Entries l infos) (hn : n ≤ bufSend.length)
    (hrefuse : Refuses max infos env) : pushInfo l max bufSend n f env = .ok none := by
  rw [pushInfo, h.len]
  split
  next => rfl
  next hroom =>
    split
    next => rfl
    next hmalloc =>
      have hnode := (hrefuse.resolve_left hroom).resolve_left hmalloc
      rw [loadN_front hn, ok_bind, listNodeNew, if_pos hnode]

/-- With both the entry is pushed, and stays where the send succeeds. -/
theorem sendPushed_entries (h : Entries l infos) (hn : n ≤ bufSend.length)
    (hmax : max < 2 ^ 32 - 1) (hrefuse : ¬Refuses max infos env) {sent : SendResult}
    (hsent : iotxMcSendPacket bufSend n env.writes = .ok sent) :
    ∃ pushed l', pushInfo l max bufSend n f env = .ok pushed ∧
      sendPushed l pushed bufSend n env.writes =
        .ok (if sent.rc ≠ successReturn then mqttNetworkError else successReturn, l', some sent) ∧
      Entries l' (if sent.rc ≠ successReturn then infos
        else infos ++ [f (bufSend.take n)]) := by
  obtain ⟨hroom, hmemory⟩ := not_or.mp hrefuse
  obtain ⟨hinfo, hnode⟩ := not_or.mp hmemory
  have hroom' : ¬max ≤ l.len.toNat := h.len ▸ hroom
  obtain ⟨vs, hholds, rfl⟩ := h
  rcases @pushInfo_cases α l max n bufSend f env _ hmax hholds hn with
    hnone | ⟨node, l', ns, hpush, -, hns, hlinked⟩
  · rw [pushInfo, if_neg hroom', if_neg hinfo, loadN_front hn, ok_bind, listNodeNew,
      if_neg hnode] at hnone
    obtain ⟨_, -, hnone⟩ := bind_eq_ok.mp hnone
    cases hnone
  · refine ⟨some (node, l'), ?_⟩
    rw [sendPushed, hsent, ok_bind]
    by_cases hrc : sent.rc = successReturn
    · simp only [hrc, ne_eq, not_true, if_false]
      refine ⟨l', hpush, rfl, vs ++ [⟨f (bufSend.take n), env.now⟩], ⟨_, hlinked, ?_⟩, ?_⟩
      · rw [List.map_append, List.map_append, hns]
        rfl
      · rw [List.map_append]
        rfl
    · obtain ⟨l₂, hremove, hlinked₂, -, -⟩ := listRemove_linked hlinked
      rw [List.append_nil] at hlinked₂
      simp only [hrc, ne_eq, not_false_eq_true, if_true]
      refine ⟨l₂, hpush, ?_, vs, ⟨ns, hlinked₂, hns⟩, rfl⟩
      exact bind_eq_ok.mpr ⟨l₂, access_of_ok hremove, rfl⟩

end Push

/-! ## The requests -/

section Requests

variable {c : Client} {a : SubClient} {env : RequestEnv}

theorem push_refused {b : McClient} {n msgId : Nat}
    (hrefuse : Refuses iotxMcRepubNumMax b.listPubWaitAck env) :
    Mqtt.iotxMcPushPubInfoTo b n msgId env.toPublishEnv = none := by
  rw [Mqtt.iotxMcPushPubInfoTo]
  split
  · rfl
  split
  · rfl
  next hroom =>
    split
    · rfl
    next hinfo => rw [if_pos ((hrefuse.resolve_left hroom).resolve_left hinfo)]

theorem push_accepted {b : McClient} {n msgId : Nat} (hn : n ≤ b.bufSend.length)
    (hrefuse : ¬Refuses iotxMcRepubNumMax b.listPubWaitAck env) :
    Mqtt.iotxMcPushPubInfoTo b n msgId env.toPublishEnv =
      some { b with listPubWaitAck :=
        b.listPubWaitAck ++ [⟨.normal, msgId, b.bufSend.take n⟩] } := by
  obtain ⟨hroom, hmemory⟩ := not_or.mp hrefuse
  obtain ⟨hinfo, hnode⟩ := not_or.mp hmemory
  rw [Mqtt.iotxMcPushPubInfoTo, if_neg (Nat.not_lt.mpr hn), if_neg hroom, if_neg hinfo,
    if_neg hnode]

theorem pushSub_refused {b : SubClient} {n msgId : Nat} {type : RequestType}
    {handler : TopicHandle} (hrefuse : Refuses iotxMcSubRequestNumMax b.listSubWaitAck env) :
    Mqtt.iotxMcPushSubInfoTo b n msgId type handler env.toPublishEnv = none := by
  rw [Mqtt.iotxMcPushSubInfoTo]
  split
  · rfl
  next hroom =>
    split
    · rfl
    next hinfo => rw [if_pos ((hrefuse.resolve_left hroom).resolve_left hinfo)]

theorem pushSub_accepted {b : SubClient} {n msgId : Nat} {type : RequestType}
    {handler : TopicHandle} (hrefuse : ¬Refuses iotxMcSubRequestNumMax b.listSubWaitAck env) :
    Mqtt.iotxMcPushSubInfoTo b n msgId type handler env.toPublishEnv =
      some { b with listSubWaitAck :=
        b.listSubWaitAck ++ [⟨type, msgId, .normal, handler, b.bufSend.take n⟩] } := by
  obtain ⟨hroom, hmemory⟩ := not_or.mp hrefuse
  obtain ⟨hinfo, hnode⟩ := not_or.mp hmemory
  rw [Mqtt.iotxMcPushSubInfoTo, if_neg hroom, if_neg hinfo, if_neg hnode]

/-- A packet in the buffer changes nothing else. -/
theorem Abstracts.stored {bufSend : Bytes} (h : Abstracts c a) :
    Abstracts { c with bufSend } { a with bufSend } :=
  ⟨rfl, h.clientState, h.handleEvent, h.pub, h.sub⟩

theorem mqttPublish_refines {topicName : Bytes} {msg : Message} {r : PublishResult}
    (h : Abstracts c a) (hid : msg.packetId < 65536)
    (hr : Mqtt.mqttPublish a.toMcClient topicName msg env.toPublishEnv = .ok r) :
    ∃ r', mqttPublish c (some topicName) msg env = .ok r' ∧
      Answers r' ⟨r.rc, { a with toMcClient := r.client }, r.requests⟩ := by
  obtain ⟨⟨len, bufSend⟩, hser, hr⟩ := bind_eq_ok.mp hr
  have hstored : Abstracts { c with bufSend } { a with bufSend } := h.stored
  rw [mqttPublish]
  dsimp only at hr ⊢
  rw [h.bufSend, hser, ok_bind]
  dsimp only
  split at hr
  next hnone =>
    cases hr
    exact ⟨_, if_pos hnone, rfl, hstored, rfl⟩
  next hpos =>
    obtain ⟨hlen, hin, -⟩ := stored_packet hser (Int.not_le.mp hpos)
    have hn : len.toNat ≤ bufSend.length := by omega
    rw [if_neg hpos]
    by_cases hqos : 0 < msg.qos
    · rw [if_pos hqos] at hr ⊢
      rw [iotxMcPushPubInfoTo, if_neg (Nat.not_lt.mpr hn), Nat.mod_eq_of_lt hid]
      by_cases hrefuse : Refuses iotxMcRepubNumMax a.listPubWaitAck env
      · rw [push_refused (b := { a.toMcClient with bufSend }) hrefuse] at hr
        cases hr
        rw [pushInfo_refused h.pub hn hrefuse]
        exact ⟨_, rfl, rfl, hstored, rfl⟩
      · rw [push_accepted (b := { a.toMcClient with bufSend }) hn hrefuse] at hr
        obtain ⟨sent, hsent, hr⟩ := bind_eq_ok.mp hr
        obtain ⟨pushed, l', hpush, hend, hentries⟩ := sendPushed_entries
          (f := fun buf => (⟨.normal, msg.packetId, buf⟩ : PubInfo)) h.pub hn (by decide)
          hrefuse hsent
        rw [hpush, ok_bind, hend, ok_bind]
        refine ⟨_, rfl, ?_⟩
        split at hr
        next hrc =>
          cases hr
          rw [if_pos hrc] at hentries ⊢
          exact ⟨rfl, ⟨rfl, h.clientState, h.handleEvent, hentries, h.sub⟩, rfl⟩
        next hrc =>
          cases hr
          rw [if_neg hrc] at hentries ⊢
          exact ⟨rfl, ⟨rfl, h.clientState, h.handleEvent, hentries, h.sub⟩, rfl⟩
    · rw [if_neg hqos] at hr ⊢
      obtain ⟨sent, hsent, hr⟩ := bind_eq_ok.mp hr
      refine ⟨_, bind_eq_ok.mpr ⟨sent, hsent, rfl⟩, ?_⟩
      split at hr
      next hrc =>
        cases hr
        rw [if_pos hrc]
        exact ⟨rfl, hstored, rfl⟩
      next hrc =>
        cases hr
        rw [if_neg hrc]
        exact ⟨rfl, hstored, rfl⟩

/-- `MQTTSubscribe` and `MQTTUnsubscribe` with their packet in the buffer. -/
theorem sendRequest_refines {packetError len : Int} {msgId : Nat} {type : RequestType}
    {handler : TopicHandle} {r : RequestResult} (h : Abstracts c a) (hid : msgId < 65536)
    (hn : len.toNat ≤ c.bufSend.length)
    (hr : Mqtt.sendRequest a packetError len msgId type handler env.toPublishEnv = .ok r) :
    ∃ r', sendRequest c packetError len msgId type handler env = .ok r' ∧ Answers r' r := by
  rw [Mqtt.sendRequest] at hr
  rw [sendRequest]
  split at hr
  next hnone =>
    cases hr
    exact ⟨_, if_pos hnone, rfl, h, rfl⟩
  next hpos =>
    rw [if_neg hpos, iotxMcPushSubInfoTo, Nat.mod_eq_of_lt hid]
    by_cases hrefuse : Refuses iotxMcSubRequestNumMax a.listSubWaitAck env
    · rw [pushSub_refused hrefuse] at hr
      cases hr
      rw [pushInfo_refused h.sub hn hrefuse]
      exact ⟨_, rfl, rfl, h, rfl⟩
    · rw [pushSub_accepted hrefuse] at hr
      obtain ⟨sent, hsent, hr⟩ := bind_eq_ok.mp hr
      rw [← h.bufSend] at hsent
      obtain ⟨pushed, l', hpush, hend, hentries⟩ := sendPushed_entries
        (f := fun buf => (⟨type, msgId, .normal, handler, buf⟩ : SubInfo)) h.sub hn (by decide)
        hrefuse hsent
      rw [hpush, ok_bind, hend, ok_bind]
      refine ⟨_, rfl, ?_⟩
      rw [h.bufSend] at hentries
      split at hr
      next hrc =>
        cases hr
        rw [if_pos hrc] at hentries ⊢
        exact ⟨rfl, ⟨h.bufSend, h.clientState, h.handleEvent, h.pub, hentries⟩, rfl⟩
      next hrc =>
        cases hr
        rw [if_neg hrc] at hentries ⊢
        exact ⟨rfl, ⟨h.bufSend, h.clientState, h.handleEvent, h.pub, hentries⟩, rfl⟩

/-- What is serialized lies in the buffer, if anything is. -/
theorem serializeRequest_inside {buf buf' topicFilter options : Bytes} {packettype packetid : Nat}
    {len : Int} (h : serializeRequest buf packettype packetid topicFilter options =
      .ok (len, buf')) : len.toNat ≤ buf'.length := by
  by_cases hpos : 0 < len
  · obtain ⟨hlen, hin, -⟩ := stored_packet h hpos
    omega
  · rw [Int.toNat_of_nonpos (Int.not_lt.mp hpos)]
    exact Nat.zero_le _

theorem mqttSubscribe_refines {topicFilter : Bytes} {qos msgId : Nat}
    {messageHandler : EventHandle} {r : RequestResult} (h : Abstracts c a) (hid : msgId < 65536)
    (hhandler : messageHandler.hFp ≠ none)
    (hr : Mqtt.mqttSubscribe a topicFilter qos msgId messageHandler env.toPublishEnv = .ok r) :
    ∃ r', mqttSubscribe c (some topicFilter) qos msgId messageHandler env = .ok r' ∧
      Answers r' r := by
  obtain ⟨⟨len, bufSend⟩, hser, hr⟩ := bind_eq_ok.mp hr
  obtain ⟨hFp, context⟩ := messageHandler
  cases hFp with
  | none => exact absurd rfl hhandler
  | some f =>
      unfold mqttSubscribe
      dsimp only
      rw [h.bufSend, Nat.mod_eq_of_lt hid, hser, ok_bind]
      exact sendRequest_refines h.stored hid (serializeRequest_inside hser) hr

theorem mqttUnsubscribe_refines {topicFilter : Bytes} {msgId : Nat} {r : RequestResult}
    (h : Abstracts c a) (hid : msgId < 65536)
    (hr : Mqtt.mqttUnsubscribe a topicFilter msgId env.toPublishEnv = .ok r) :
    ∃ r', mqttUnsubscribe c (some topicFilter) msgId env = .ok r' ∧ Answers r' r := by
  obtain ⟨⟨len, bufSend⟩, hser, hr⟩ := bind_eq_ok.mp hr
  rw [mqttUnsubscribe]
  dsimp only
  rw [h.bufSend, Nat.mod_eq_of_lt hid, hser, ok_bind]
  exact sendRequest_refines h.stored hid (serializeRequest_inside hser) hr

end Requests

end IotKit.Mqtt.Pending
