import IotKit.Mqtt.Subscription

/-!
# Packet ids

The ids of publishes, subscribes and unsubscribes come from one 16-bit counter that
starts again at 1, and nothing compares the next id with those of the requests that still
wait.  A `Ledger` is a client with a record of its publishes: each that is accepted gets a
number, and the input of a PUBACK says for which number the broker sent it.

The ids of the entries in state NORMAL stay distinct, and a PUBACK retires no publish but
its own, as long as no id is given to a new request while an entry of the same list has it,
and no PUBACK arrives for a publish that is already retired while another has its id.
-/

namespace IotKit.Mqtt

open CMemory

/-! ## The ledger -/

/-- The packet ids of the publishes in state NORMAL, the oldest first. -/
def normalPubs (infos : List PubInfo) : List Nat :=
  (infos.filter fun info => info.nodeState = .normal).map PubInfo.msgId

/-- The packet ids of the requests in state NORMAL, the oldest first. -/
def normalSubs (infos : List SubInfo) : List Nat :=
  (infos.filter fun info => info.nodeState = .normal).map SubInfo.msgId

/-- A client and what is known of its publishes: how many were accepted, the number and
packet id of those that no PUBACK has retired, and the numbers of those that a PUBACK for
another one has. -/
structure Ledger where
  client : SubClient
  accepted : Nat
  inFlight : List (Nat × Nat)
  stolen : List Nat

/-- An operation, and where it receives a PUBACK the number of the publish it is for. -/
structure Input where
  op : Operation
  meant : Option Nat

/-- The packet id of a PUBACK that is handled. -/
def acked (c : SubClient) : Operation → Option Nat
  | .receive p _ env =>
      if c.clientState = .connected ∧ headerType p.header = puback ∧ env.ack.iterator = true then
        some (p.ackId env.ack.packetid)
      else none
  | _ => none

/-- The ledger after an operation that leaves `client`. -/
def Ledger.record (l : Ledger) (i : Input) (client : SubClient) : Ledger :=
  match acked l.client i.op with
  | some id =>
      { l with
        client
        inFlight := l.inFlight.filter fun e => e.2 ≠ id
        stolen := l.stolen ++
          (l.inFlight.filter fun e => e.2 = id ∧ i.meant ≠ some e.1).map Prod.fst }
  | none =>
      match i.op with
      | .publish .. =>
          let pushed := client.listPubWaitAck.drop l.client.listPubWaitAck.length
          { l with
            client
            accepted := l.accepted + pushed.length
            inFlight := l.inFlight ++ pushed.map fun info => (l.accepted, info.msgId) }
      | _ => { l with client }

def ledgerStep (l : Ledger) (i : Input) : Checked Ledger := do
  let client ← operate l.client i.op
  .ok (l.record i client)

/-- The ledger of a client without publishes. -/
def Ledger.start (c : SubClient) : Ledger := ⟨c, 0, [], []⟩

/-- The entries in state NORMAL have distinct packet ids, and no PUBACK has retired a
publish it was not for. -/
structure Ledger.Unique (l : Ledger) : Prop where
  published : (normalPubs l.client.listPubWaitAck).Nodup
  pending : (normalSubs l.client.listSubWaitAck).Nodup
  stolen : l.stolen = []

/-- The packet id of a call that gets as far as a list is free in that list, and a PUBACK is
for a publish that is in flight, or none in flight has its id. -/
def IdFree (l : Ledger) (i : Input) : Prop :=
  match i.op with
  | .subscribe topicFilter _ messageHandler env =>
      RequestAccepted l.client .subscribe ⟨topicFilter, messageHandler⟩ env →
        (iotxMcGetNextPacketid l.client.toMcClient).1 ∉ normalSubs l.client.listSubWaitAck
  | .unsubscribe topicFilter env =>
      RequestAccepted l.client .unsubscribe ⟨topicFilter, ⟨none, 0⟩⟩ env →
        (iotxMcGetNextPacketid l.client.toMcClient).1 ∉ normalSubs l.client.listSubWaitAck
  | .publish topicName msg up env =>
      PublishAccepted l.client.toMcClient topicName msg (protect l.client msg up) env →
        (assignPacketId l.client.toMcClient msg).2.2.packetId ∉
          normalPubs l.client.listPubWaitAck
  | op => ∀ id, acked l.client op = some id →
      (∃ k, i.meant = some k ∧ (k, id) ∈ l.inFlight) ∨ id ∉ normalPubs l.client.listPubWaitAck

/-! ## The lists -/

theorem normalPubs_append (infos : List PubInfo) (msgId : Nat) (buf : Bytes) :
    normalPubs (infos ++ [⟨.normal, msgId, buf⟩]) = normalPubs infos ++ [msgId] := by
  simp [normalPubs, List.filter_append]

theorem normalSubs_append_sublist (infos : List SubInfo) (info : SubInfo) :
    (normalSubs (infos ++ [info])).Sublist (normalSubs infos ++ [info.msgId]) := by
  simp only [normalSubs, List.filter_append, List.map_append]
  refine List.Sublist.append_left ?_ _
  exact (List.filter_sublist (l := [info])).map SubInfo.msgId

theorem normalPubs_mask (infos : List PubInfo) (msgId : Nat) :
    normalPubs (infos.map fun info =>
      if info.msgId = msgId then { info with nodeState := .invalid } else info) =
        (normalPubs infos).filter (· ≠ msgId) := by
  induction infos with
  | nil => rfl
  | cons info infos ih =>
      simp only [normalPubs, List.map_cons, List.filter_cons] at ih ⊢
      by_cases hid : info.msgId = msgId
      · by_cases hnormal : info.nodeState = .normal
        · simp [hid, hnormal, ih]
        · simp [hid, hnormal, ih]
      · by_cases hnormal : info.nodeState = .normal
        · simp [hid, hnormal, ih]
        · simp [hid, hnormal, ih]

theorem normalSubs_mark_sublist (infos : List SubInfo) (msgId : Nat) :
    (normalSubs (infos.map (SubInfo.mark msgId))).Sublist (normalSubs infos) := by
  induction infos with
  | nil => exact List.Sublist.refl _
  | cons info infos ih =>
      simp only [normalSubs, List.map_cons, List.filter_cons, SubInfo.mark] at ih ⊢
      by_cases hid : info.msgId = msgId
      · by_cases hnormal : info.nodeState = .normal
        · simpa [hid, hnormal] using ih.cons _
        · simpa [hid, hnormal] using ih
      · by_cases hnormal : info.nodeState = .normal
        · simpa [hid, hnormal] using ih.cons_cons info.msgId
        · simpa [hid, hnormal] using ih

theorem normalSubs_marked_sublist (c : SubClient) (iterator : Bool) (msgId : Nat) :
    (normalSubs (c.marked iterator msgId)).Sublist (normalSubs c.listSubWaitAck) := by
  rw [SubClient.marked]
  split
  · exact normalSubs_mark_sublist _ _
  · exact List.Sublist.refl _

/-- The sweep removes publishes that are INVALID only. -/
theorem sweepPub_normalPubs {clientState : McState} {infos kept : List PubInfo} {failed : Bool}
    {writes : List (Option (List Int))}
    (h : sweepPub clientState infos writes = .ok (kept, failed)) :
    normalPubs kept = normalPubs infos := by
  induction infos generalizing kept failed writes with
  | nil =>
      cases h
      rfl
  | cons info infos ih =>
      obtain ⟨⟨rest, stopped⟩, hrest, h⟩ := bind_eq_ok.mp h
      have hkept := ih hrest
      have hcons : normalPubs (info :: rest) = normalPubs (info :: infos) := by
        simp only [normalPubs, List.filter_cons] at hkept ⊢
        split
        · simp [hkept]
        · exact hkept
      dsimp only at h
      split at h
      · cases h
        exact hcons
      split at h
      next hinvalid =>
        cases h
        rw [hkept]
        simp [normalPubs, hinvalid]
      split at h
      · cases h
        exact hcons
      split at h
      · cases h
        exact hcons
      · obtain ⟨sent, _, h⟩ := bind_eq_ok.mp h
        cases h
        exact hcons

/-! ## One operation -/

section Step

variable {c c' : SubClient}

/-- A request with a free packet id. -/
theorem Requested.normalSubs_nodup {type : RequestType} {handler : TopicHandle} {env : PublishEnv}
    (h : Requested c type handler env c')
    (hfree : RequestAccepted c type handler env →
      (iotxMcGetNextPacketid c.toMcClient).1 ∉ normalSubs c.listSubWaitAck)
    (hnodup : (normalSubs c.listSubWaitAck).Nodup) : (normalSubs c'.listSubWaitAck).Nodup := by
  rcases h.pending with hsame | ⟨haccepted, info, hpushed, hid⟩
  · rwa [hsame]
  · rw [hpushed]
    refine List.Nodup.sublist (normalSubs_append_sublist _ info) ?_
    rw [hid]
    exact List.nodup_append.mpr ⟨hnodup, List.nodup_singleton _, by
      intro a ha b hb
      rw [List.mem_singleton.mp hb]
      exact fun heq => hfree haccepted (heq ▸ ha)⟩

theorem receivePacket_normalSubs {p : Packet} {stale : Bytes} {env : ReceiveEnv}
    (h : receivePacket c p stale env = .ok c') :
    (normalSubs c'.listSubWaitAck).Sublist (normalSubs c.listSubWaitAck) := by
  cases receivePacket_tableStep h with
  | keeps _ hpending _ => exact (hpending.filter _).map _
  | requests _ _ _ _ hcalm => exact absurd rfl (hcalm p stale env)
  | suback p' stale' env' _ _ _ _ hpending _ =>
      rw [hpending]
      exact normalSubs_marked_sublist c _ _
  | unsuback p' stale' env' _ _ _ hpending _ _ =>
      rw [hpending]
      exact normalSubs_marked_sublist c _ _

theorem iotxMcHandleRecvPuback_normalPubs {p : Packet} {stale : Bytes} {env : AckEnv}
    {r : AckResult} (hbuf : c.bufRead = p.minimal ++ stale)
    (h : iotxMcHandleRecvPuback c env = .ok r) :
    normalPubs r.client.listPubWaitAck =
      if env.iterator then (normalPubs c.listPubWaitAck).filter (· ≠ p.ackId env.packetid)
      else normalPubs c.listPubWaitAck := by
  obtain ⟨⟨rc, type, dup, id⟩, hpacket, h⟩ := bind_eq_ok.mp h
  rw [hbuf, mqttDeserializeAck_packet] at hpacket
  cases hpacket
  dsimp only at h
  rw [if_neg (not_not.mpr rfl)] at h
  cases h
  rw [iotxMcMaskPubInfoFrom]
  cases env.iterator with
  | false => rfl
  | true => exact normalPubs_mask _ _

/-- A PUBACK retires the publishes with its packet id, and no other packet retires any. -/
theorem receivePacket_normalPubs {p : Packet} {stale : Bytes} {env : ReceiveEnv}
    (h : receivePacket c p stale env = .ok c') :
    normalPubs c'.listPubWaitAck =
      match acked c (.receive p stale env) with
      | some id => (normalPubs c.listPubWaitAck).filter (· ≠ id)
      | none => normalPubs c.listPubWaitAck := by
  rw [receivePacket] at h
  split at h
  next hstate =>
    cases h
    simp [acked, hstate]
  next hstate =>
    have hconnected := not_not.mp hstate
    rw [handlePacket] at h
    split at h
    next htype =>
      obtain ⟨r, hrun, h⟩ := bind_eq_ok.mp h
      cases h
      rw [iotxMcHandleRecvPuback_normalPubs rfl hrun]
      cases hiter : env.ack.iterator with
      | false => simp [acked, hiter, reading]
      | true => simp [acked, hiter, hconnected, htype, reading]
    next hpuback =>
      have hnone : acked c (.receive p stale env) = none := by simp [acked, hpuback]
      rw [hnone]
      split at h
      next htype =>
        obtain ⟨r, hrun, h⟩ := bind_eq_ok.mp h
        cases h
        obtain ⟨_, ⟨_, hclient⟩ | ⟨_, _, _, _, hclient⟩⟩ :=
          iotxMcHandleRecvSuback_spec rfl htype hrun
        · rw [hclient]
          rfl
        · rw [hclient]
          rfl
      split at h
      · obtain ⟨r, hrun, h⟩ := bind_eq_ok.mp h
        cases h
        exact congrArg normalPubs (iotxMcHandleRecvPublish_keeps hrun).2
      split at h
      · obtain ⟨r, hrun, h⟩ := bind_eq_ok.mp h
        cases h
        obtain ⟨_, _, _, hclient⟩ := iotxMcHandleRecvUnsuback_spec rfl hrun
        rw [hclient]
        rfl
      · cases h
        rfl

/-- The hook leaves the packet id. -/
theorem published_packetId (c : McClient) (msg : Message)
    (up : Option (Int × { payload : Bytes // payload.length < 65536 })) (s : SubClient)
    (h : s.toMcClient = c) :
    (published c msg (protect s msg up)).packetId = (assignPacketId c msg).2.2.packetId := by
  subst h
  cases up with
  | none => rfl
  | some up => rfl

end Step

/-! ## Runs -/

/-- What a run keeps: the record agrees with the list. -/
structure Ledger.Good (l : Ledger) : Prop extends l.Unique where
  recorded : l.inFlight.map Prod.snd = normalPubs l.client.listPubWaitAck

theorem Ledger.start_good {c : SubClient} (h : c.Fresh) : (Ledger.start c).Good := by
  refine ⟨⟨?_, ?_, rfl⟩, ?_⟩
  · simp [Ledger.start, h.published, normalPubs]
  · simp [Ledger.start, h.pending, normalSubs]
  · simp [Ledger.start, h.published, normalPubs]

theorem operate_normalSubs_nodup {l : Ledger} {i : Input} {client : SubClient}
    (hnodup : (normalSubs l.client.listSubWaitAck).Nodup) (hfree : IdFree l i)
    (h : operate l.client i.op = .ok client) : (normalSubs client.listSubWaitAck).Nodup := by
  obtain ⟨op, meant⟩ := i
  cases op with
  | subscribe topicFilter qos messageHandler env =>
      obtain ⟨r, hrun, h⟩ := bind_eq_ok.mp h
      cases h
      exact (iotMqttSubscribe_requested hrun).normalSubs_nodup hfree hnodup
  | unsubscribe topicFilter env =>
      obtain ⟨r, hrun, h⟩ := bind_eq_ok.mp h
      cases h
      exact (iotMqttUnsubscribe_requested hrun).normalSubs_nodup hfree hnodup
  | publish topicName msg up env =>
      obtain ⟨r, hrun, h⟩ := bind_eq_ok.mp h
      cases h
      rwa [(iotMqttPublish_published hrun).2.1]
  | receive p stale env => exact hnodup.sublist (receivePacket_normalSubs h)
  | networkError =>
      cases h
      exact hnodup
  | pubInfoProc iterator writes => rwa [(mqttPubInfoProc_keeps h).2]
  | subInfoProc iterator expired =>
      cases h
      have hsub := (mqttSubInfoProc_keeps l.client iterator expired).2
      exact hnodup.sublist ((hsub.filter _).map _)

/-- An operation that neither publishes nor receives a PUBACK. -/
theorem Ledger.Good.of_same {l : Ledger} {client : SubClient} (h : l.Good)
    (hpubs : normalPubs client.listPubWaitAck = normalPubs l.client.listPubWaitAck)
    (hsubs : (normalSubs client.listSubWaitAck).Nodup) : ({ l with client } : Ledger).Good :=
  ⟨⟨hpubs ▸ h.published, hsubs, h.stolen⟩, hpubs ▸ h.recorded⟩

/-- A publish with a free packet id, or none. -/
theorem Ledger.Good.publish {l : Ledger} {client : SubClient} (h : l.Good)
    (hsubs : (normalSubs client.listSubWaitAck).Nodup)
    (hlist : client.listPubWaitAck = l.client.listPubWaitAck ∨ ∃ msgId buf,
      msgId ∉ normalPubs l.client.listPubWaitAck ∧
        client.listPubWaitAck = l.client.listPubWaitAck ++ [⟨.normal, msgId, buf⟩])
    {topicName : Option Bytes} {msg : Message}
    {up : Option (Int × { payload : Bytes // payload.length < 65536 })} {env : PublishEnv}
    {meant : Option Nat} :
    (l.record ⟨.publish topicName msg up env, meant⟩ client).Good := by
  rcases hlist with hsame | ⟨msgId, buf, hfree, hpushed⟩
  · refine ⟨⟨?_, hsubs, h.stolen⟩, ?_⟩
    · simpa [record, acked, hsame] using h.published
    · simpa [record, acked, hsame] using h.recorded
  · have hpubs : normalPubs client.listPubWaitAck =
        normalPubs l.client.listPubWaitAck ++ [msgId] := by rw [hpushed, normalPubs_append]
    refine ⟨⟨?_, hsubs, h.stolen⟩, ?_⟩
    · simp only [record, acked, hpubs]
      exact List.nodup_append.mpr ⟨h.published, List.nodup_singleton _, by
        intro a ha b hb
        rw [List.mem_singleton.mp hb]
        exact fun heq => hfree (heq ▸ ha)⟩
    · simp only [record, acked, hpushed, List.drop_left, List.map_append, h.recorded,
        normalPubs_append]
      rfl

/-- A PUBACK for a publish in flight, or with a packet id that none has. -/
theorem Ledger.Good.puback {l : Ledger} {client : SubClient} {i : Input} {id : Nat} (h : l.Good)
    (hsubs : (normalSubs client.listSubWaitAck).Nodup) (hacked : acked l.client i.op = some id)
    (hpubs : normalPubs client.listPubWaitAck =
      (normalPubs l.client.listPubWaitAck).filter (· ≠ id))
    (hmeant : (∃ k, i.meant = some k ∧ (k, id) ∈ l.inFlight) ∨
      id ∉ normalPubs l.client.listPubWaitAck) : (l.record i client).Good := by
  have hown : (l.inFlight.filter fun e => e.2 = id ∧ i.meant ≠ some e.1) = [] := by
    refine List.filter_eq_nil_iff.mpr fun e he hother => ?_
    obtain ⟨hid, hne⟩ : e.2 = id ∧ i.meant ≠ some e.1 := by simpa using hother
    have hmem : e.2 ∈ normalPubs l.client.listPubWaitAck :=
      h.recorded ▸ List.mem_map_of_mem he
    rcases hmeant with ⟨k, hk, hkmem⟩ | hnone
    · have hnodup : (l.inFlight.map Prod.snd).Nodup := h.recorded ▸ h.published
      have heq : e = (k, id) := List.inj_on_of_nodup_map hnodup he hkmem hid
      exact hne (by rw [hk, heq])
    · exact hnone (hid ▸ hmem)
  refine ⟨⟨?_, ?_, ?_⟩, ?_⟩
  · simp only [record, hacked, hpubs]
    exact h.published.filter _
  · simpa only [record, hacked] using hsubs
  · simp only [record, hacked, hown, h.stolen]
    rfl
  · simp only [record, hacked, hpubs, ← h.recorded, List.filter_map]
    rfl

theorem ledgerStep_good {l l' : Ledger} {i : Input} (h : l.Good) (hfree : IdFree l i)
    (hstep : ledgerStep l i = .ok l') : l'.Good := by
  obtain ⟨client, hrun, hstep⟩ := bind_eq_ok.mp hstep
  cases hstep
  have hsubs := operate_normalSubs_nodup h.pending hfree hrun
  obtain ⟨op, meant⟩ := i
  cases op with
  | subscribe topicFilter qos messageHandler env =>
      obtain ⟨r, hcall, hr⟩ := bind_eq_ok.mp hrun
      cases hr
      exact h.of_same (congrArg normalPubs (iotMqttSubscribe_requested hcall).published) hsubs
  | unsubscribe topicFilter env =>
      obtain ⟨r, hcall, hr⟩ := bind_eq_ok.mp hrun
      cases hr
      exact h.of_same (congrArg normalPubs (iotMqttUnsubscribe_requested hcall).published) hsubs
  | publish topicName msg up env =>
      obtain ⟨r, hcall, hr⟩ := bind_eq_ok.mp hrun
      cases hr
      refine h.publish hsubs ((iotMqttPublish_published hcall).2.2.imp_right ?_)
      rintro ⟨haccepted, buf, hpushed⟩
      exact ⟨_, buf, (published_packetId _ msg up l.client rfl).symm ▸ hfree haccepted, hpushed⟩
  | receive p stale env =>
      have hpubs := receivePacket_normalPubs hrun
      cases hacked : acked l.client (.receive p stale env) with
      | none =>
          rw [hacked] at hpubs
          have hrecord : l.record ⟨.receive p stale env, meant⟩ client = { l with client } := by
            simp only [Ledger.record, hacked]
          exact hrecord ▸ h.of_same hpubs hsubs
      | some id =>
          rw [hacked] at hpubs
          exact h.puback hsubs hacked hpubs (hfree id hacked)
  | networkError =>
      cases hrun
      exact h.of_same rfl hsubs
  | pubInfoProc iterator writes =>
      refine h.of_same ?_ hsubs
      change mqttPubInfoProc l.client iterator writes = .ok client at hrun
      rw [mqttPubInfoProc] at hrun
      split at hrun
      · cases hrun
        rfl
      · obtain ⟨⟨kept, failed⟩, hsweep, hrun⟩ := bind_eq_ok.mp hrun
        cases hrun
        exact sweepPub_normalPubs hsweep
  | subInfoProc iterator expired =>
      cases hrun
      refine h.of_same ?_ hsubs
      rw [mqttSubInfoProc]
      split <;> rfl

/-- Over a run in which no packet id in use is given out again, packet ids stay distinct and
a PUBACK retires its own publish only. -/
theorem run_unique {c : SubClient} {inputs : List Input} {l : Ledger} (hfresh : c.Fresh)
    (hfree : Runs.Guarded ledgerStep IdFree (Ledger.start c) inputs)
    (hrun : Runs.run ledgerStep (Ledger.start c) inputs = .ok l) :
    l.Unique ∧ l.inFlight.map Prod.snd = normalPubs l.client.listPubWaitAck := by
  have hgood : l.Good := by
    refine Runs.run_invariant ?_ (Ledger.start_good hfresh) hfree hrun
    exact fun hinv hguard hstep => ledgerStep_good hinv hguard hstep
  exact ⟨hgood.toUnique, hgood.recorded⟩

/-! ## A packet id that is given out again -/

theorem payloadA_short : ([1] : Bytes).length < 65536 := by decide

/-- A publish of QoS 1 to the topic "a". -/
def publishA : Input :=
  ⟨.publish (some [97]) ⟨0, 1, 0, [1], payloadA_short⟩ none ⟨true, true, [8]⟩, none⟩

/-- "a#" is not a topic filter, but the call takes a packet id. -/
def refusedUnsubscribe : Input := ⟨.unsubscribe (some [97, 35]) ⟨true, true, []⟩, none⟩

/-- The ledger where the counter stands at `id`. -/
def Ledger.counting (l : Ledger) (id : Nat) : Ledger :=
  { l with client := { l.client with packetId := id } }

theorem ledgerStep_refused {l : Ledger} {id : Nat} (hid : id < iotxMcPacketIdMax) :
    ledgerStep (l.counting id) refusedUnsubscribe = .ok (l.counting (id + 1)) := by
  have hcheck : iotxMcCheckTopic [97, 35] .filter ≠ successReturn := by decide +kernel
  have hsane : stringPtrSanityCheck (some [97, 35]) = some [97, 35] := rfl
  have hnext : id ≠ iotxMcPacketIdMax := Nat.ne_of_lt hid
  have hrun : operate (l.counting id).client refusedUnsubscribe.op =
      .ok (l.counting (id + 1)).client := by
    simp [operate, refusedUnsubscribe, iotMqttUnsubscribe, hsane, iotxMcUnsubscribe,
      iotxMcGetNextPacketid, hcheck, hnext, Ledger.counting]
  rw [ledgerStep, hrun, ok_bind]
  rfl

/-- Refused calls bring the counter to its end. -/
theorem run_refused (n : Nat) {l : Ledger} {id : Nat} (hid : id + n ≤ iotxMcPacketIdMax) :
    Runs.run ledgerStep (l.counting id) (List.replicate n refusedUnsubscribe) =
      .ok (l.counting (id + n)) := by
  induction n generalizing id with
  | zero => rfl
  | succ n ih =>
      rw [List.replicate_succ, Runs.run_cons]
      refine ⟨_, ledgerStep_refused (by omega), ?_⟩
      rw [ih (by omega), Nat.add_assoc, Nat.add_comm 1]

/-- The ledger after the first publish. -/
def publishedOnce : Ledger :=
  match ledgerStep (Ledger.start freshClient) publishA with
  | .ok l => l
  | .error _ => Ledger.start freshClient

theorem ledgerStep_publishA :
    ledgerStep (Ledger.start freshClient) publishA = .ok publishedOnce := by
  have hok : (fun _ => ()) <$> ledgerStep (Ledger.start freshClient) publishA = .ok () := by
    decide +kernel
  obtain ⟨l, hl, _⟩ := map_eq_ok.mp hok
  rw [publishedOnce, hl]

theorem publishedOnce_counting : publishedOnce = publishedOnce.counting 1 := by
  have hone : publishedOnce.client.packetId = 1 := by decide +kernel
  rw [Ledger.counting, ← hone]

/-- The first publish is not acknowledged, and 65534 packet ids later another has its id. -/
theorem not_unique_wrap : ¬ ∀ (c : SubClient) (inputs : List Input) (l : Ledger), c.Fresh →
    Runs.run ledgerStep (Ledger.start c) inputs = .ok l → l.Unique := by
  intro h
  have hlast : (fun l : Ledger => normalPubs l.client.listPubWaitAck) <$>
      ledgerStep (publishedOnce.counting 65535) publishA = .ok [1, 1] := by decide +kernel
  obtain ⟨l, hl, hids⟩ := map_eq_ok.mp hlast
  have hrun : Runs.run ledgerStep (Ledger.start freshClient)
      (publishA :: (List.replicate 65534 refusedUnsubscribe ++ [publishA])) = .ok l := by
    refine Runs.run_cons.mpr ⟨_, ledgerStep_publishA, Runs.run_append.mpr
      ⟨publishedOnce.counting 65535, ?_, Runs.run_cons.mpr ⟨l, hl, rfl⟩⟩⟩
    rw [publishedOnce_counting]
    exact run_refused 65534 (by decide)
  have hnodup := (h freshClient _ l freshClient_fresh hrun).published
  rw [hids] at hnodup
  exact absurd hnodup (by decide)

/-- The PUBACK for the publish with the number and the packet id after it. -/
def pubackOf (number : Nat) (id : UInt8) : Input :=
  ⟨.receive (shortPacket 0x40 [0, id] (by decide) (by simp)) [] quietEnv, some number⟩

/-- Two publishes in flight, the second of which is acknowledged first. -/
def twoInFlight : List Input := [publishA, publishA, pubackOf 1 2, pubackOf 0 1]

theorem run_unique_publishA : ∃ l, Runs.run ledgerStep (Ledger.start freshClient) twoInFlight =
    .ok l ∧ l.accepted = 2 ∧ l.inFlight = [] ∧ l.Unique := by
  have hok : (fun l : Ledger => (l.accepted, l.inFlight)) <$>
      Runs.run ledgerStep (Ledger.start freshClient) twoInFlight = .ok (2, []) := by
    decide +kernel
  obtain ⟨l, hl, hends⟩ := map_eq_ok.mp hok
  obtain ⟨haccepted, hflight⟩ := Prod.ext_iff.mp hends
  refine ⟨l, hl, haccepted, hflight, (run_unique freshClient_fresh ?_ hl).1⟩
  refine ⟨fun _ => List.not_mem_nil, fun l₁ h₁ => ⟨fun _ => ?_, fun l₂ h₂ =>
    ⟨fun id hid => Or.inl ⟨1, rfl, ?_⟩, fun l₃ h₃ => ⟨fun id hid => Or.inl ⟨0, rfl, ?_⟩,
      fun _ _ => trivial⟩⟩⟩⟩
  · have hfirst : (fun l : Ledger => ((assignPacketId l.client.toMcClient
        ⟨0, 1, 0, [1], payloadA_short⟩).2.2.packetId, normalPubs l.client.listPubWaitAck)) <$>
        ledgerStep (Ledger.start freshClient) publishA = .ok (2, [1]) := by decide +kernel
    rw [h₁] at hfirst
    obtain ⟨hid, hpubs⟩ := Prod.ext_iff.mp (Except.ok.inj hfirst)
    change (assignPacketId l₁.client.toMcClient _).2.2.packetId ∉
      normalPubs l₁.client.listPubWaitAck
    rw [show normalPubs l₁.client.listPubWaitAck = [1] from hpubs,
      show (assignPacketId l₁.client.toMcClient _).2.2.packetId = 2 from hid]
    decide
  · have hsecond : (fun l : Ledger => (acked l.client (pubackOf 1 2).op, l.inFlight)) <$>
        Runs.run ledgerStep (Ledger.start freshClient) [publishA, publishA] =
          .ok (some 2, [(0, 1), (1, 2)]) := by decide +kernel
    have hrun : Runs.run ledgerStep (Ledger.start freshClient) [publishA, publishA] = .ok l₂ :=
      Runs.run_cons.mpr ⟨l₁, h₁, Runs.run_cons.mpr ⟨l₂, h₂, rfl⟩⟩
    rw [hrun] at hsecond
    obtain ⟨hacked, hinFlight⟩ := Prod.ext_iff.mp (Except.ok.inj hsecond)
    obtain rfl : 2 = id := Option.some.inj (hacked.symm.trans hid)
    rw [show l₂.inFlight = [(0, 1), (1, 2)] from hinFlight]
    decide
  · have hthird : (fun l : Ledger => (acked l.client (pubackOf 0 1).op, l.inFlight)) <$>
        Runs.run ledgerStep (Ledger.start freshClient) [publishA, publishA, pubackOf 1 2] =
          .ok (some 1, [(0, 1)]) := by decide +kernel
    have hrun : Runs.run ledgerStep (Ledger.start freshClient)
        [publishA, publishA, pubackOf 1 2] = .ok l₃ :=
      Runs.run_cons.mpr ⟨l₁, h₁, Runs.run_cons.mpr ⟨l₂, h₂, Runs.run_cons.mpr ⟨l₃, h₃, rfl⟩⟩⟩
    rw [hrun] at hthird
    obtain ⟨hacked, hinFlight⟩ := Prod.ext_iff.mp (Except.ok.inj hthird)
    obtain rfl : 1 = id := Option.some.inj (hacked.symm.trans hid)
    rw [show l₃.inFlight = [(0, 1)] from hinFlight]
    decide

end IotKit.Mqtt
