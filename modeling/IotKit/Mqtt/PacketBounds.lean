import IotKit.Mqtt.Published
import IotKit.Mqtt.Subscription
import IotKit.Mqtt.TopicMatch

/-!
# The handlers and the bounds of a packet

What `iotx_mc_read_packet` leaves in the read buffer is `Packet.minimal`.  A handler is run
on a read buffer that is the packet and nothing else, so that a run with a result has read
nothing from outside.  The deserializers of acknowledgements stay inside; that of a SUBACK
writes behind its one granted QoS, and that of a PUBLISH takes a topic that does not fit for
no topic, and a packet id that is not there from behind the packet.
-/

namespace IotKit.Mqtt

open CMemory

/-! ## Specification -/

/-- The length that stands before the topic name. -/
def Packet.topicLen (p : Packet) : Nat := ofBe16 (p.body.getD 0 0) (p.body.getD 1 0)

def Packet.TopicFits (p : Packet) : Prop :=
  2 ≤ p.body.length ∧ 2 + p.topicLen ≤ p.body.length

instance (p : Packet) : Decidable p.TopicFits := inferInstanceAs (Decidable (_ ∧ _))

/-- Where the payload begins in the body. -/
def Packet.payloadAt (p : Packet) : Nat :=
  2 + p.topicLen + if 0 < headerQos p.header then 2 else 0

/-- The topic name and the payload that are passed on lie in the packet: the payload is the
bytes behind the topic name and the packet id. -/
def PassedInside (packet : Bytes) (fields : PublishFields) : Prop :=
  ∃ topic payload, fields.topicData = some topic ∧ fields.payload = some payload ∧
    topic + fields.topicLen ≤ packet.length ∧
    payload = topic + fields.topicLen + (if 0 < fields.qos then 2 else 0) ∧
    payload + payloadLen fields = packet.length

/-- The handler of a PUBLISH comes to its end, whatever the network takes of its
acknowledgement.  It refuses the packet, or passes on what lies inside. -/
def PublishInside (c : SubClient) (p : Packet) : Prop :=
  ∀ writes, WritesInside c.bufSend.length 4 writes 0 →
    ∃ r : RecvResult Unit,
      iotxMcHandleRecvPublish none () (reading c p []).toMcClient writes = .ok r ∧
      ((r.rc = mqttPublishPacketError ∧ r.calls = []) ∨
        ∃ fields, mqttDeserializePublish p.minimal = .ok (1, fields) ∧
          PassedInside p.minimal fields ∧
          ∀ call ∈ r.calls, call.msg.payload.length = payloadLen fields)

/-- The handler of a packet stays inside it, whatever indeterminate variables hold.
`iterator` says whether there is memory to go over the pending requests. -/
structure HandledInside (c : SubClient) (iterator : Bool) (p : Packet) : Prop where
  publish : headerType p.header = publish → PublishInside c p
  puback : headerType p.header = puback → ∀ packetid messageHandler, ∃ r,
    iotxMcHandleRecvPuback (reading c p []) ⟨iterator, packetid, messageHandler⟩ = .ok r
  suback : headerType p.header = suback → ∀ packetid messageHandler, ∃ r,
    iotxMcHandleRecvSuback (reading c p []) ⟨iterator, packetid, messageHandler⟩ = .ok r
  unsuback : headerType p.header = unsuback → ∀ packetid messageHandler, ∃ r,
    iotxMcHandleRecvUnsuback (reading c p []) ⟨iterator, packetid, messageHandler⟩ = .ok r

/-- A topic that fits is followed by the packet id of its QoS and by less than 65536 bytes.
One that does not is in a packet whose length takes two bytes or more.  A SUBACK has one
code at most.  An UNSUBACK comes while no filter is registered, or answers a request. -/
structure Proper (c : SubClient) (iterator : Bool) (p : Packet) : Prop where
  topic : headerType p.header = publish → p.TopicFits →
    p.payloadAt ≤ p.body.length ∧ p.body.length - p.payloadAt < 65536
  noTopic : headerType p.header = publish → ¬p.TopicFits → 128 ≤ p.body.length
  codes : headerType p.header = suback → p.codes.length ≤ 1
  answers : headerType p.header = unsuback →
    c.registered = [] ∨ (c.handlerOf iterator (p.ackId 0) .zero).used = true

/-! ## A topic name in the packet -/

theorem strncmpLoop_ofBytes (filter : Bytes) : ∀ done rest : Bytes,
    rest.length = filter.length →
      ∃ equal, strncmpLoop (.ofBytes (done ++ rest)) filter done.length = .ok equal := by
  induction filter with
  | nil => exact fun done rest _ => ⟨true, rfl⟩
  | cons f filter ih =>
      intro done rest hlen
      cases rest with
      | nil => cases hlen
      | cons c rest =>
          obtain ⟨equal, hnext⟩ := ih (done ++ [c]) rest (Nat.succ.inj hlen)
          rw [List.append_assoc, List.length_append] at hnext
          rw [strncmpLoop, ofBytes_char, ok_bind]
          split
          · exact ⟨equal, hnext⟩
          · exact ⟨false, rfl⟩

theorem topicMatches_ofBytes (topic : Bytes) (h : TopicHandle) :
    ∃ matched, topicMatches (.ofBytes topic) h = .ok matched := by
  rw [topicMatches]
  split
  next => exact ⟨false, rfl⟩
  next filter _ =>
    have hwalk : ∃ matched, iotxMcIsTopicMatched filter (.ofBytes topic) = .ok matched :=
      ⟨_, matchLoop_eq filter [] topic⟩
    have hequals : ∃ equal, mqttPacketEquals (.ofBytes topic) filter = .ok equal := by
      rw [mqttPacketEquals]
      split
      next hlen => exact strncmpLoop_ofBytes filter [] topic hlen
      next => exact ⟨false, rfl⟩
    obtain ⟨equal, hequal⟩ := hequals
    rw [hequal, ok_bind]
    cases equal with
    | true => exact ⟨true, rfl⟩
    | false => exact hwalk

theorem deliverLoop_ofBytes (topic : Bytes) (msg : TopicInfo) (handles : List TopicHandle) :
    ∃ calls, deliverLoop (.ofBytes topic) msg handles = .ok calls := by
  induction handles with
  | nil => exact ⟨[], rfl⟩
  | cons h handles ih =>
      obtain ⟨matched, hmatched⟩ := topicMatches_ofBytes topic h
      obtain ⟨calls, hcalls⟩ := ih
      exact ⟨_, bind_eq_ok.mpr ⟨matched, hmatched, bind_eq_ok.mpr ⟨calls, hcalls, rfl⟩⟩⟩

/-- A topic name inside the read buffer is its bytes. -/
theorem topicName_inside {bufRead : Bytes} {fields : PublishFields} {off : Nat}
    (htopic : fields.topicData = some off) (hin : off + fields.topicLen ≤ bufRead.length) :
    topicName bufRead fields = .ofBytes ((bufRead.drop off).take fields.topicLen) := by
  have hlen : ((bufRead.drop off).take fields.topicLen).length = fields.topicLen := by
    rw [List.length_take, List.length_drop]
    omega
  rw [topicName, TopicName.ofBytes, hlen, htopic]
  congr 1
  funext i
  split
  next hlt =>
    have hright : i < ((bufRead.drop off).take fields.topicLen).length := hlen.symm ▸ hlt
    dsimp only
    rw [load_of_lt (by omega), load_of_lt hright, List.getElem_take, List.getElem_drop]
  next hge =>
    have hnone : ((bufRead.drop off).take fields.topicLen)[i]? = none :=
      List.getElem?_eq_none (by omega)
    simp [load, hnone]

/-! ## PUBLISH -/

section Publish

variable {c : SubClient} {p : Packet} {stale : Bytes}

/-- The offset of the body. -/
def Packet.bodyAt (p : Packet) : Nat := 1 + (mqttPacketEncode p.body.length).length

theorem Packet.minimal_length_eq (p : Packet) : p.minimal.length = p.bodyAt + p.body.length := by
  rw [minimal, bodyAt, List.length_cons, List.length_append]
  omega

/-- The fields of the header byte. -/
def Packet.headerFields (p : Packet) : PublishFields :=
  { PublishFields.zero with
    dup := headerDup p.header
    qos := headerQos p.header
    retained := headerRetain p.header }

theorem readInt_topicLen (h : 2 ≤ p.body.length) :
    readInt (p.minimal ++ stale) p.bodyAt = .ok p.topicLen := by
  have hdrop : (p.minimal ++ stale).drop p.bodyAt = p.body ++ stale := p.drop_body stale
  rw [Packet.topicLen]
  match hbody : p.body with
  | [] => simp [hbody] at h
  | [_] => simp [hbody] at h
  | hi :: lo :: rest =>
      rw [hbody] at hdrop
      exact readInt_of_drop hdrop

/-- The fields of a PUBLISH with the topic. -/
def Packet.topicFields (p : Packet) : PublishFields :=
  { p.headerFields with topicData := some (p.bodyAt + 2), topicLen := p.topicLen }

/-- The fields of a PUBLISH with its payload behind the topic. -/
def Packet.publishFields (p : Packet) (packetid : Nat) : PublishFields :=
  { p.topicFields with
    packetid
    payload := some (p.bodyAt + p.payloadAt)
    payloadlen := (p.body.length : Int) - p.payloadAt }

theorem mqttDeserializePublish_noTopic (htype : headerType p.header = publish)
    (htopic : ¬p.TopicFits) :
    ∃ fields, mqttDeserializePublish (p.minimal ++ stale) =
        .ok ((mqttPacketEncode p.body.length).length, fields) ∧ fields.topicData = none := by
  have hat : 1 + (mqttPacketEncode p.body.length).length = p.bodyAt := rfl
  rw [mqttDeserializePublish, Packet.load_header, ok_bind, if_neg (not_not.mpr htype),
    Packet.decodeBuf, ok_bind]
  dsimp only
  rw [hat]
  split
  next => exact ⟨_, rfl, rfl⟩
  next hroom =>
    have htwo : 2 ≤ p.body.length := by omega
    have hlong : p.body.length < 2 + p.topicLen := by
      by_contra hle
      exact htopic ⟨htwo, by omega⟩
    rw [readInt_topicLen htwo, ok_bind, if_pos (by omega)]
    exact ⟨_, rfl, rfl⟩

theorem mqttDeserializePublish_topic_fits (htype : headerType p.header = publish)
    (htopic : p.TopicFits) :
    mqttDeserializePublish (p.minimal ++ stale) =
      if 0 < headerQos p.header then
        readInt (p.minimal ++ stale) (p.bodyAt + 2 + p.topicLen) >>= fun packetid =>
          .ok (1, p.publishFields packetid)
      else .ok (1, p.publishFields 0) := by
  obtain ⟨htwo, hfits⟩ := htopic
  have hat : 1 + (mqttPacketEncode p.body.length).length = p.bodyAt := rfl
  rw [mqttDeserializePublish, Packet.load_header, ok_bind, if_neg (not_not.mpr htype),
    Packet.decodeBuf, ok_bind]
  dsimp only
  rw [hat, if_neg (by omega), readInt_topicLen htwo, ok_bind, if_neg (by omega)]
  split
  next hqos =>
    have hpay : p.payloadAt = 2 + p.topicLen + 2 := by rw [Packet.payloadAt, if_pos hqos]
    congr 1
    funext packetid
    have hoff : p.bodyAt + 2 + p.topicLen + 2 = p.bodyAt + p.payloadAt := by omega
    have hlen : ((p.bodyAt + p.body.length : Nat) : Int) - ((p.bodyAt + p.payloadAt : Nat) : Int) =
        (p.body.length : Int) - p.payloadAt := by omega
    rw [hoff, hlen]
    rfl
  next hqos =>
    have hpay : p.payloadAt = 2 + p.topicLen := by rw [Packet.payloadAt, if_neg hqos, Nat.add_zero]
    have hoff : p.bodyAt + 2 + p.topicLen = p.bodyAt + p.payloadAt := by omega
    have hlen : ((p.bodyAt + p.body.length : Nat) : Int) - ((p.bodyAt + p.payloadAt : Nat) : Int) =
        (p.body.length : Int) - p.payloadAt := by omega
    rw [hoff, hlen]
    rfl

theorem publishFields_payloadLen (packetid : Nat) (hin : p.payloadAt ≤ p.body.length) :
    payloadLen (p.publishFields packetid) = (p.body.length - p.payloadAt) % 65536 := by
  show (((p.body.length : Int) - p.payloadAt) % 65536).toNat = _
  omega

/-- The fields lie inside exactly where the payload length fits into 16 bits. -/
theorem passedInside_iff (packetid : Nat) (hin : p.payloadAt ≤ p.body.length) :
    PassedInside p.minimal (p.publishFields packetid) ↔ p.body.length - p.payloadAt < 65536 := by
  have hlen := p.minimal_length_eq
  have hpayload := publishFields_payloadLen packetid hin
  have hafter : p.bodyAt + 2 + p.topicLen + (if 0 < headerQos p.header then 2 else 0) =
      p.bodyAt + p.payloadAt := by
    rw [Packet.payloadAt]
    omega
  constructor
  · rintro ⟨topic, payload, _, hpay, _, _, hsum⟩
    obtain rfl : p.bodyAt + p.payloadAt = payload := Option.some.inj hpay
    omega
  · intro hshort
    refine ⟨p.bodyAt + 2, p.bodyAt + p.payloadAt, rfl, rfl, ?_, hafter.symm, by omega⟩
    show p.bodyAt + 2 + p.topicLen ≤ _
    omega

theorem mqttDeserializePublish_inside (htype : headerType p.header = publish)
    (htopic : p.TopicFits) (hin : p.payloadAt ≤ p.body.length) :
    ∃ packetid,
      mqttDeserializePublish (p.minimal ++ stale) = .ok (1, p.publishFields packetid) := by
  rw [mqttDeserializePublish_topic_fits htype htopic]
  split
  next hqos =>
    have hpay : p.payloadAt = 2 + p.topicLen + 2 := by rw [Packet.payloadAt, if_pos hqos]
    have hlen := p.minimal_length_eq
    have hall : (p.minimal ++ stale).length = p.minimal.length + stale.length :=
      List.length_append
    obtain ⟨packetid, hid⟩ : ∃ packetid,
        readInt (p.minimal ++ stale) (p.bodyAt + 2 + p.topicLen) = .ok packetid := by
      rw [readInt, load_of_lt (by omega), ok_bind, load_of_lt (by omega), ok_bind]
      exact ⟨_, rfl⟩
    exact ⟨packetid, bind_eq_ok.mpr ⟨packetid, hid, rfl⟩⟩
  next => exact ⟨0, rfl⟩

/-- A packet id that is not there is read from behind the packet. -/
theorem mqttDeserializePublish_outside (htype : headerType p.header = publish)
    (htopic : p.TopicFits) (hout : p.body.length < p.payloadAt) {r : Nat × PublishFields} :
    mqttDeserializePublish p.minimal ≠ .ok r := by
  have hqos : 0 < headerQos p.header := by
    by_contra hzero
    rw [Packet.payloadAt, if_neg hzero] at hout
    have := htopic.2
    omega
  have hlen := p.minimal_length_eq
  rw [Packet.payloadAt, if_pos hqos] at hout
  have hfits := @mqttDeserializePublish_topic_fits p [] htype htopic
  rw [List.append_nil, if_pos hqos] at hfits
  rw [hfits]
  intro h
  obtain ⟨packetid, hid, -⟩ := bind_eq_ok.mp h
  obtain ⟨_, _, hid⟩ := bind_eq_ok.mp hid
  obtain ⟨_, hlo, -⟩ := bind_eq_ok.mp hid
  obtain ⟨hlt, -⟩ := List.getElem?_eq_some_iff.mp (load_eq_ok.mp hlo)
  omega

theorem acknowledge_ends {client : McClient} {qos packetid : Nat} {writes : List Int}
    (hinside : WritesInside client.bufSend.length 4 writes 0) :
    ∃ r, acknowledge client qos packetid writes = .ok r := by
  have hpuback : ∀ type, ∃ r, mqttPuback client packetid type writes = .ok r := by
    intro type
    rw [mqttPuback, mqttSerializeAck]
    split
    next => exact ⟨_, rfl⟩
    next hroom =>
      dsimp only
      have hfour : (UInt8.ofNat (16 * type + 8 * (0 % 2) + 2 * if type = 6 then 1 else 0) ::
          (mqttPacketEncode 2 ++ be16 packetid)).length = 4 := by
        rw [List.length_cons, List.length_append, be16_length, mqttPacketEncode,
          if_pos (by decide), List.length_singleton]
      generalize UInt8.ofNat (16 * type + 8 * (0 % 2) + 2 * if type = 6 then 1 else 0) ::
          (mqttPacketEncode 2 ++ be16 packetid) = ack at hfour
      have hstore : storeN client.bufSend ((0 : Nat) : Int) ack = .ok _ := storeN_of_le (by omega)
      have hlen := storeN_length hstore
      generalize client.bufSend.take 0 ++ (ack ++ client.bufSend.drop (0 + ack.length)) = buf
        at hstore hlen
      obtain ⟨sent, hsent⟩ := iotxMcSendPacket_inside.mpr (hlen.symm ▸ hinside)
      rw [show storeN client.bufSend 0 ack = .ok buf from hstore, ok_bind, ok_bind, hfour]
      dsimp only
      rw [if_neg (by decide), Int.toNat_natCast, hsent, ok_bind]
      split
      · exact ⟨_, rfl⟩
      · exact ⟨_, rfl⟩
  rw [acknowledge]
  split
  · exact ⟨_, rfl⟩
  split
  · exact hpuback puback
  split
  · exact hpuback pubrec
  · exact ⟨_, rfl⟩

/-- A packet that is refused by the deserializer. -/
theorem publishInside_refused {rc : Nat} {fields : PublishFields}
    (hrun : mqttDeserializePublish p.minimal = .ok (rc, fields)) (hrc : rc ≠ 1) :
    PublishInside c p := by
  intro writes _
  have hbuf : mqttDeserializePublish (reading c p []).bufRead = .ok (rc, fields) := by
    rw [reading, List.append_nil]
    exact hrun
  refine ⟨⟨mqttPublishPacketError, (reading c p []).toMcClient, (), []⟩, ?_,
    Or.inl ⟨rfl, rfl⟩⟩
  rw [iotxMcHandleRecvPublish, hbuf, ok_bind]
  dsimp only
  rw [if_pos hrc]

/-- A packet whose fields lie inside is delivered. -/
theorem publishInside_passed {fields : PublishFields}
    (hrun : mqttDeserializePublish p.minimal = .ok (1, fields))
    (hpassed : PassedInside p.minimal fields) : PublishInside c p := by
  intro writes hwrites
  have hbuf : (reading c p []).bufRead = p.minimal := List.append_nil _
  obtain ⟨topic, payload, htopic, hpay, htopicIn, _, hend⟩ := hpassed
  have hopen : openPayload (none : Option (DownProcess Unit)) () (reading c p []).bufRead fields =
      .ok ((), p.minimal, (p.minimal.drop payload).take (payloadLen fields)) := by
    simp only [openPayload, hpay, hbuf]
  have hsize : ((p.minimal.drop payload).take (payloadLen fields)).length = payloadLen fields := by
    rw [List.length_take, List.length_drop]
    omega
  generalize (p.minimal.drop payload).take (payloadLen fields) = text at hopen hsize
  let client : McClient := { (reading c p []).toMcClient with bufRead := p.minimal }
  let msg : TopicInfo := ⟨fields.packetid, fields.qos, fields.dup, fields.retained,
    fields.topicLen, text⟩
  obtain ⟨calls, hcalls⟩ : ∃ calls,
      iotxMcDeliverMessage client (topicName p.minimal fields) msg = .ok calls := by
    obtain ⟨calls, hloop⟩ := deliverLoop_ofBytes ((p.minimal.drop topic).take fields.topicLen) msg
      client.subHandle.toList
    rw [topicName_inside htopic htopicIn]
    exact ⟨_, bind_eq_ok.mpr ⟨calls, hloop, rfl⟩⟩
  obtain ⟨⟨rc, after⟩, hack⟩ := @acknowledge_ends client fields.qos fields.packetid writes hwrites
  refine ⟨⟨rc, after, (), calls⟩, ?_, Or.inr ⟨fields, hrun,
    ⟨topic, payload, htopic, hpay, htopicIn, ‹_›, hend⟩, fun call hcall => ?_⟩⟩
  · have hrun' : mqttDeserializePublish (reading c p []).bufRead = .ok (1, fields) := by
      rw [hbuf]
      exact hrun
    rw [iotxMcHandleRecvPublish, hrun', ok_bind]
    dsimp only
    rw [if_neg (not_not.mpr rfl), hopen, ok_bind]
    exact bind_eq_ok.mpr ⟨calls, hcalls, bind_eq_ok.mpr ⟨(rc, after), hack, rfl⟩⟩
  · rw [(iotxMcDeliverMessage_cases hcalls).1 call hcall]
    exact hsize

theorem acknowledge_rc {client client' : McClient} {qos packetid : Nat} {writes : List Int}
    {rc : Int} (h : acknowledge client qos packetid writes = .ok (rc, client')) :
    rc ≠ mqttPublishPacketError := by
  have hpuback : ∀ type, mqttPuback client packetid type writes = .ok (rc, client') →
      rc ≠ mqttPublishPacketError := by
    intro type h
    obtain ⟨⟨len, bufSend⟩, _, h⟩ := bind_eq_ok.mp h
    dsimp only at h
    split at h
    · cases h
      decide
    · obtain ⟨_, _, h⟩ := bind_eq_ok.mp h
      split at h
      · cases h
        decide
      · cases h
        decide
  rw [acknowledge] at h
  split at h
  · cases h
    decide
  split at h
  · exact hpuback puback h
  split at h
  · exact hpuback pubrec h
  · cases h
    decide

/-- A packet that the deserializer takes is not refused later. -/
theorem publish_not_refused {client : McClient} {writes : List Int} {r : RecvResult Unit}
    {fields : PublishFields} (hparse : mqttDeserializePublish client.bufRead = .ok (1, fields))
    (h : iotxMcHandleRecvPublish none () client writes = .ok r) :
    r.rc ≠ mqttPublishPacketError := by
  rw [iotxMcHandleRecvPublish, hparse, ok_bind] at h
  dsimp only at h
  rw [if_neg (not_not.mpr rfl)] at h
  obtain ⟨_, _, h⟩ := bind_eq_ok.mp h
  obtain ⟨_, _, h⟩ := bind_eq_ok.mp h
  obtain ⟨_, hack, h⟩ := bind_eq_ok.mp h
  cases h
  exact acknowledge_rc hack

theorem writesInside_nil (size length : Nat) : WritesInside size length [] 0 := trivial

theorem publishInside_iff (htype : headerType p.header = publish) :
    PublishInside c p ↔
      (p.TopicFits → p.payloadAt ≤ p.body.length ∧ p.body.length - p.payloadAt < 65536) ∧
      (¬p.TopicFits → 128 ≤ p.body.length) := by
  constructor
  · intro hinside
    obtain ⟨r, hrun, hcases⟩ := hinside [] (writesInside_nil _ _)
    obtain ⟨⟨rc, fields⟩, hparse, _⟩ := bind_eq_ok.mp hrun
    have hbuf : (reading c p []).toMcClient.bufRead = p.minimal := List.append_nil _
    have hgoes : rc = 1 → r.rc ≠ mqttPublishPacketError := by
      rintro rfl
      exact publish_not_refused hparse hrun
    rw [hbuf] at hparse
    constructor
    · intro htopic
      have hin : p.payloadAt ≤ p.body.length := by
        by_contra hout
        exact mqttDeserializePublish_outside htype htopic (Nat.lt_of_not_le hout) hparse
      obtain ⟨packetid, hinside⟩ := @mqttDeserializePublish_inside p [] htype htopic hin
      rw [List.append_nil, hparse] at hinside
      cases hinside
      refine ⟨hin, ?_⟩
      rcases hcases with ⟨hrc, hcalls⟩ | ⟨fields, hfields, hpassed, _⟩
      · exact absurd hrc (hgoes rfl)
      · rw [hparse] at hfields
        cases hfields
        exact (passedInside_iff packetid hin).mp hpassed
    · intro htopic
      by_contra hshort
      obtain ⟨fields', hnone, hdata⟩ := @mqttDeserializePublish_noTopic p [] htype htopic
      have hone : (mqttPacketEncode p.body.length).length = 1 := by
        rw [mqttPacketEncode, if_pos (by omega)]
        rfl
      rw [List.append_nil, hone, hparse] at hnone
      cases hnone
      rcases hcases with ⟨hrc, hcalls⟩ | ⟨fields, hfields, ⟨topic, _, htopicData, _⟩, _⟩
      · exact absurd hrc (hgoes rfl)
      · rw [hparse] at hfields
        cases hfields
        rw [hdata] at htopicData
        cases htopicData
  · rintro ⟨hfits, hlong⟩
    by_cases htopic : p.TopicFits
    · obtain ⟨hin, hshort⟩ := hfits htopic
      obtain ⟨packetid, hrun⟩ := @mqttDeserializePublish_inside p [] htype htopic hin
      rw [List.append_nil] at hrun
      exact publishInside_passed hrun ((passedInside_iff packetid hin).mpr hshort)
    · obtain ⟨fields, hrun, _⟩ := @mqttDeserializePublish_noTopic p [] htype htopic
      rw [List.append_nil] at hrun
      refine publishInside_refused hrun ?_
      have h128 := hlong htopic
      rw [mqttPacketEncode, if_neg (by omega), List.length_cons]
      have := (mqttPacketEncode_lengthBytes (p.body.length / 128)).length_pos
      omega

end Publish

/-! ## The acknowledgements -/

section Acknowledgements

variable {c : SubClient} {iterator : Bool} {p : Packet}

theorem pubackInside (packetid : Nat) (messageHandler : TopicHandle) :
    ∃ r, iotxMcHandleRecvPuback (reading c p []) ⟨iterator, packetid, messageHandler⟩ = .ok r := by
  rw [iotxMcHandleRecvPuback, show (reading c p []).bufRead = p.minimal ++ [] from rfl,
    mqttDeserializeAck_packet, ok_bind]
  exact ⟨_, rfl⟩

/-- The code of a SUBACK that has one at most is stored; a second is written behind it. -/
theorem subackInside_iff (htype : headerType p.header = suback) :
    (∀ packetid messageHandler, ∃ r,
      iotxMcHandleRecvSuback (reading c p []) ⟨iterator, packetid, messageHandler⟩ = .ok r) ↔
        p.codes.length ≤ 1 := by
  constructor
  · intro hrun
    obtain ⟨r, hr⟩ := hrun 0 .zero
    exact (@iotxMcHandleRecvSuback_spec _ p [] _ _ rfl htype hr).1
  · intro hcodes packetid messageHandler
    obtain ⟨rc, count, grantedQoSs, hgranted, hrc⟩ : ∃ rc count grantedQoSs,
        grantedCodes p.codes = .ok (rc, count, grantedQoSs) ∧ rc = 1 := by
      match hc : p.codes with
      | [] => exact ⟨1, 0, [-1], rfl, rfl⟩
      | [code] => exact ⟨1, 1, [readChar code], rfl, rfl⟩
      | _ :: _ :: _ => simp [hc] at hcodes
    rw [iotxMcHandleRecvSuback, show (reading c p []).bufRead = p.minimal ++ [] from rfl,
      mqttDeserializeSuback_packet htype, hgranted, ok_bind, ok_bind]
    dsimp only
    rw [if_neg (not_not.mpr hrc), iotxMcMaskSubInfoFrom_eq]
    dsimp only
    split
    next => exact ⟨_, rfl⟩
    next =>
      split
      next => exact ⟨_, rfl⟩
      next hfound =>
        have hused := Option.isSome_iff_ne_none.mpr (not_or.mp hfound).2
        obtain ⟨r, hr, _⟩ := register_spec hused (p.ackId packetid)
        exact ⟨r, hr⟩

theorem removeLoop_total {m : TopicHandle} {handles : List TopicHandle}
    (h : (∀ h ∈ handles, h.used = false) ∨ m.used = true) :
    ∃ handles', removeLoop m handles = .ok handles' := by
  induction handles with
  | nil => exact ⟨[], rfl⟩
  | cons handle handles ih =>
      have hrest : (∀ h ∈ handles, h.used = false) ∨ m.used = true :=
        h.imp_left fun hnone h hmem => hnone h (List.mem_cons_of_mem handle hmem)
      obtain ⟨rest, hrun⟩ := ih hrest
      rw [removeLoop]
      split
      next => exact ⟨_, bind_eq_ok.mpr ⟨rest, hrun, rfl⟩⟩
      next hfilter =>
        have hhandle : handle.used = true := Option.isSome_iff_ne_none.mpr hfilter
        have hm : m.used = true := by
          rcases h with hnone | hm
          · exact absurd (hnone handle List.mem_cons_self) (by rw [hhandle]; decide)
          · exact hm
        rw [iotxMcCheckHandleIsIdentical_used hhandle hm, ok_bind, hrun, ok_bind]
        exact ⟨_, rfl⟩

/-- An UNSUBACK that answers no request compares the registered handlers with a variable
that holds anything. -/
theorem unsubackInside_iff :
    (∀ packetid messageHandler, ∃ r,
      iotxMcHandleRecvUnsuback (reading c p []) ⟨iterator, packetid, messageHandler⟩ = .ok r) ↔
        (c.registered = [] ∨ (c.handlerOf iterator (p.ackId 0) .zero).used = true) := by
  constructor
  · intro hrun
    obtain ⟨r, hr⟩ := hrun 0 .zero
    exact (@iotxMcHandleRecvUnsuback_spec _ p [] _ _ rfl hr).1
  · intro hanswers packetid messageHandler
    have hused : c.registered = [] ∨
        (c.handlerOf iterator (p.ackId 0) messageHandler).used = true := by
      refine hanswers.imp_right fun hfound => ?_
      rw [SubClient.handlerOf] at hfound ⊢
      cases iterator with
      | false =>
          rw [if_neg Bool.false_ne_true] at hfound
          exact absurd hfound (by decide)
      | true =>
          rw [if_pos rfl] at hfound ⊢
          cases hinfo : c.found (p.ackId 0) with
          | none => rw [hinfo] at hfound; exact absurd hfound (by decide)
          | some info => rw [hinfo] at hfound; exact hfound
    have hentries : (∀ h ∈ c.subHandle.toList, h.used = false) ∨
        (c.handlerOf iterator (p.ackId 0) messageHandler).used = true := by
      refine hused.imp_left fun hnone h hmem => ?_
      by_contra husedH
      have hreg : h ∈ c.registered := mem_registered.mpr ⟨hmem, by simpa using husedH⟩
      rw [hnone] at hreg
      cases hreg
    obtain ⟨handles, hloop⟩ := removeLoop_total hentries
    rw [iotxMcHandleRecvUnsuback, show (reading c p []).bufRead = p.minimal ++ [] from rfl,
      mqttDeserializeUnsuback_packet, ok_bind]
    dsimp only
    rw [if_neg (not_not.mpr rfl), iotxMcMaskSubInfoFrom_eq]
    dsimp only
    obtain ⟨client, hremove⟩ : ∃ client, removeHandles
        { reading c p [] with
          listSubWaitAck := (reading c p []).marked iterator (p.ackId 0) }
        ((reading c p []).handlerOf iterator (p.ackId 0) messageHandler) = .ok client := by
      rw [removeHandles]
      split
      next e herror =>
        have hcontra := herror.symm.trans hloop
        cases hcontra
      next => exact ⟨_, rfl⟩
    rw [hremove, ok_bind]
    exact ⟨_, rfl⟩

end Acknowledgements

/-- A handler stays inside a packet exactly if the packet is proper. -/
theorem handledInside_iff (c : SubClient) (iterator : Bool) (p : Packet) :
    HandledInside c iterator p ↔ Proper c iterator p := by
  constructor
  · intro h
    exact ⟨fun htype => ((publishInside_iff htype).mp (h.publish htype)).1,
      fun htype => ((publishInside_iff htype).mp (h.publish htype)).2,
      fun htype => (subackInside_iff htype).mp (h.suback htype),
      fun htype => unsubackInside_iff.mp (h.unsuback htype)⟩
  · intro h
    exact ⟨fun htype => (publishInside_iff htype).mpr ⟨h.topic htype, h.noTopic htype⟩,
      fun _ => pubackInside,
      fun htype => (subackInside_iff htype).mpr (h.codes htype),
      fun htype => unsubackInside_iff.mpr (h.answers htype)⟩

/-- A SUBACK with two return codes. -/
def twoCodes : Packet := shortPacket 0x90 [0, 1, 0, 0] suback_typed (by decide)

/-- The second granted QoS is written behind the variable. -/
theorem not_handledInside_twoCodes :
    ¬∀ (c : SubClient) (iterator : Bool) (p : Packet), HandledInside c iterator p := by
  intro hall
  obtain ⟨r, hr⟩ := (hall freshClient true twoCodes).suback (by decide) 0 .zero
  have hcodes := (@iotxMcHandleRecvSuback_spec _ twoCodes [] _ _ rfl (by decide) hr).1
  exact absurd hcodes (by decide)

end IotKit.Mqtt
