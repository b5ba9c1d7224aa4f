import IotKit.Lib.Run
import IotKit.Mqtt.Ack
import IotKit.Mqtt.Read

/-!
# Operations of a client

What happens to a connected client: the calls of the application, the packets of the
broker and the sweeps.  A packet that fits the read buffer stands there from its first
byte, with bytes of earlier packets behind it.

The second half says what the deserializers make of such a packet.
-/

namespace IotKit.Mqtt

open CMemory

/-! ## Steps -/

/-- What the environment answers while a packet is handled. -/
structure ReceiveEnv where
  ack : AckEnv
  down : Option (DownProcess Unit)
  writes : List Int

/-- A step of a client.  `mqtt_up_process` leaves another payload and the other fields of
the message. -/
inductive Operation where
  | subscribe (topicFilter : Option Bytes) (qos : Nat) (messageHandler : EventHandle)
      (env : PublishEnv)
  | unsubscribe (topicFilter : Option Bytes) (env : PublishEnv)
  | publish (topicName : Option Bytes) (msg : Message)
      (up : Option (Int × { payload : Bytes // payload.length < 65536 })) (env : PublishEnv)
  | receive (p : Packet) (stale : Bytes) (env : ReceiveEnv)
  | networkError
  | pubInfoProc (iterator : Bool) (writes : List (Option (List Int)))
  | subInfoProc (iterator : Bool) (expired : List Bool)

/-- The switch of `iotx_mc_cycle` for a packet that is in the read buffer. -/
def handlePacket (c : SubClient) (packetType : Nat) (env : ReceiveEnv) : Checked SubClient :=
  if packetType = puback then do
    let r ← iotxMcHandleRecvPuback c env.ack
    .ok r.client
  else if packetType = suback then do
    let r ← iotxMcHandleRecvSuback c env.ack
    .ok r.client
  else if packetType = publish then do
    let r ← iotxMcHandleRecvPublish env.down () c.toMcClient env.writes
    .ok { c with toMcClient := r.client }
  else if packetType = unsuback then do
    let r ← iotxMcHandleRecvUnsuback c env.ack
    .ok r.client
  else .ok c

/-- `iotx_mc_cycle` where it reads the packet `p`: the client when the handler is called. -/
def reading (c : SubClient) (p : Packet) (stale : Bytes) : SubClient :=
  { c with
    clientState :=
      if iotxMcKeepaliveProbeMax < c.keepaliveProbes then .disconnected else c.clientState
    keepaliveProbes := 0
    pingMark := 0
    bufRead := p.minimal ++ stale }

/-- `iotx_mc_cycle` where it reads the packet `p`. -/
def receivePacket (c : SubClient) (p : Packet) (stale : Bytes) (env : ReceiveEnv) :
    Checked SubClient :=
  if c.clientState ≠ .connected then .ok c
  else handlePacket (reading c p stale) (headerType p.header) env

/-- The message that `mqtt_up_process` leaves of one that has its packet id. -/
def protect (c : SubClient) (msg : Message)
    (up : Option (Int × { payload : Bytes // payload.length < 65536 })) :
    Option (Int × Message) :=
  up.map fun (rc, payload) =>
    (rc, { (assignPacketId c.toMcClient msg).2.2 with payload, short := payload.2 })

def operate (c : SubClient) : Operation → Checked SubClient
  | .subscribe topicFilter qos messageHandler env => do
      let r ← iotMqttSubscribe c topicFilter qos messageHandler env
      .ok r.client
  | .unsubscribe topicFilter env => do
      let r ← iotMqttUnsubscribe c topicFilter env
      .ok r.client
  | .publish topicName msg up env => do
      let r ← iotMqttPublish c topicName msg (protect c msg up) env
      .ok r.client
  | .receive p stale env => receivePacket c p stale env
  | .networkError => .ok { c with clientState := .disconnected }
  | .pubInfoProc iterator writes => mqttPubInfoProc c iterator writes
  | .subInfoProc iterator expired => .ok (mqttSubInfoProc c iterator expired).1

/-- A client after `iotx_mc_init`. -/
structure SubClient.Fresh (c : SubClient) : Prop where
  packetId : c.packetId = 0
  table : c.subHandle = Vector.replicate _ .zero
  published : c.listPubWaitAck = []
  pending : c.listSubWaitAck = []

/-! ## The packets -/

/-- The packet id of an acknowledgement, or what the variable held before it. -/
def Packet.ackId (p : Packet) (indeterminate : Nat) : Nat :=
  match p.body with
  | hi :: lo :: _ => ofBe16 hi lo
  | _ => indeterminate

/-- The return codes of a SUBACK. -/
def Packet.codes (p : Packet) : Bytes := p.body.drop 2

theorem load_of_drop {m rest : Bytes} {i : Nat} {b : UInt8} (h : m.drop i = b :: rest) :
    load m (i : Int) = .ok b := by
  rw [load_eq_ok, ← Nat.add_zero i, ← List.getElem?_drop, h]
  rfl

theorem drop_add_one {m rest : Bytes} {i : Nat} {b : UInt8} (h : m.drop i = b :: rest) :
    m.drop (i + 1) = rest := by
  rw [← List.drop_drop, h]
  rfl

theorem mqttPacketDecode_lengthBytes {bs : Bytes} {v : Nat} (h : LengthBytes bs v) :
    ∀ {buf rest : Bytes} {pos left len value multiplier : Nat}, bs.length ≤ left →
      buf.drop (pos + len) = bs ++ rest →
      mqttPacketDecode buf pos left len value multiplier =
        .ok (len + bs.length, value + v * multiplier) := by
  induction h with
  | @last b hb =>
      intro buf rest pos left len value multiplier hleft hdrop
      cases left with
      | zero => cases hleft
      | succ left =>
          rw [mqttPacketDecode, load_of_drop hdrop, ok_bind]
          simp [Nat.not_le.mpr hb, Nat.mod_eq_of_lt hb]
  | @more b bs v hb _ ih =>
      intro buf rest pos left len value multiplier hleft hdrop
      cases left with
      | zero => cases hleft
      | succ left =>
          rw [mqttPacketDecode, load_of_drop hdrop, ok_bind]
          simp only [hb, if_true]
          have hrest : buf.drop (pos + (len + 1)) = bs ++ rest := drop_add_one hdrop
          rw [ih (Nat.le_of_succ_le_succ hleft) hrest, List.length_cons, Nat.add_mul,
            Nat.mul_comm 128 v, Nat.mul_assoc, Nat.mul_comm 128 multiplier, Nat.add_assoc,
            Nat.add_assoc, Nat.add_comm 1]

section Acknowledgement

variable {p : Packet} {stale : Bytes}

theorem Packet.load_header : load (p.minimal ++ stale) 0 = .ok p.header :=
  load_of_drop (i := 0) List.drop_zero

theorem Packet.decodeBuf : mqttPacketDecodeBuf (p.minimal ++ stale) 1 =
    .ok ((mqttPacketEncode p.body.length).length, p.body.length) := by
  have hdrop : (p.minimal ++ stale).drop (1 + 0) =
      mqttPacketEncode p.body.length ++ (p.body ++ stale) := by simp [Packet.minimal]
  rw [mqttPacketDecodeBuf,
    mqttPacketDecode_lengthBytes (mqttPacketEncode_lengthBytes _) p.encode_length.2 hdrop]
  simp

theorem Packet.drop_body (p : Packet) (stale : Bytes) :
    (p.minimal ++ stale).drop (1 + (mqttPacketEncode p.body.length).length) = p.body ++ stale := by
  rw [Nat.add_comm]
  simp [Packet.minimal]

/-- A body shorter than a packet id has its length in one byte. -/
theorem encode_short {n : Nat} (h : n < 2) : (mqttPacketEncode n).length = 1 := by
  rw [mqttPacketEncode, if_pos (by omega)]
  rfl

theorem readInt_of_drop {m rest : Bytes} {i : Nat} {hi lo : UInt8}
    (h : m.drop i = hi :: lo :: rest) : readInt m i = .ok (ofBe16 hi lo) := by
  rw [readInt, load_of_drop h, ok_bind, load_of_drop (drop_add_one h), ok_bind]

/-- Either a packet has its id, or it is too short for one. -/
theorem Packet.ackId_cases (p : Packet) (indeterminate : Nat) :
    (p.body.length < 2 ∧ p.ackId indeterminate = indeterminate ∧ p.codes = []) ∨
      ∃ hi lo, p.body = hi :: lo :: p.codes ∧ p.ackId indeterminate = ofBe16 hi lo := by
  match hbody : p.body with
  | [] => exact Or.inl ⟨by simp, by simp [ackId, hbody], by simp [codes, hbody]⟩
  | [_] => exact Or.inl ⟨by simp, by simp [ackId, hbody], by simp [codes, hbody]⟩
  | hi :: lo :: rest =>
      exact Or.inr ⟨hi, lo, by simp [codes, hbody], by simp [ackId, hbody]⟩

theorem mqttDeserializeAck_packet (packetid : Nat) :
    mqttDeserializeAck (p.minimal ++ stale) packetid =
      .ok (1, headerType p.header, headerDup p.header, p.ackId packetid) := by
  rw [mqttDeserializeAck, Packet.load_header, ok_bind, Packet.decodeBuf, ok_bind]
  dsimp only
  rcases p.ackId_cases packetid with ⟨hshort, hid, _⟩ | ⟨hi, lo, hbody, hid⟩
  · rw [if_pos hshort, encode_short hshort, hid]
  · have hdrop := p.drop_body stale
    rw [hbody] at hdrop ⊢
    rw [if_neg (by simp), readInt_of_drop hdrop, ok_bind, hid]

theorem mqttDeserializeUnsuback_packet (packetid : Nat) :
    mqttDeserializeUnsuback (p.minimal ++ stale) packetid = .ok (1, p.ackId packetid) := by
  rw [mqttDeserializeUnsuback, mqttDeserializeAck_packet, ok_bind]
  simp

/-- What `MQTTDeserialize_suback` makes of the return codes.  A second one is written behind
the array. -/
def grantedCodes : Bytes → Checked (Int × Nat × List Int)
  | [] => .ok (1, 0, [-1])
  | [code] => .ok (1, 1, [readChar code])
  | _ :: _ :: _ => .error .store

theorem grantedLoop_codes {buf codes rest : Bytes} {curdata : Nat}
    (h : buf.drop curdata = codes ++ rest) :
    grantedLoop buf 1 codes.length curdata 0 [-1] = grantedCodes codes := by
  match codes with
  | [] => rfl
  | [code] =>
      rw [List.length_singleton, grantedLoop, load_of_drop h, ok_bind]
      rfl
  | code :: second :: codes =>
      rw [List.length_cons, List.length_cons, grantedLoop, load_of_drop h, ok_bind]
      have hsecond : load buf ((curdata + 1 : Nat) : Int) = .ok second :=
        load_of_drop (drop_add_one h)
      simp only [List.length_singleton, Nat.lt_one_iff, Nat.not_lt_zero, if_false, if_true]
      rw [grantedLoop, hsecond, ok_bind]
      rfl

theorem mqttDeserializeSuback_packet (htype : headerType p.header = suback) (packetid : Nat) :
    mqttDeserializeSuback (p.minimal ++ stale) packetid 1 0 [-1] =
      grantedCodes p.codes >>= fun (rc, count, grantedQoSs) =>
        .ok (rc, p.ackId packetid, count, grantedQoSs) := by
  rw [mqttDeserializeSuback, Packet.load_header, ok_bind, if_neg (not_not.mpr htype),
    Packet.decodeBuf, ok_bind]
  dsimp only
  rcases p.ackId_cases packetid with ⟨hshort, hid, hcodes⟩ | ⟨hi, lo, hbody, hid⟩
  · rw [if_pos hshort, encode_short hshort, hid, hcodes]
    rfl
  · have hdrop := p.drop_body stale
    rw [hbody] at hdrop ⊢
    have hcodes := drop_add_one (drop_add_one hdrop)
    have hlen : (hi :: lo :: p.codes).length - 2 = p.codes.length := rfl
    rw [if_neg (by simp), readInt_of_drop hdrop, ok_bind, hid, hlen, grantedLoop_codes hcodes]

end Acknowledgement

/-! ## Examples of packets and clients -/

/-- A packet with its length in one byte. -/
def shortPacket (header : UInt8) (body : Bytes)
    (typed : 1 ≤ headerType header ∧ headerType header ≤ 14) (hbody : body.length < 128) :
    Packet where
  header := header
  lengthBytes := [UInt8.ofNat body.length]
  body := body
  typed := typed
  denotes := by
    have hbytes := LengthBytes.last (b := UInt8.ofNat body.length) (by
      rw [UInt8.toNat_ofNat']
      omega)
    rwa [UInt8.toNat_ofNat', Nat.mod_eq_of_lt (by omega)] at hbytes
  short := by simp

theorem suback_typed : 1 ≤ headerType 0x90 ∧ headerType 0x90 ≤ 14 := by decide

theorem suback_short : ([0, 1, 0] : Bytes).length < 128 := by decide

/-- A connected client with a send buffer of 32 bytes. -/
def freshClient : SubClient where
  packetId := 0
  keepaliveProbes := 0
  bufSend := List.replicate 32 0
  bufRead := []
  subHandle := Vector.replicate _ .zero
  pingMark := 0
  clientState := .connected
  listPubWaitAck := []
  handleEvent := ⟨none, 0⟩
  listSubWaitAck := []

theorem freshClient_fresh : freshClient.Fresh := ⟨rfl, rfl, rfl, rfl⟩

/-- Enough memory, no hook, and every write accepted. -/
def quietEnv : ReceiveEnv := ⟨⟨true, 0, .zero⟩, none, []⟩

end IotKit.Mqtt
