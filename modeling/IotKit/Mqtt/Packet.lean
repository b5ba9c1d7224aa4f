import IotKit.Config
import IotKit.Lib.Memory

/-!
# MQTT packets

The packet codec of `MQTTPacket/`.  The header byte has the packet type in its
high nibble.  The remaining length has seven bits in each byte, the lowest first,
and the top bit of a byte says that another follows (`LengthBytes`).
`mqttPacketEncode` writes the shortest such sequence.

A pointer into the packet buffer is an offset.  The deserializers do not look at
`buflen`, so a read past the buffer is a fault of the model.
-/

namespace IotKit.Mqtt

open CMemory

/-! ## Packet types -/

def cptReserved : Nat := 0
def connack : Nat := 2
def publish : Nat := 3
def puback : Nat := 4
def pubrec : Nat := 5
def pubrel : Nat := 6
def subscribe : Nat := 8
def suback : Nat := 9
def unsubscribe : Nat := 10
def unsuback : Nat := 11
def pingresp : Nat := 13

theorem zero_ne_connack : 0 ≠ connack := by decide

/-- `header.bits.type`. -/
def headerType (header : UInt8) : Nat := header.toNat / 16
/-- `header.bits.dup`. -/
def headerDup (header : UInt8) : Nat := header.toNat / 8 % 2
/-- `header.bits.qos`. -/
def headerQos (header : UInt8) : Nat := header.toNat / 2 % 4
/-- `header.bits.retain`. -/
def headerRetain (header : UInt8) : Nat := header.toNat % 2

/-! ## The remaining length -/

/-- `MQTTPacket_encode`: the bytes written for a length. -/
def mqttPacketEncode (length : Nat) : Bytes :=
  if length / 128 = 0 then [UInt8.ofNat (length % 128)]
  else UInt8.ofNat (length % 128 + 128) :: mqttPacketEncode (length / 128)

/-- `MQTTPacket_len`: the size of a packet with this remaining length.  The
bound of the third step is one less than what three bytes can hold. -/
def mqttPacketLen (remLen : Nat) : Nat :=
  let size := remLen + 1
  if size < 128 then size + 1
  else if size < 16384 then size + 2
  else if size < 2097151 then size + 3
  else size + 4

/-- `MQTTPacket_decode` from offset `pos` on: the bytes counted and the value.
A fifth byte is counted but not read. -/
def mqttPacketDecode (buf : Bytes) (pos : Nat) :
    Nat → Nat → Nat → Nat → Checked (Nat × Nat)
  | 0, len, value, _ => .ok (len + 1, value)
  | left + 1, len, value, multiplier => do
      let c ← load buf ((pos + len : Nat) : Int)
      let value := value + c.toNat % 128 * multiplier
      if 128 ≤ c.toNat then mqttPacketDecode buf pos left (len + 1) value (multiplier * 128)
      else .ok (len + 1, value)

/-- `MQTTPacket_decodeBuf`. -/
def mqttPacketDecodeBuf (buf : Bytes) (pos : Nat) : Checked (Nat × Nat) :=
  mqttPacketDecode buf pos 4 0 0 1

/-- The byte sequences that denote a remaining length. -/
inductive LengthBytes : Bytes → Nat → Prop where
  | last {b : UInt8} : b.toNat < 128 → LengthBytes [b] b.toNat
  | more {b : UInt8} {bs : Bytes} {value : Nat} :
      128 ≤ b.toNat → LengthBytes bs value →
      LengthBytes (b :: bs) (b.toNat % 128 + 128 * value)

theorem mqttPacketEncode_lengthBytes (length : Nat) :
    LengthBytes (mqttPacketEncode length) length := by
  rw [mqttPacketEncode]
  split
  next hlast =>
    have hval : (UInt8.ofNat (length % 128)).toNat = length := by
      rw [UInt8.toNat_ofNat']
      omega
    have hbytes := LengthBytes.last (b := UInt8.ofNat (length % 128)) (by omega)
    rwa [hval] at hbytes
  next hmore =>
    have hval : (UInt8.ofNat (length % 128 + 128)).toNat = length % 128 + 128 := by
      rw [UInt8.toNat_ofNat']
      omega
    have hbytes := LengthBytes.more (b := UInt8.ofNat (length % 128 + 128)) (by omega)
      (mqttPacketEncode_lengthBytes (length / 128))
    rw [hval] at hbytes
    have hsum : (length % 128 + 128) % 128 + 128 * (length / 128) = length := by omega
    rwa [hsum] at hbytes
termination_by length

theorem LengthBytes.length_pos {bs : Bytes} {value : Nat} (h : LengthBytes bs value) :
    0 < bs.length := by
  cases h with
  | last _ => exact Nat.zero_lt_one
  | more _ _ => exact Nat.succ_pos _

/-- No byte sequence for the same length is shorter. -/
theorem mqttPacketEncode_minimal {bs : Bytes} {value : Nat} (h : LengthBytes bs value) :
    (mqttPacketEncode value).length ≤ bs.length := by
  induction h with
  | last hb =>
      rw [mqttPacketEncode, if_pos (Nat.div_eq_of_lt hb)]
      exact Nat.le_refl 1
  | @more b bs value _ _ ih =>
      rw [mqttPacketEncode]
      split
      · rw [List.length_singleton, List.length_cons]
        omega
      · have hdiv : (b.toNat % 128 + 128 * value) / 128 = value := by omega
        rw [hdiv, List.length_cons, List.length_cons]
        exact Nat.succ_le_succ ih

/-- A packet on the wire: its header byte, its remaining length in at most four
bytes, and its body. -/
structure Packet where
  header : UInt8
  lengthBytes : Bytes
  body : Bytes
  typed : 1 ≤ headerType header ∧ headerType header ≤ 14
  denotes : LengthBytes lengthBytes body.length
  short : lengthBytes.length ≤ 4

def Packet.bytes (p : Packet) : Bytes := p.header :: (p.lengthBytes ++ p.body)

/-- The packet with its remaining length in the fewest bytes. -/
def Packet.minimal (p : Packet) : Bytes :=
  p.header :: (mqttPacketEncode p.body.length ++ p.body)

/-- The bytes of a sequence of packets. -/
def stream (packets : List Packet) : Bytes := packets.flatMap Packet.bytes

@[simp] theorem stream_cons (p : Packet) (ps : List Packet) :
    stream (p :: ps) = p.bytes ++ stream ps := rfl

theorem Packet.encode_length (p : Packet) :
    0 < (mqttPacketEncode p.body.length).length ∧ (mqttPacketEncode p.body.length).length ≤ 4 :=
  ⟨(mqttPacketEncode_lengthBytes _).length_pos,
    Nat.le_trans (mqttPacketEncode_minimal p.denotes) p.short⟩

/-! ## CONNACK -/

/-- `MQTTDeserialize_connack`: the return code, and the code of the broker where
it is 1. -/
def mqttDeserializeConnack (buf : Bytes) : Checked (Nat × UInt8) := do
  let header ← load buf 0
  if headerType header ≠ connack then .ok (0, 255)
  else do
    let (rc, mylen) ← mqttPacketDecodeBuf buf 1
    if mylen < 2 then .ok (rc, 255)
    else do
      let _flags ← load buf ((1 + rc : Nat) : Int)
      let connackRc ← load buf ((1 + rc + 1 : Nat) : Int)
      .ok (1, connackRc)

/-! ## PUBLISH -/

/-- `MQTTSerialize_publishLength`. -/
def mqttSerializePublishLength (qos : Nat) (topicName : Bytes) (payloadlen : Nat) : Nat :=
  2 + topicName.length + payloadlen + (if 0 < qos then 2 else 0)

/-- The header byte of a PUBLISH. -/
def publishHeader (dup qos retained : Nat) : UInt8 :=
  UInt8.ofNat (16 * publish + 8 * (dup % 2) + 2 * (qos % 4) + retained % 2)

/-- A PUBLISH up to its payload. -/
def publishHead (dup qos retained packetid : Nat) (topicName : Bytes) (payloadlen : Nat) :
    Bytes :=
  publishHeader dup qos retained ::
    (mqttPacketEncode (mqttSerializePublishLength qos topicName payloadlen) ++
      (be16 topicName.length ++ (topicName ++ (if 0 < qos then be16 packetid else []))))

/-- `MQTTSerialize_publish`: the result and the buffer. -/
def mqttSerializePublish (buf : Bytes) (dup qos retained packetid : Nat)
    (topicName payload : Bytes) : Checked (Int × Bytes) :=
  let remLen := mqttSerializePublishLength qos topicName payload.length
  if buf.length < mqttPacketLen remLen then .ok (mqttPacketBufferTooShort, buf)
  else do
    let packet := publishHead dup qos retained packetid topicName payload.length ++ payload
    let buf ← storeN buf 0 packet
    .ok (packet.length, buf)

theorem mqttPacketEncode_length_le {n k : Nat} (h : n < 128 ^ (k + 1)) :
    (mqttPacketEncode n).length ≤ k + 1 := by
  induction k generalizing n with
  | zero =>
      rw [mqttPacketEncode, if_pos (Nat.div_eq_of_lt (by omega))]
      exact Nat.le_refl 1
  | succ k ih =>
      rw [mqttPacketEncode]
      split
      · exact Nat.succ_le_succ (Nat.zero_le _)
      · rw [List.length_cons]
        refine Nat.succ_le_succ (ih ?_)
        rw [Nat.pow_succ] at h
        omega

/-- `MQTTPacket_len` never counts too few bytes. -/
theorem encode_length_le_mqttPacketLen {remLen : Nat} (h : remLen < 128 ^ 4) :
    1 + (mqttPacketEncode remLen).length + remLen ≤ mqttPacketLen remLen := by
  have h4 : (mqttPacketEncode remLen).length ≤ 4 := mqttPacketEncode_length_le h
  have h1 : remLen < 128 ^ 1 → (mqttPacketEncode remLen).length ≤ 1 := mqttPacketEncode_length_le
  have h2 : remLen < 128 ^ 2 → (mqttPacketEncode remLen).length ≤ 2 := mqttPacketEncode_length_le
  have h3 : remLen < 128 ^ 3 → (mqttPacketEncode remLen).length ≤ 3 := mqttPacketEncode_length_le
  dsimp only [mqttPacketLen]
  split
  · omega
  split
  · omega
  split
  · omega
  · omega

theorem publishHead_length (dup qos retained packetid : Nat) (topicName : Bytes)
    (payloadlen : Nat) :
    (publishHead dup qos retained packetid topicName payloadlen).length + payloadlen =
      1 + (mqttPacketEncode (mqttSerializePublishLength qos topicName payloadlen)).length +
        mqttSerializePublishLength qos topicName payloadlen := by
  rw [publishHead, List.length_cons, List.length_append, List.length_append, List.length_append,
    be16_length]
  generalize (mqttPacketEncode _).length = k
  rw [mqttSerializePublishLength]
  split
  · rw [be16_length]
    omega
  · rw [List.length_nil]
    omega

/-- A PUBLISH that fits is the first bytes of the buffer, and its last are the
payload. -/
theorem mqttSerializePublish_of_fits (dup retained packetid : Nat) {buf : Bytes} {qos : Nat}
    {topicName payload : Bytes}
    (hsmall : mqttSerializePublishLength qos topicName payload.length < 128 ^ 4)
    (hfit : mqttPacketLen (mqttSerializePublishLength qos topicName payload.length) ≤ buf.length) :
    let packet := publishHead dup qos retained packetid topicName payload.length ++ payload
    ∃ buf', mqttSerializePublish buf dup qos retained packetid topicName payload =
        .ok (packet.length, buf') ∧
      packet.length ≤ buf.length ∧ buf'.length = buf.length ∧
      buf'.take packet.length = packet := by
  intro packet
  have hlen : packet.length ≤ buf.length := by
    show (publishHead dup qos retained packetid topicName payload.length ++ payload).length ≤ _
    rw [List.length_append, publishHead_length]
    exact Nat.le_trans (encode_length_le_mqttPacketLen hsmall) hfit
  have hstore : storeN buf 0 packet = .ok _ :=
    storeN_of_le (i := 0) (by rw [Nat.zero_add]; exact hlen)
  refine ⟨_, ?_, hlen, storeN_length hstore, ?_⟩
  · rw [mqttSerializePublish]
    dsimp only
    rw [if_neg (Nat.not_lt.mpr hfit)]
    show storeN buf 0 packet >>= _ = _
    rw [hstore, ok_bind]
  · rw [List.take_zero, List.nil_append, List.take_left]

/-- What `MQTTDeserialize_publish` returns through its pointers: offsets of the
topic name and of the payload, `none` for NULL.  The payload length is negative
where the packet ends inside the packet id. -/
structure PublishFields where
  dup : Nat
  qos : Nat
  retained : Nat
  packetid : Nat
  topicData : Option Nat
  topicLen : Nat
  payload : Option Nat
  payloadlen : Int
deriving DecidableEq, Repr

/-- The fields before the call. -/
def PublishFields.zero : PublishFields := ⟨0, 0, 0, 0, none, 0, none, 0⟩

/-- `readInt` at an offset. -/
def readInt (buf : Bytes) (pos : Nat) : Checked Nat := do
  let hi ← load buf (pos : Int)
  let lo ← load buf ((pos + 1 : Nat) : Int)
  .ok (ofBe16 hi lo)

/-- `MQTTDeserialize_publish`: its result and the fields.  Where the topic does not
fit, the result is the number of length bytes, which may be the 1 of success. -/
def mqttDeserializePublish (buf : Bytes) : Checked (Nat × PublishFields) := do
  let header ← load buf 0
  if headerType header ≠ publish then .ok (0, .zero)
  else do
    let fields := { PublishFields.zero with
      dup := headerDup header, qos := headerQos header, retained := headerRetain header }
    let (rc, mylen) ← mqttPacketDecodeBuf buf 1
    let curdata := 1 + rc
    let enddata := curdata + mylen
    if enddata - curdata ≤ 1 then .ok (rc, fields)
    else do
      let topicLen ← readInt buf curdata
      let curdata := curdata + 2
      let fields := { fields with topicLen }
      if enddata < curdata + topicLen then .ok (rc, fields)
      else do
        let fields := { fields with topicData := some curdata }
        let curdata := curdata + topicLen
        if 0 < fields.qos then do
          let packetid ← readInt buf curdata
          let curdata := curdata + 2
          .ok (1, { fields with packetid, payload := some curdata,
                                payloadlen := (enddata : Int) - curdata })
        else
          .ok (1, { fields with payload := some curdata, payloadlen := (enddata : Int) - curdata })

/-- Where there is a topic name, it lies before the payload. -/
theorem mqttDeserializePublish_topic {buf : Bytes} {rc topicData off : Nat}
    {fields : PublishFields} (h : mqttDeserializePublish buf = .ok (rc, fields))
    (htopic : fields.topicData = some topicData) (hpayload : fields.payload = some off) :
    topicData + fields.topicLen ≤ off := by
  obtain ⟨_, _, h⟩ := bind_eq_ok.mp h
  split at h
  · cases h
    cases htopic
  obtain ⟨⟨_, _⟩, _, h⟩ := bind_eq_ok.mp h
  dsimp only at h
  split at h
  · cases h
    cases htopic
  obtain ⟨_, _, h⟩ := bind_eq_ok.mp h
  split at h
  · cases h
    cases htopic
  split at h
  · obtain ⟨_, _, h⟩ := bind_eq_ok.mp h
    cases h
    cases htopic
    cases hpayload
    exact Nat.le_add_right _ _
  · cases h
    cases htopic
    cases hpayload
    exact Nat.le_refl _

/-! ## Acknowledgements -/

/-- `MQTTSerialize_ack`: the result and the buffer. -/
def mqttSerializeAck (buf : Bytes) (packettype dup packetid : Nat) : Checked (Int × Bytes) :=
  if buf.length < 4 then .ok (mqttPacketBufferTooShort, buf)
  else do
    -- of the types the client sends only PUBREL (6) has a QoS bit
    let qos := if packettype = 6 then 1 else 0
    let header := UInt8.ofNat (16 * packettype + 8 * (dup % 2) + 2 * qos)
    let packet := header :: (mqttPacketEncode 2 ++ be16 packetid)
    let buf ← storeN buf 0 packet
    .ok (packet.length, buf)

/-! ## Packets in the send buffer -/

/-- A serializer leaves its packet at the front of the buffer. -/
theorem stored_packet {tooShort : Prop} [Decidable tooShort] {buf packet buf' : Bytes} {len : Int}
    (h : (if tooShort then .ok (mqttPacketBufferTooShort, buf)
      else do
        let buf ← storeN buf 0 packet
        .ok (packet.length, buf) : Checked (Int × Bytes)) = .ok (len, buf'))
    (hpos : 0 < len) : len = packet.length ∧ packet.length ≤ buf'.length ∧
      buf'.take packet.length = packet := by
  split at h
  · cases h
    exact absurd hpos (by decide)
  · obtain ⟨_, hstore, h⟩ := bind_eq_ok.mp h
    cases h
    have hlen := storeN_length hstore
    obtain ⟨-, hle, rfl⟩ := storeN_eq_ok.mp hstore
    refine ⟨rfl, ?_, ?_⟩
    · rw [hlen]
      exact (Nat.zero_add packet.length ▸ hle : packet.length ≤ buf.length)
    · rw [show Int.toNat 0 = 0 from rfl, List.take_zero, List.nil_append, List.take_left]

/-- A serializer keeps the size of the buffer. -/
theorem stored_length {tooShort : Prop} [Decidable tooShort] {buf packet buf' : Bytes} {len : Int}
    (h : (if tooShort then .ok (mqttPacketBufferTooShort, buf)
      else do
        let buf ← storeN buf 0 packet
        .ok (packet.length, buf) : Checked (Int × Bytes)) = .ok (len, buf')) :
    buf'.length = buf.length := by
  split at h
  · cases h
    rfl
  · obtain ⟨_, hstore, h⟩ := bind_eq_ok.mp h
    cases h
    exact storeN_length hstore

/-- A packet that the remaining length can count is serialized. -/
theorem stored_ok {remLen : Nat} {buf packet : Bytes}
    (hlen : packet.length = 1 + (mqttPacketEncode remLen).length + remLen)
    (hsmall : remLen < 128 ^ 4) :
    ∃ res, (if buf.length < mqttPacketLen remLen then .ok (mqttPacketBufferTooShort, buf)
      else do
        let buf ← storeN buf 0 packet
        .ok (packet.length, buf) : Checked (Int × Bytes)) = .ok res := by
  split
  next => exact ⟨_, rfl⟩
  next hfit =>
    have hle := encode_length_le_mqttPacketLen hsmall
    have hstore : storeN buf ((0 : Nat) : Int) packet = .ok _ := storeN_of_le (by omega)
    exact ⟨_, bind_eq_ok.mpr ⟨_, hstore, rfl⟩⟩

end IotKit.Mqtt
