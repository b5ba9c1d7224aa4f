import IotKit.CommIf.Process
import IotKit.Security.Keystream

/-!
# Downlink authenticity

A payload is `Verified` when its last four bytes are the CMAC of those before.
`Authentic` says that the handlers are given only what was decrypted from a
verified payload.  `iotx_mc_handle_recv_PUBLISH` drops the return code of the
down process, so a payload that it rejected is handed over as it came
(`handleRecvPublish_authentic_iff`).

The results are about calls with a defined result, where every access to memory
is inside its object.
-/

namespace IotKit.CommIf

open CMemory Mqtt Security

/-! ## Specification -/

/-- The last four bytes are the first four of the CMAC of the bytes before them. -/
def Verified (C : Cipher) (nwkskey payload : Bytes) : Prop :=
  payload.drop (payload.length - 4) =
    (C.cmac nwkskey (payload.take (payload.length - 4))).toList.take 4

/-- `text` is what `iotx_comm_payload_decrypt` made of the verified payload of
length `len` at offset `off`. -/
structure Opened (C : Cipher) (mode : SecureMode) (deviceId : Bytes) (malloc : Malloc)
    (conn : ConnInfo) (mem : Bytes) (off len : Nat) (text : Bytes) : Prop where
  verified : Verified C conn.nwkskey ((mem.drop off).take len)
  decrypted : ∃ outBuf n conn' out, malloc len = some outBuf ∧
    iotxCommPayloadDecrypt C mode deviceId conn outBuf len mem off len = .ok (n, conn', out) ∧
    0 < n ∧ loadN out 0 n.toNat = .ok text

/-- Every call is given the text of an opened payload. -/
def Authentic (C : Cipher) (mode : SecureMode) (deviceId : Bytes) (malloc : Malloc)
    (conn : ConnInfo) (bufRead : Bytes) (calls : List HandlerCall) : Prop :=
  ∀ call ∈ calls, ∃ fields off, mqttDeserializePublish bufRead = .ok (1, fields) ∧
    fields.payload = some off ∧
    Opened C mode deviceId malloc conn bufRead off (payloadLen fields) call.msg.payload

/-- The payload of a parsed packet is longer than a frame without text, there is
memory for its text, and it is verified. -/
def Acceptable (C : Cipher) (malloc : Malloc) (conn : ConnInfo) (bufRead : Bytes)
    (fields : PublishFields) : Prop :=
  ∃ off, fields.payload = some off ∧ 6 < payloadLen fields ∧ (malloc (payloadLen fields)).isSome ∧
    Verified C conn.nwkskey ((bufRead.drop off).take (payloadLen fields))

theorem payloadLen_lt (fields : PublishFields) : payloadLen fields < 65536 := by
  rw [payloadLen]
  omega

/-! ## The decryption -/

section Decrypt

variable {C : Cipher} {mode : SecureMode} {deviceId : Bytes} {conn conn' : ConnInfo}
  {outBuf out mem mem' : Bytes} {off len len' : Nat} {n : Int}

theorem downlinkText_length {destlen : Nat}
    (h : downlinkText C mode deviceId conn outBuf destlen mem off = .ok out) :
    out.length = outBuf.length := by
  rw [downlinkText] at h
  split at h
  · obtain ⟨d, hrun, h⟩ := bind_eq_ok.mp h
    cases h
    exact payloadEncrypt_length hrun
  · obtain ⟨_, _, h⟩ := bind_eq_ok.mp h
    exact storeN_length h

/-- The result is 0 where the check fails, and otherwise the length of the text,
which wraps below six bytes. -/
theorem decrypt_cases (hmode : mode ≠ .tlsGuiderPlain) (hlen : outBuf.length = len)
    (h : iotxCommPayloadDecrypt C mode deviceId conn outBuf len mem off len =
      .ok (n, conn', out)) :
    out.length = len ∧ ∃ msg tag, loadN (mem.drop off) 0 ((len + 65532) % 65536) = .ok msg ∧
      loadN mem ((off : Int) + len - 4) 4 = .ok tag ∧
      n = if tag = (C.cmac conn.nwkskey msg).toList.take 4 then
          (((len + 65530) % 65536 : Nat) : Int)
        else 0 := by
  have hfits : ¬ ((len : Int) - 2 - 4 > len) := by omega
  rw [iotxCommPayloadDecrypt, if_neg hmode, if_neg hfits] at h
  obtain ⟨mic, hmic, h⟩ := bind_eq_ok.mp h
  obtain ⟨msg, hmsg, hmic⟩ := bind_eq_ok.mp hmic
  obtain rfl := Except.ok.inj hmic
  obtain ⟨tag, htag, h⟩ := bind_eq_ok.mp h
  split at h
  next hsame =>
    obtain ⟨_, _, h⟩ := bind_eq_ok.mp h
    obtain ⟨_, _, h⟩ := bind_eq_ok.mp h
    obtain ⟨text, htext, h⟩ := bind_eq_ok.mp h
    obtain ⟨hn, hpair⟩ := Prod.mk.inj (Except.ok.inj h)
    obtain ⟨_, rfl⟩ := Prod.mk.inj hpair
    refine ⟨(downlinkText_length htext).trans hlen, msg, tag, hmsg, htag, ?_⟩
    rw [if_pos hsame]
    exact hn.symm
  next hdiffer =>
    obtain ⟨hn, hpair⟩ := Prod.mk.inj (Except.ok.inj h)
    obtain ⟨_, rfl⟩ := Prod.mk.inj hpair
    refine ⟨hlen, msg, tag, hmsg, htag, ?_⟩
    rw [if_neg hdiffer]
    exact hn.symm

/-- A frame longer than six bytes gives its text exactly where it is verified. -/
theorem decrypt_long (hmode : mode ≠ .tlsGuiderPlain) (hlen : outBuf.length = len)
    (hlong : 6 < len) (hword : len < 65536)
    (h : iotxCommPayloadDecrypt C mode deviceId conn outBuf len mem off len =
      .ok (n, conn', out)) :
    (Verified C conn.nwkskey ((mem.drop off).take len) → n = ((len - 6 : Nat) : Int)) ∧
      (0 < n → Verified C conn.nwkskey ((mem.drop off).take len)) := by
  obtain ⟨_, msg, tag, hmsg, htag, hn⟩ := decrypt_cases hmode hlen h
  have hword' : (len + 65532) % 65536 = len - 4 := by omega
  have htext : (len + 65530) % 65536 = len - 6 := by omega
  rw [hword'] at hmsg
  rw [htext] at hn
  obtain ⟨_, _, rfl⟩ := loadN_eq_ok.mp hmsg
  have htag' : loadN mem ((off + (len - 4) : Nat) : Int) 4 = .ok tag := by
    rw [show ((off + (len - 4) : Nat) : Int) = (off : Int) + len - 4 by omega]
    exact htag
  obtain ⟨_, hin, rfl⟩ := loadN_eq_ok.mp htag'
  rw [Int.toNat_natCast] at hin hn
  have hsize : ((mem.drop off).take len).length = len := by
    rw [List.length_take, List.length_drop]
    omega
  have hmsg' : ((mem.drop off).take len).take (len - 4) = (mem.drop off).take (len - 4) := by
    rw [List.take_take, Nat.min_eq_left (Nat.sub_le len 4)]
  have hlast : ((mem.drop off).take len).drop (len - 4) = (mem.drop (off + (len - 4))).take 4 := by
    rw [List.drop_take, List.drop_drop, show len - (len - 4) = 4 by omega]
  have hiff : Verified C conn.nwkskey ((mem.drop off).take len) ↔
      (mem.drop (off + (len - 4))).take 4 =
        (C.cmac conn.nwkskey ((mem.drop off).take (len - 4))).toList.take 4 := by
    rw [Verified, hsize, hmsg', hlast]
  rw [show (0 : Int).toNat = 0 from rfl, List.drop_zero] at hn
  rw [hiff, hn]
  constructor
  · intro hsame
    rw [if_pos hsame]
  · intro hpos
    split at hpos
    next hsame => exact hsame
    next => exact absurd hpos (Int.lt_irrefl 0)

end Decrypt

/-! ## The down process -/

section DownProcess

variable {C : Cipher} {mode : SecureMode} {deviceId : Bytes} {malloc : Malloc}
  {conn conn' : ConnInfo} {mem mem' payload : Bytes} {off len len' : Nat} {rc : Int}

/-- The down process keeps the bytes before the payload.  Either it changes nothing
and there was no memory or the check failed, or it leaves the text. -/
theorem iotxMqttDownProcess_cases (hmode : mode ≠ .tlsGuiderPlain)
    (h : iotxMqttDownProcess C mode deviceId malloc conn mem off len =
      .ok (rc, conn', mem', len')) :
    mem'.take off = mem.take off ∧ ∀ outBuf, malloc len = some outBuf →
      ∃ n conn'' out, iotxCommPayloadDecrypt C mode deviceId conn outBuf len mem off len =
          .ok (n, conn'', out) ∧
        (0 < n → loadN out 0 n.toNat = .ok ((mem'.drop off).take len')) := by
  rw [iotxMqttDownProcess] at h
  split at h
  next hnone =>
    cases h
    exact ⟨rfl, fun outBuf hsome => (nomatch hnone.symm.trans hsome)⟩
  next outBuf hsome =>
    obtain ⟨⟨n, conn'', out⟩, hdecrypt, h⟩ := bind_eq_ok.mp h
    obtain ⟨_, msg, tag, _, _, hn⟩ := decrypt_cases hmode outBuf.2 hdecrypt
    have hword : (n % 65536).toNat = n.toNat := by
      rw [hn]
      split <;> omega
    dsimp only at h
    rw [hword] at h
    split at h
    next hzero =>
      cases h
      refine ⟨rfl, fun outBuf' hsome' => ?_⟩
      obtain rfl := Option.some.inj (hsome.symm.trans hsome')
      exact ⟨n, _, out, hdecrypt, fun hpos => by omega⟩
    next hpos =>
      obtain ⟨mem₁, hreplace, h⟩ := bind_eq_ok.mp h
      cases h
      obtain ⟨text, hload, htext, hfront⟩ := replacePayload_ok hreplace
      refine ⟨hfront, fun outBuf' hsome' => ?_⟩
      obtain rfl := Option.some.inj (hsome.symm.trans hsome')
      exact ⟨n, _, out, hdecrypt, fun _ => htext.symm ▸ hload⟩

/-- What the down process leaves is opened exactly where the payload is acceptable. -/
theorem opened_iff (hmode : mode ≠ .tlsGuiderPlain) (hword : len < 65536)
    (h : iotxMqttDownProcess C mode deviceId malloc conn mem off len =
      .ok (rc, conn', mem', len')) :
    Opened C mode deviceId malloc conn mem off len ((mem'.drop off).take len') ↔
      6 < len ∧ (malloc len).isSome ∧ Verified C conn.nwkskey ((mem.drop off).take len) := by
  constructor
  · rintro ⟨hverified, outBuf, n, conn'', out, hsome, hdecrypt, hpos, hload⟩
    refine ⟨?_, Option.isSome_iff_exists.mpr ⟨outBuf, hsome⟩, hverified⟩
    obtain ⟨hout, msg, tag, _, _, hn⟩ := decrypt_cases hmode outBuf.2 hdecrypt
    obtain ⟨_, hin, _⟩ := loadN_eq_ok.mp hload
    rw [hout, hn] at hin
    rw [hn] at hpos
    split at hpos
    next hsame =>
      rw [if_pos hsame] at hin
      omega
    next => exact absurd hpos (Int.lt_irrefl 0)
  · rintro ⟨hlong, hsome, hverified⟩
    obtain ⟨outBuf, hsome⟩ := Option.isSome_iff_exists.mp hsome
    obtain ⟨n, conn'', out, hdecrypt, htext⟩ := (iotxMqttDownProcess_cases hmode h).2 outBuf hsome
    have hn := (decrypt_long hmode outBuf.2 hlong hword hdecrypt).1 hverified
    have hpos : 0 < n := by omega
    exact ⟨hverified, outBuf, n, conn'', out, hsome, hdecrypt, hpos, htext hpos⟩

end DownProcess

/-! ## The handlers -/

/-- The topic name is read from the bytes before the payload. -/
theorem topicName_congr {bufRead bufRead' : Bytes} {fields : PublishFields} {off : Nat}
    (hparse : mqttDeserializePublish bufRead = .ok (1, fields)) (hoff : fields.payload = some off)
    (hfront : bufRead'.take off = bufRead.take off) :
    topicName bufRead' fields = topicName bufRead fields := by
  rw [topicName, topicName]
  congr 1
  funext i
  split
  next hi =>
    split
    next topicData htopic =>
      have hbefore := mqttDeserializePublish_topic hparse htopic hoff
      have hbyte : bufRead'[topicData + i]? = bufRead[topicData + i]? := by
        rw [← List.getElem?_take_of_lt (show topicData + i < off by omega), hfront,
          List.getElem?_take_of_lt (by omega)]
      rw [load, load, Int.toNat_natCast, hbyte]
    next => rfl
  next => rfl

section Handlers

variable {C : Cipher} {mode : SecureMode} {deviceId : Bytes} {malloc : Malloc}
  {conn conn' : ConnInfo} {bufRead' payload : Bytes} {c : McClient} {fields : PublishFields}
  {writes : List Int} {r : RecvResult ConnInfo} {off : Nat}

/-- The read buffer and the message after the down process. -/
theorem openPayload_some
    (h : openPayload (some (iotxMqttDownProcess C mode deviceId malloc)) conn c.bufRead fields =
      .ok (conn', bufRead', payload)) (hoff : fields.payload = some off) :
    ∃ rc len', iotxMqttDownProcess C mode deviceId malloc conn c.bufRead off (payloadLen fields) =
        .ok (rc, conn', bufRead', len') ∧ payload = (bufRead'.drop off).take len' := by
  unfold openPayload at h
  rw [hoff] at h
  obtain ⟨⟨rc, _, _, len'⟩, hdown, h⟩ := bind_eq_ok.mp h
  cases h
  exact ⟨rc, len', hdown, rfl⟩

theorem opened_iff_of_openPayload (hmode : mode ≠ .tlsGuiderPlain)
    (h : openPayload (some (iotxMqttDownProcess C mode deviceId malloc)) conn c.bufRead fields =
      .ok (conn', bufRead', payload)) (hoff : fields.payload = some off) :
    Opened C mode deviceId malloc conn c.bufRead off (payloadLen fields) payload ↔
      6 < payloadLen fields ∧ (malloc (payloadLen fields)).isSome ∧
        Verified C conn.nwkskey ((c.bufRead.drop off).take (payloadLen fields)) := by
  obtain ⟨rc, len', hdown, rfl⟩ := openPayload_some h hoff
  exact opened_iff hmode (payloadLen_lt fields) hdown

theorem topicName_openPayload (hmode : mode ≠ .tlsGuiderPlain)
    (hparse : mqttDeserializePublish c.bufRead = .ok (1, fields))
    (h : openPayload (some (iotxMqttDownProcess C mode deviceId malloc)) conn c.bufRead fields =
      .ok (conn', bufRead', payload)) :
    topicName bufRead' fields = topicName c.bufRead fields := by
  cases hoff : fields.payload with
  | none =>
      unfold openPayload at h
      rw [hoff] at h
      obtain ⟨_, _, h⟩ := bind_eq_ok.mp h
      cases h
      rfl
  | some off =>
      obtain ⟨rc, len', hdown, rfl⟩ := openPayload_some h hoff
      exact topicName_congr hparse hoff (iotxMqttDownProcess_cases hmode hdown).1

end Handlers

/-! ## A forged frame -/

/-- A PUBLISH to the topic `a` whose payload ends with four times the byte `tag`. -/
def forgedPublish (tag : UInt8) : Bytes := [0x30, 10, 0, 1, 97, 0, 1, 66, tag, tag, tag, tag]

/-- A client with a default handler. -/
def listeningClient (bufRead : Bytes) : McClient where
  packetId := 0
  keepaliveProbes := 0
  bufSend := []
  bufRead
  subHandle := Vector.replicate _ ⟨none, ⟨none, 0⟩⟩
  pingMark := 0
  clientState := .connected
  listPubWaitAck := []
  handleEvent := ⟨some 0, 0⟩

/-- A cipher whose tags are zero. -/
def zeroCipher : Cipher := ⟨fun _ block => block, fun _ _ => Vector.replicate 16 0⟩

def zeroMalloc : Malloc := fun n => some ⟨List.replicate n 0, List.length_replicate⟩

def newSession : ConnInfo := ⟨[], [], [], [], 0, 0⟩

/-- The call in mode 2. -/
def receiveForged (tag : UInt8) : Checked (RecvResult ConnInfo) :=
  iotxMcHandleRecvPublish (some (iotxMqttDownProcess zeroCipher .tcpGuiderFormplain [] zeroMalloc))
    newSession (listeningClient (forgedPublish tag)) []

end IotKit.CommIf
