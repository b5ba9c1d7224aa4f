import IotKit.CommIf.Channel
import IotKit.CommIf.Process
import IotKit.Security.Keystream
import IotKit.Mqtt.Confidentiality

/-!
# Sizes on the way up

A payload is protected in the buffer that the caller of `IOT_MQTT_Publish` provides, and
grows by 6 bytes there.  `iotx_comm_send` reserves them in 16 bits, `iotx_comm_connect`
does not, and `iotx_mqtt_up_process` adds them again in 16 bits.  The sizes of a call are
listed in the order in which the code computes them and copies by them.
-/

namespace IotKit.CommIf.Sizing

open CMemory Security Channel

/-! ## The source -/

/-- A value for a 16-bit variable, or a copy of `n` bytes between objects that have `source`
and `room` bytes from the two pointers on. -/
inductive SizeEvent where
  | width (value : Int)
  | copy (n source room : Nat)
deriving DecidableEq, Repr

/-- The sizes in `iotx_comm_payload_encrypt`, and its result. -/
def encryptSizes (mode : SecureMode) (destlen srclen : Nat) : List SizeEvent × Int :=
  if mode = .tlsGuiderPlain then
    if srclen > destlen then ([], -1) else ([.copy srclen srclen destlen], srclen)
  else if 2 + srclen + 4 > destlen then ([], -1)
  else
    ([.copy 2 2 destlen, .copy srclen srclen (destlen - 2), .width (2 + srclen),
      .copy 4 4 (destlen - (2 + srclen))], 2 + srclen + 4)

/-- The end of `iotx_mqtt_up_process`: the payload is cleared and `n` bytes of `out_buf` go
over it, where the caller's buffer has `room` bytes. -/
def copyBackSizes (outBufLen room len n : Nat) : List SizeEvent :=
  if n ≤ 0 then [] else [.copy len len room, .copy n outBufLen room]

/-- The sizes in `iotx_mqtt_up_process` on a payload of length `len`. -/
def upProcessSizes (mode : SecureMode) (alloc : Bool) (room len : Nat) : List SizeEvent :=
  let outBufLen := (len + 6) % 65536
  .width (len + 6) ::
    if alloc = false then []
    else
      let (events, n) := encryptSizes mode outBufLen len
      events ++ .width n :: copyBackSizes outBufLen room len (n % 65536).toNat

/-- What a call on the MQTT path depends on: the mode of the build, the client, the device
id, and whether the buffer of `iotx_comm_send` and `out_buf` are allocated. -/
structure UplinkCall where
  mode : SecureMode
  pclient : Option Mqtt.McClient
  deviceId : Bytes
  malloc : Bool
  hookMalloc : Bool

/-- The sizes of a call, and whether it failed before the payload was looked at. -/
structure Sizes where
  events : List SizeEvent
  failed : Bool
deriving DecidableEq, Repr

/-- `IOT_MQTT_Publish` of the first `len` bytes of a buffer of `room` bytes. -/
def publishSizes (k : UplinkCall) (c : Mqtt.McClient) (topic : Bytes) (msg : Mqtt.Message)
    (room : Nat) : Sizes :=
  if Mqtt.Rejected c topic msg then ⟨[], true⟩
  else ⟨upProcessSizes k.mode k.hookMalloc room msg.payload.length, false⟩

/-- `iotx_comm_send` of `iotx_comm_if_mqtt.c`. -/
def commSendSizes (k : UplinkCall) (sendType : ConnSend) (data : Payload) : Sizes :=
  match k.pclient with
  | none => ⟨[], true⟩
  | some c =>
      let len := data.1.length
      let payloadlen := (len + 6) % 65536
      if k.malloc = false then ⟨[.width (len + 6)], true⟩
      else
        let rest := publishSizes k c (genMqtTopic k.deviceId sendType.tail) (mqttMessage data)
          payloadlen
        ⟨.width (len + 6) :: .copy len len payloadlen :: rest.events, rest.failed⟩

/-- `IOT_Comm_SendData`. -/
def sendDataSizes (networkState : NetworkState) (connState : ConnState) (k : UplinkCall)
    (data : Payload) : Sizes :=
  if networkState ≠ .connected then ⟨[], true⟩
  else if connState ≠ .connected then ⟨[], true⟩
  else commSendSizes k .sendData data

/-- `iotx_get_device_info`: the buffer, where the text fits. -/
def iotxGetDeviceInfo (jsonOut : Bytes) (buflen : Nat) : Option Bytes :=
  let jsonLen := jsonOut.length % 65536
  if buflen ≤ jsonLen then none
  else some (jsonOut.take jsonLen ++ List.replicate (buflen - jsonLen) 0)

/-- `sizeof(msg_buf)`. -/
def msgBufSize : Nat := 256

/-- `PUB_INFO_TOPIC`. -/
def infoTail : Bytes := [105, 110, 102, 111]

def strlen (buf : Bytes) : Nat := (buf.takeWhile (· ≠ 0)).length

theorem strlen_le (buf : Bytes) : strlen buf ≤ buf.length :=
  (List.takeWhile_sublist _).length_le

/-- The message with the first `len` bytes of the buffer. -/
def infoMessage (buf : Bytes) : Mqtt.Message :=
  ⟨0, 1, 1, buf.take (strlen buf % 65536), by
    rw [List.length_take]
    omega⟩

/-- The end of `iotx_comm_connect`, where the device info is published. -/
def deviceInfoSizes (k : UplinkCall) (jsonOut : Bytes) : Sizes :=
  match iotxGetDeviceInfo jsonOut msgBufSize, k.pclient with
  | some buf, some c =>
      let rest := publishSizes k c (genMqtTopic k.deviceId infoTail) (infoMessage buf) buf.length
      ⟨.width (strlen buf) :: rest.events, rest.failed⟩
  | _, _ => ⟨[], true⟩

/-! ## Sound sizes -/

/-- The value fits into 16 bits; the copy stays inside both objects. -/
def SizeEvent.Fits : SizeEvent → Prop
  | .width value => 0 ≤ value ∧ value < 65536
  | .copy n source room => n ≤ source ∧ n ≤ room

def SizeEvent.Copies : SizeEvent → Prop
  | .width _ => False
  | .copy _ _ _ => True

instance (e : SizeEvent) : Decidable e.Fits := by
  cases e
  · exact inferInstanceAs (Decidable (_ ∧ _))
  · exact inferInstanceAs (Decidable (_ ∧ _))

/-- Every size fits, or the call fails and has copied nothing. -/
def Sizes.Sound (s : Sizes) : Prop :=
  (∀ e ∈ s.events, e.Fits) ∨ (s.failed = true ∧ ∀ e ∈ s.events, ¬e.Copies)

/-- The two ways to `iotx_mqtt_up_process`. -/
inductive Uplink where
  | sendData (networkState : NetworkState) (connState : ConnState) (data : Payload)
  | deviceInfo (jsonOut : Bytes)

def Uplink.sizes (k : UplinkCall) : Uplink → Sizes
  | .sendData networkState connState data => sendDataSizes networkState connState k data
  | .deviceInfo jsonOut => deviceInfoSizes k jsonOut

/-- Data that is copied leaves six bytes below 65536, and a device info that is protected
leaves six bytes of its buffer. -/
def Uplink.Roomy (k : UplinkCall) : Uplink → Prop
  | .sendData networkState connState data =>
      networkState = .connected → connState = .connected → k.pclient ≠ none → k.malloc = true →
        data.1.length + 6 < 65536
  | .deviceInfo jsonOut =>
      ∀ buf c, iotxGetDeviceInfo jsonOut msgBufSize = some buf → k.pclient = some c →
        ¬Mqtt.Rejected c (genMqtTopic k.deviceId infoTail) (infoMessage buf) →
        k.hookMalloc = true → k.mode ≠ .tlsGuiderPlain → strlen buf + 6 ≤ msgBufSize

/-! ## The sizes and the memory -/

section Memory

variable (C : Cipher) (mode : SecureMode) (deviceId : Bytes) {dest src : Bytes} {srclen : Nat}

theorem uplinkText_inside (conn : ConnInfo) (hsrc : srclen ≤ src.length)
    (hdest : 2 + srclen ≤ dest.length) :
    ∃ out, uplinkText C mode deviceId conn dest src srclen = .ok out ∧
      out.length = dest.length := by
  rw [uplinkText]
  split
  next =>
    have hbuf : srclen ≤ (Buf.fresh (dest.drop 2)).bytes.length := by
      show srclen ≤ (dest.drop 2).length
      rw [List.length_drop]
      omega
    obtain ⟨d, hrun⟩ :=
      payloadEncrypt_inside C conn.appskey 0 conn.upPacketid deviceId hsrc hbuf
    have hlen : d.bytes.length = (dest.drop 2).length := payloadEncrypt_length hrun
    refine ⟨_, bind_eq_ok.mpr ⟨d, hrun, rfl⟩, ?_⟩
    rw [List.length_append, hlen, List.length_take, List.length_drop]
    omega
  next =>
    have hstore := storeN_of_le (m := dest) (i := 2) (show 2 + (src.take srclen).length ≤ _ by
      rw [List.length_take]
      omega)
    exact ⟨_, bind_eq_ok.mpr ⟨_, loadN_front hsrc, hstore⟩, storeN_length hstore⟩

/-- The encryption stays inside its two buffers and returns what its sizes say. -/
theorem iotxCommPayloadEncrypt_inside (conn : ConnInfo) (hsrc : srclen ≤ src.length) :
    ∃ conn' out, iotxCommPayloadEncrypt C mode deviceId conn dest dest.length src srclen =
        .ok ((encryptSizes mode dest.length srclen).2, conn', out) ∧
      out.length = dest.length := by
  rw [iotxCommPayloadEncrypt, encryptSizes]
  split
  next =>
    split
    next => exact ⟨conn, dest, rfl, rfl⟩
    next hfits =>
      have hstore := storeN_of_le (m := dest) (i := 0) (show 0 + (src.take srclen).length ≤ _ by
        rw [List.length_take]
        omega)
      exact ⟨conn, _, bind_eq_ok.mpr ⟨_, loadN_front hsrc, bind_eq_ok.mpr ⟨_, hstore, rfl⟩⟩,
        storeN_length hstore⟩
  next =>
    split
    next => exact ⟨conn, dest, rfl, rfl⟩
    next hfits =>
      have hid : storeN dest ((0 : Nat) : Int) (be16 ((conn.upPacketid + 1) % 65536)) = .ok _ :=
        storeN_of_le (show 0 + 2 ≤ dest.length by omega)
      have hidlen := storeN_length hid
      obtain ⟨text, htext, htextlen⟩ := uplinkText_inside C mode deviceId
        { conn with upPacketid := (conn.upPacketid + 1) % 65536 } hsrc
        (show 2 + srclen ≤ _ by rw [hidlen]; omega)
      rw [hidlen] at htextlen
      have hword := Nat.mod_le (2 + srclen) 65536
      have hmsg := loadN_front (m := text) (n := (2 + srclen) % 65536) (by omega)
      generalize text.take ((2 + srclen) % 65536) = msg at hmsg
      have hstore := storeN_of_le (m := text) (i := 2 + srclen)
        (show 2 + srclen + ((C.cmac conn.nwkskey msg).toList.take 4).length ≤ _ by
          rw [List.length_take, Vector.length_toList]
          omega)
      refine ⟨_, _, bind_eq_ok.mpr ⟨_, hid, bind_eq_ok.mpr ⟨text, htext,
        bind_eq_ok.mpr ⟨_, bind_eq_ok.mpr ⟨msg, hmsg, rfl⟩, bind_eq_ok.mpr ⟨_, hstore, rfl⟩⟩⟩⟩, ?_⟩
      rw [storeN_length hstore, htextlen]

theorem replacePayload_inside {mem out : Bytes} {off len n : Nat} (hn : n ≤ out.length) :
    (∃ mem', replacePayload mem off len out n = .ok mem') ↔
      off + len ≤ mem.length ∧ off + n ≤ mem.length := by
  constructor
  · rintro ⟨mem', h⟩
    obtain ⟨mem₁, hzero, h⟩ := bind_eq_ok.mp h
    obtain ⟨text, hload, hstore⟩ := bind_eq_ok.mp h
    obtain ⟨_, hin, _⟩ := storeN_eq_ok.mp hzero
    obtain ⟨_, hin', _⟩ := storeN_eq_ok.mp hstore
    rw [Int.toNat_natCast, List.length_replicate] at hin
    rw [Int.toNat_natCast, loadN_length hload, storeN_length hzero] at hin'
    exact ⟨hin, hin'⟩
  · rintro ⟨hin, hin'⟩
    have hzero : storeN mem (off : Int) (List.replicate len 0) = .ok _ := storeN_of_le (by
      rw [List.length_replicate]
      exact hin)
    have hload := loadN_front hn
    have hlen := storeN_length hzero
    refine ⟨_, bind_eq_ok.mpr ⟨_, hzero, bind_eq_ok.mpr ⟨_, hload, storeN_of_le ?_⟩⟩⟩
    rw [hlen, loadN_length hload]
    exact hin'

end Memory

/-- The copies of the encryption fit, since it compares the two lengths first. -/
theorem encryptSizes_inside (mode : SecureMode) (destlen srclen : Nat) :
    ∀ e ∈ (encryptSizes mode destlen srclen).1, e.Fits ∨ ¬e.Copies := by
  intro e he
  rw [encryptSizes] at he
  split at he
  · split at he
    · cases he
    · cases List.mem_singleton.mp he
      exact Or.inl ⟨by omega, by omega⟩
  · split at he
    · cases he
    · simp only [List.mem_cons, List.not_mem_nil, or_false] at he
      rcases he with rfl | rfl | rfl | rfl
      · exact Or.inl ⟨by omega, by omega⟩
      · exact Or.inl ⟨by omega, by omega⟩
      · exact Or.inr id
      · exact Or.inl ⟨by omega, by omega⟩

/-- `iotx_mqtt_up_process` has a result exactly if the copies that its sizes list stay inside
their objects. -/
theorem iotxMqttUpProcess_inside (C : Cipher) (mode : SecureMode) (deviceId : Bytes)
    (malloc : Malloc) (conn : ConnInfo) {mem : Bytes} {off len : Nat}
    (hin : off + len ≤ mem.length) :
    (∃ r, iotxMqttUpProcess C mode deviceId malloc conn mem off len = .ok r) ↔
      ∀ e ∈ upProcessSizes mode (malloc ((len + 6) % 65536)).isSome (mem.length - off) len,
        e.Copies → e.Fits := by
  rw [iotxMqttUpProcess, upProcessSizes]
  dsimp only
  cases hmalloc : malloc ((len + 6) % 65536) with
  | none =>
      refine ⟨fun _ e he hcopies => ?_, fun _ => ⟨_, rfl⟩⟩
      rw [if_pos (by rfl), List.mem_singleton] at he
      rw [he] at hcopies
      exact hcopies.elim
  | some outBuf =>
      obtain ⟨out, hout⟩ := outBuf
      have hsrc : len ≤ (mem.drop off).length := by
        rw [List.length_drop]
        omega
      obtain ⟨conn', text, hrun, htext⟩ :=
        @iotxCommPayloadEncrypt_inside C mode deviceId out _ len conn hsrc
      rw [hout] at hrun htext
      dsimp only
      rw [hrun, ok_bind]
      simp only [Option.isSome_some, Bool.true_eq_false, if_false]
      have hinner := encryptSizes_inside mode ((len + 6) % 65536) len
      generalize encryptSizes mode ((len + 6) % 65536) len = sizes at hinner
      obtain ⟨events, n⟩ := sizes
      dsimp only at hinner ⊢
      rw [copyBackSizes]
      split
      next hzero =>
        refine ⟨fun _ e he hcopies => ?_, fun _ => ⟨_, rfl⟩⟩
        simp only [List.mem_cons, List.mem_append, List.not_mem_nil, or_false] at he
        rcases he with rfl | he | rfl
        · exact hcopies.elim
        · exact (hinner e he).resolve_right fun h => h hcopies
        · exact hcopies.elim
      next hpos =>
        constructor
        · rintro ⟨r, hr⟩ e he hcopies
          obtain ⟨mem', hreplace, -⟩ := bind_eq_ok.mp hr
          have hload : (n % 65536).toNat ≤ text.length := by
            obtain ⟨_, _, h⟩ := bind_eq_ok.mp hreplace
            obtain ⟨_, hload, -⟩ := bind_eq_ok.mp h
            have := (loadN_eq_ok.mp hload).2.1
            omega
          have hroom := (replacePayload_inside hload).mp ⟨mem', hreplace⟩
          simp only [List.mem_cons, List.mem_append, List.not_mem_nil, or_false] at he
          rcases he with rfl | he | rfl | rfl | rfl
          · exact hcopies.elim
          · exact (hinner e he).resolve_right fun h => h hcopies
          · exact hcopies.elim
          · exact ⟨Nat.le_refl len, by omega⟩
          · exact ⟨by omega, by omega⟩
        · intro hall
          obtain ⟨hsource, hroom⟩ : _ ∧ _ :=
            hall (.copy (n % 65536).toNat ((len + 6) % 65536) (mem.length - off)) (by simp) trivial
          have hread : (n % 65536).toNat ≤ text.length := by omega
          obtain ⟨mem', hreplace⟩ := (@replacePayload_inside mem _ off len _ hread).mpr
            ⟨hin, by omega⟩
          exact ⟨_, bind_eq_ok.mpr ⟨mem', hreplace, rfl⟩⟩

/-! ## When the sizes are sound -/

section Sound

variable {k : UplinkCall}

theorem upProcessSizes_fit {mode : SecureMode} {alloc : Bool} {room len : Nat} (hin : len ≤ room)
    (hwidth : len + 6 < 65536) :
    (∀ e ∈ upProcessSizes mode alloc room len, e.Fits) ↔
      (alloc = true → mode ≠ .tlsGuiderPlain → len + 6 ≤ room) := by
  have hword : (len + 6) % 65536 = len + 6 := Nat.mod_eq_of_lt hwidth
  have hfirst : (SizeEvent.width (len + 6)).Fits := ⟨by omega, by omega⟩
  rw [upProcessSizes]
  dsimp only
  rw [hword, List.forall_mem_cons]
  by_cases halloc : alloc = true
  case neg =>
    rw [if_pos (by simpa using halloc)]
    exact ⟨fun _ h => absurd h halloc, fun _ => ⟨hfirst, nofun⟩⟩
  rw [if_neg (by rw [halloc]; decide)]
  by_cases hmode : mode = .tlsGuiderPlain
  · rw [encryptSizes, if_pos hmode, if_neg (by omega)]
    refine ⟨fun _ _ h => absurd hmode h, fun _ => ⟨hfirst, ?_⟩⟩
    dsimp only
    rw [show ((len : Int) % 65536).toNat = len by omega, copyBackSizes]
    intro e he
    split at he
    · simp only [List.mem_append, List.mem_cons, List.not_mem_nil, or_false] at he
      rcases he with rfl | rfl
      · exact ⟨by omega, by omega⟩
      · exact ⟨by omega, by omega⟩
    · simp only [List.mem_append, List.mem_cons, List.not_mem_nil, or_false] at he
      rcases he with rfl | rfl | rfl | rfl
      · exact ⟨by omega, by omega⟩
      · exact ⟨by omega, by omega⟩
      · exact ⟨by omega, by omega⟩
      · exact ⟨by omega, by omega⟩
  · rw [encryptSizes, if_neg hmode, if_neg (by omega)]
    dsimp only
    rw [show ((2 + (len : Int) + 4) % 65536).toNat = len + 6 by omega, copyBackSizes,
      if_neg (by omega)]
    constructor
    · rintro ⟨-, hall⟩ - -
      have hlast : (SizeEvent.copy (len + 6) (len + 6) room).Fits := hall _ (by simp)
      exact hlast.2
    · intro hroom
      have hroom := hroom halloc hmode
      refine ⟨hfirst, fun e he => ?_⟩
      simp only [List.mem_append, List.mem_cons, List.not_mem_nil, or_false] at he
      rcases he with (rfl | rfl | rfl | rfl) | rfl | rfl | rfl
      · exact ⟨by omega, by omega⟩
      · exact ⟨by omega, by omega⟩
      · exact ⟨by omega, by omega⟩
      · exact ⟨by omega, by omega⟩
      · exact ⟨by omega, by omega⟩
      · exact ⟨by omega, by omega⟩
      · exact ⟨by omega, by omega⟩

theorem sound_nil {failed : Bool} : (Sizes.mk [] failed).Sound := Or.inl nofun

theorem commSend_sound_iff (sendType : ConnSend) (data : Payload) :
    (commSendSizes k sendType data).Sound ↔
      (k.pclient ≠ none → k.malloc = true → data.1.length + 6 < 65536) := by
  rw [commSendSizes]
  cases hclient : k.pclient with
  | none => exact ⟨fun _ h => absurd rfl h, fun _ => sound_nil⟩
  | some c =>
      by_cases hmalloc : k.malloc = true
      case neg =>
        dsimp only
        rw [if_pos (by simpa using hmalloc)]
        refine ⟨fun _ _ h => absurd h hmalloc, fun _ => Or.inr ⟨rfl, fun e he => ?_⟩⟩
        rw [List.mem_singleton.mp he]
        exact id
      dsimp only
      rw [if_neg (by rw [hmalloc]; decide)]
      constructor
      · rintro (hall | ⟨-, hnone⟩) - -
        · have hcopy := hall (.copy data.1.length data.1.length ((data.1.length + 6) % 65536))
            (by simp)
          have hfits : data.1.length ≤ (data.1.length + 6) % 65536 := hcopy.2
          have := data.2
          omega
        · exact absurd trivial (hnone (.copy data.1.length data.1.length
            ((data.1.length + 6) % 65536)) (by simp))
      · intro hroom
        have hwidth := hroom (Option.some_ne_none c) hmalloc
        have hword : (data.1.length + 6) % 65536 = data.1.length + 6 := Nat.mod_eq_of_lt hwidth
        refine Or.inl ?_
        rw [hword, List.forall_mem_cons, List.forall_mem_cons]
        refine ⟨⟨by omega, by omega⟩, ⟨by omega, by omega⟩, ?_⟩
        rw [publishSizes]
        split
        next => exact nofun
        next =>
          exact (upProcessSizes_fit (Nat.le_add_right _ 6) hwidth).mpr fun _ _ => Nat.le_refl _

theorem deviceInfo_sound_iff (jsonOut : Bytes) :
    (deviceInfoSizes k jsonOut).Sound ↔ (Uplink.deviceInfo jsonOut).Roomy k := by
  rw [deviceInfoSizes, Uplink.Roomy]
  cases hinfo : iotxGetDeviceInfo jsonOut msgBufSize with
  | none => exact ⟨fun _ buf c h => absurd h (Option.some_ne_none buf).symm, fun _ => sound_nil⟩
  | some buf =>
      cases hclient : k.pclient with
      | none => exact ⟨fun _ buf c _ h => absurd h (Option.some_ne_none c).symm, fun _ => sound_nil⟩
      | some c =>
          have hbuf : buf.length = 256 := by
            rw [iotxGetDeviceInfo] at hinfo
            split at hinfo
            next => cases hinfo
            next hlt =>
              cases hinfo
              rw [msgBufSize] at hlt ⊢
              rw [List.length_append, List.length_take, List.length_replicate]
              have := Nat.mod_le jsonOut.length 65536
              omega
          have hlen := strlen_le buf
          have hpayload : (infoMessage buf).payload.length = strlen buf := by
            show (buf.take (strlen buf % 65536)).length = _
            rw [List.length_take]
            omega
          have hwidth : (SizeEvent.width (strlen buf)).Fits := ⟨by omega, by omega⟩
          dsimp only
          rw [publishSizes]
          split
          next hrej =>
            constructor
            · intro _ buf' c' hb hc hnot
              cases hb
              cases hc
              exact absurd hrej hnot
            · intro _
              refine Or.inl fun e he => ?_
              rw [List.mem_singleton.mp he]
              exact hwidth
          next hrej =>
            have hfit := @upProcessSizes_fit k.mode k.hookMalloc _ _ hlen (by omega)
            rw [hpayload]
            constructor
            · rintro (hall | ⟨hfailed, -⟩)
              · intro buf' c' hb hc _ halloc hmode
                cases hb
                have hroom := hfit.mp
                  (fun e he => hall e (List.mem_cons_of_mem _ he)) halloc hmode
                rw [hbuf] at hroom
                exact hroom
              · cases hfailed
            · intro hroomy
              refine Or.inl (List.forall_mem_cons.mpr ⟨hwidth, hfit.mpr fun halloc hmode => ?_⟩)
              rw [hbuf]
              exact hroomy buf c rfl rfl hrej halloc hmode

end Sound

/-- The sizes of a call are sound exactly if there is room for the six bytes. -/
theorem uplink_sound_iff (k : UplinkCall) (u : Uplink) : (u.sizes k).Sound ↔ u.Roomy k := by
  cases u with
  | sendData networkState connState data =>
      rw [Uplink.sizes, Uplink.Roomy, sendDataSizes]
      split
      next hnetwork => exact ⟨fun _ h => absurd h hnetwork, fun _ => sound_nil⟩
      next hnetwork =>
        split
        next hconn => exact ⟨fun _ _ h => absurd h hconn, fun _ => sound_nil⟩
        next hconn =>
          rw [commSend_sound_iff]
          exact ⟨fun h _ _ => h, fun h => h (Decidable.not_not.mp hnetwork)
            (Decidable.not_not.mp hconn)⟩
  | deviceInfo jsonOut => exact deviceInfo_sound_iff jsonOut

/-- A call of a client that is connected. -/
def infoCall : UplinkCall :=
  ⟨.tcpGuiderFormencrypt, some Mqtt.sendingClient, [65], true, true⟩

theorem longInfo : ∃ jsonOut buf, iotxGetDeviceInfo jsonOut msgBufSize = some buf ∧
    strlen buf = 251 := by
  refine ⟨List.replicate 251 65, List.replicate 251 65 ++ List.replicate 5 0, ?_, ?_⟩
  · have htake : (List.replicate 251 (65 : UInt8)).take (251 % 65536) = List.replicate 251 65 :=
      List.take_of_length_le (by rw [List.length_replicate])
    rw [iotxGetDeviceInfo, List.length_replicate, htake, if_neg (by decide)]
    rfl
  · have hletters : ∀ c ∈ List.replicate 251 (65 : UInt8), decide (c ≠ 0) = true := fun c hc => by
      rw [List.eq_of_mem_replicate hc]
      decide
    rw [strlen, List.takeWhile_append_of_pos hletters, List.length_append, List.length_replicate]
    rfl

/-- A device info of 251 characters grows to 257 bytes, in a buffer of 256. -/
theorem not_uplink_sound : ¬∀ (k : UplinkCall) (u : Uplink), (u.sizes k).Sound := by
  intro hall
  obtain ⟨jsonOut, buf, hinfo, hlen⟩ := longInfo
  have hroomy := (deviceInfo_sound_iff jsonOut).mp (hall infoCall (.deviceInfo jsonOut))
  have haccepted : ¬Mqtt.Rejected Mqtt.sendingClient (genMqtTopic infoCall.deviceId infoTail)
      (infoMessage buf) := by
    rintro (htopic | hstate | hqos)
    · exact htopic (by decide)
    · exact hstate rfl
    · exact absurd hqos (show ¬(1 = 2) by decide)
  have hroom := hroomy buf Mqtt.sendingClient hinfo rfl haccepted rfl (by decide)
  rw [hlen] at hroom
  exact absurd hroom (by decide)

end IotKit.CommIf.Sizing
