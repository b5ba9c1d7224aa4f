import IotKit.Security.Session

/-!
# Which credentials are refused

`iotSystemSetDeviceInfo` stores the device id and the device secret, and nothing
checks them.  `stringToHex` reports a secret of the wrong length and reads a
character that is no digit as zero, `payloadEncrypt` returns early on a short id,
and `iotxGuiderAuthenticate`, `iotxGuiderAuthGenKeys` and
`iotxCommPayloadEncrypt` go on in each case.

`decodeHex` is the decoding that the key of a session ought to be, and
`InvalidRefused` says that the three functions succeed with such a key only.  They
do exactly when the credentials are valid (`invalidRefused_iff`).
-/

namespace IotKit.Security

open CMemory

/-! ## The stored credentials -/

/-- `DEVICE_ID_LEN`. -/
def deviceIdLen : Nat := 32

/-- `DEVICE_SECRET_LEN`. -/
def deviceSecretLen : Nat := 32

/-- `strncpy` of a string into an object of `n` characters and a terminator. -/
def strncpy (src : Bytes) (n : Nat) : Bytes := src.take n

/-- `IOT_SYSTEM_SetDeviceInfo`: the two fields that security reads. -/
def iotSystemSetDeviceInfo (deviceId deviceSecret : Bytes) : DeviceInfo where
  deviceId := strncpy deviceId deviceIdLen
  deviceSecret := strncpy deviceSecret deviceSecretLen

/-! ## Decoding -/

/-- The value of a hexadecimal digit, of either case. -/
def digitValue (c : UInt8) : Option Nat :=
  if 48 ≤ c ∧ c ≤ 57 then some (c.toNat - 48)
  else if 97 ≤ c ∧ c ≤ 102 then some (c.toNat - 87)
  else if 65 ≤ c ∧ c ≤ 70 then some (c.toNat - 55)
  else none

/-- The bytes of a string of hexadecimal digits, two for each byte. -/
def decodeHex : Bytes → Option Bytes
  | [] => some []
  | [_] => none
  | hi :: lo :: rest => do
      let h ← digitValue hi
      let l ← digitValue lo
      let bytes ← decodeHex rest
      some (UInt8.ofNat (16 * h + l) :: bytes)

/-- A secret of exactly 32 hexadecimal digits. -/
def ValidSecret (secret : Bytes) : Prop :=
  secret.length = 32 ∧ ∀ c ∈ secret, (digitValue c).isSome

instance (secret : Bytes) : Decidable (ValidSecret secret) :=
  inferInstanceAs (Decidable (_ ∧ _))

/-- A digit has a value below 16, and it is the one the source computes. -/
theorem digitValue_eq_some {c : UInt8} {v : Nat} (h : digitValue c = some v) :
    v < 16 ∧ hexNibble c = UInt8.ofNat v := by
  have hc : c.toNat < 256 := c.toNat_lt
  simp only [digitValue, UInt8.le_iff_toNat_le, UInt8.reduceToNat] at h
  simp only [hexNibble, UInt8.le_iff_toNat_le, UInt8.reduceToNat]
  split at h
  next hdec =>
    cases h
    rw [if_pos hdec]
    refine ⟨by omega, UInt8.toNat.inj ?_⟩
    simp only [UInt8.toNat_sub, UInt8.reduceToNat, UInt8.toNat_ofNat']
    omega
  next hdec =>
    split at h
    next hlower =>
      cases h
      rw [if_neg hdec, if_pos hlower]
      refine ⟨by omega, UInt8.toNat.inj ?_⟩
      simp only [UInt8.toNat_add, UInt8.toNat_sub, UInt8.reduceToNat, UInt8.toNat_ofNat']
      omega
    next hlower =>
      split at h
      next hupper =>
        cases h
        rw [if_neg hdec, if_neg hlower, if_pos hupper]
        refine ⟨by omega, UInt8.toNat.inj ?_⟩
        simp only [UInt8.toNat_add, UInt8.toNat_sub, UInt8.reduceToNat, UInt8.toNat_ofNat']
        omega
      next => cases h

/-- Two nibbles make the byte of their two digits. -/
theorem nibbles_eq {h l : Nat} (hh : h < 16) (hl : l < 16) :
    UInt8.ofNat h <<< 4 ||| UInt8.ofNat l = UInt8.ofNat (16 * h + l) := by
  have hall : ∀ a b : Fin 16, UInt8.ofNat a.val <<< 4 ||| UInt8.ofNat b.val =
      UInt8.ofNat (16 * a.val + b.val) := by decide
  exact hall ⟨h, hh⟩ ⟨l, hl⟩

theorem decodeHex_cons_eq_some {hi lo : UInt8} {rest bytes : Bytes}
    (h : decodeHex (hi :: lo :: rest) = some bytes) :
    ∃ tail, decodeHex rest = some tail ∧
      bytes = (hexNibble hi <<< 4 ||| hexNibble lo) :: tail := by
  simp only [decodeHex, Option.bind_eq_bind, Option.bind_eq_some_iff] at h
  obtain ⟨vh, hvh, vl, hvl, tail, htail, h⟩ := h
  cases h
  obtain ⟨hh, hhi⟩ := digitValue_eq_some hvh
  obtain ⟨hl, hlo⟩ := digitValue_eq_some hvl
  refine ⟨tail, htail, ?_⟩
  rw [hhi, hlo, nibbles_eq hh hl]

theorem decodeHex_length : ∀ {s bytes : Bytes}, decodeHex s = some bytes →
    s.length = 2 * bytes.length
  | [], bytes, h => by
      cases h
      rfl
  | [_], bytes, h => by cases h
  | hi :: lo :: rest, bytes, h => by
      obtain ⟨tail, htail, rfl⟩ := decodeHex_cons_eq_some h
      have ih := decodeHex_length htail
      simp only [List.length_cons]
      omega

/-- The strings that have a decoding. -/
theorem decodeHex_isSome : ∀ s : Bytes, (∃ bytes, decodeHex s = some bytes) ↔
    s.length % 2 = 0 ∧ ∀ c ∈ s, (digitValue c).isSome
  | [] => by simp [decodeHex]
  | [_] => by simp [decodeHex]
  | hi :: lo :: rest => by
      have ih := decodeHex_isSome rest
      simp only [decodeHex, Option.bind_eq_bind, Option.bind_eq_some_iff, List.forall_mem_cons,
        List.length_cons, Option.isSome_iff_exists] at ih ⊢
      constructor
      · intro ⟨_, vh, hvh, vl, hvl, tail, htail, _⟩
        obtain ⟨heven, hdigits⟩ := ih.mp ⟨tail, htail⟩
        exact ⟨by omega, ⟨vh, hvh⟩, ⟨vl, hvl⟩, hdigits⟩
      · intro ⟨heven, ⟨vh, hvh⟩, ⟨vl, hvl⟩, hdigits⟩
        obtain ⟨tail, htail⟩ := ih.mpr ⟨by omega, hdigits⟩
        exact ⟨_, vh, hvh, vl, hvl, tail, htail, rfl⟩

/-- The valid secrets are those that decode to a key of 16 bytes. -/
theorem validSecret_iff_decodeHex {secret : Bytes} :
    ValidSecret secret ↔ ∃ key, decodeHex secret = some key ∧ key.length = 16 := by
  constructor
  · intro ⟨hlen, hdigits⟩
    obtain ⟨key, hkey⟩ := (decodeHex_isSome secret).mpr ⟨by omega, hdigits⟩
    have := decodeHex_length hkey
    exact ⟨key, hkey, by omega⟩
  · intro ⟨key, hkey, hlen⟩
    have := decodeHex_length hkey
    exact ⟨by omega, ((decodeHex_isSome secret).mp ⟨key, hkey⟩).2⟩

/-! ## What the source decodes -/

/-- The loop stays inside an object of the size it is told. -/
theorem stringToHexLoop_total {destlen : Nat} : ∀ (src : Bytes) (n : Nat) (dest : Bytes),
    2 * n + src.length ≤ 2 * destlen → destlen ≤ dest.length →
    ∃ r, stringToHexLoop destlen n src dest = .ok r
  | [], n, dest, _, _ => ⟨_, rfl⟩
  | [hi], n, dest, hsrc, hdest => by
      simp only [List.length_singleton] at hsrc
      rw [stringToHexLoop, if_pos (by omega),
        storeN_of_le (by simp only [List.length_singleton]; omega), ok_bind]
      exact ⟨_, rfl⟩
  | hi :: lo :: rest, n, dest, hsrc, hdest => by
      simp only [List.length_cons] at hsrc
      have hstore : storeN dest n [hexNibble hi <<< 4 ||| hexNibble lo] = .ok _ :=
        storeN_of_le (by simp only [List.length_singleton]; omega)
      rw [stringToHexLoop, if_pos (by omega), hstore, ok_bind]
      exact stringToHexLoop_total rest (n + 1) _ (by omega) (storeN_length hstore ▸ hdest)

/-- A string that has a decoding is decoded, one byte after the other. -/
theorem stringToHexLoop_decodeHex (destlen : Nat) : ∀ {src bytes : Bytes} (done rest : Bytes),
    decodeHex src = some bytes → done.length + bytes.length ≤ destlen →
    rest.length = bytes.length →
    stringToHexLoop destlen done.length src (done ++ rest) =
      .ok ((done.length + bytes.length : Nat), done ++ bytes)
  | [], bytes, done, rest, hsrc, _, hrest => by
      cases hsrc
      obtain rfl := List.length_eq_zero_iff.mp hrest
      rfl
  | [_], bytes, done, rest, hsrc, _, _ => by cases hsrc
  | hi :: lo :: src, bytes, done, rest, hsrc, hlen, hrest => by
      obtain ⟨tail, htail, rfl⟩ := decodeHex_cons_eq_some hsrc
      cases rest with
      | nil => cases hrest
      | cons old rest =>
          simp only [List.length_cons, Nat.add_right_cancel_iff] at hlen hrest
          let b := hexNibble hi <<< 4 ||| hexNibble lo
          have hstore : storeN (done ++ old :: rest) done.length [b] = .ok (done ++ [b] ++ rest) :=
            storeN_next old b rfl
          have ih := stringToHexLoop_decodeHex destlen (done ++ [b]) rest htail
            (by simp only [List.length_append, List.length_singleton]; omega) hrest
          rw [stringToHexLoop, if_pos (by omega), hstore, ok_bind]
          rw [List.length_append, List.length_singleton] at ih
          rw [ih, List.append_assoc, List.singleton_append, List.length_cons, Nat.add_assoc,
            Nat.add_comm 1]

/-- Whatever the secret is, the source goes on with some key. -/
theorem stringToHex_total (secret : Bytes) :
    ∃ r, stringToHex secret 32 (List.replicate 16 0) 16 = .ok r := by
  rw [stringToHex]
  split
  next => exact ⟨_, rfl⟩
  next hlen =>
    show ∃ r, stringToHexLoop 16 0 secret (List.replicate 16 0) = .ok r
    exact stringToHexLoop_total secret 0 _ (by omega) (Nat.le_refl 16)

/-- The key of a valid secret is its decoding. -/
theorem stringToHex_decodeHex {secret key : Bytes} (hkey : decodeHex secret = some key)
    (hlen : key.length = 16) :
    stringToHex secret 32 (List.replicate 16 0) 16 = .ok (16, key) := by
  have hsecret := decodeHex_length hkey
  rw [stringToHex, if_neg (by omega)]
  show stringToHexLoop 16 0 secret (List.replicate 16 0) = _
  have hloop := stringToHexLoop_decodeHex 16 [] (List.replicate 16 0) hkey
    (by simp [hlen]) (by simp [hlen])
  simpa [hlen] using hloop

/-! ## Refusal -/

/-- With this device id every byte of a ciphertext of `n` bytes is written. -/
def Produces (deviceId : Bytes) (n : Nat) : Prop :=
  ∀ (C : Cipher) (key : Bytes) (dir : UInt8) (seqId : Nat) (src dest : Bytes),
    src.length = n → n ≤ dest.length →
    ∃ d, payloadEncrypt C src n key dir seqId deviceId (Buf.fresh dest) = .ok d ∧
      ∀ i < n, i ∈ d.written

/-- The id is long enough for payloads of `n` bytes: they are produced, unless no
id does it. -/
def LongEnough (deviceId : Bytes) (n : Nat) : Prop :=
  (∃ other, Produces other n) → Produces deviceId n

/-- The three functions succeed only with valid credentials, and with the keys
that these give. -/
structure InvalidRefused (mode : SecureMode) (dev : DeviceInfo) : Prop where
  authenticate : ∀ {C : Cipher} {conn conn' : ConnInfo} {random : Nat},
    iotxGuiderAuthenticate C mode dev conn random = .ok conn' →
    ∃ key, decodeHex dev.deviceSecret = some key ∧ key.length = 16 ∧
      conn'.password = conn'.randomStr ++ passwordSuffix mode ++
        hexToString (calcCmac C conn'.randomStr key) []
  genKeys : ∀ {C : Cipher} {conn conn' : ConnInfo},
    iotxGuiderAuthGenKeys C dev conn = .ok conn' →
    ∃ key, decodeHex dev.deviceSecret = some key ∧ key.length = 16 ∧
      genSessionKeys C key conn.randomStr = .ok (conn'.nwkskey, conn'.appskey)
  encrypt : mode = .tcpGuiderFormencrypt →
    ∀ {C : Cipher} {conn conn' : ConnInfo} {dest dest' src : Bytes} {destlen srclen : Nat}
      {n : Int},
      iotxCommPayloadEncrypt C mode dev.deviceId conn dest destlen src srclen =
        .ok (n, conn', dest') → 0 < n → LongEnough dev.deviceId srclen

section Valid

variable {C : Cipher} {mode : SecureMode} {dev : DeviceInfo} {conn conn' : ConnInfo} {key : Bytes}

theorem strcat_eq_ok {size : Nat} {dest src out : Bytes} (h : strcat size dest src = .ok out) :
    out = dest ++ src := by
  rw [strcat] at h
  split at h
  · cases h
    rfl
  · cases h

theorem authenticate_of_decodeHex {random : Nat} (hkey : decodeHex dev.deviceSecret = some key)
    (hlen : key.length = 16) (h : iotxGuiderAuthenticate C mode dev conn random = .ok conn') :
    conn'.password = conn'.randomStr ++ passwordSuffix mode ++
      hexToString (calcCmac C conn'.randomStr key) [] := by
  simp only [iotxGuiderAuthenticate, stringToHex_decodeHex hkey hlen, ok_bind] at h
  obtain ⟨p₁, h₁, h⟩ := bind_eq_ok.mp h
  obtain ⟨p₂, h₂, h⟩ := bind_eq_ok.mp h
  obtain ⟨p₃, h₃, h⟩ := bind_eq_ok.mp h
  cases h
  rw [strcat_eq_ok h₃, strcat_eq_ok h₂, strcat_eq_ok h₁, List.nil_append]

theorem genKeys_of_decodeHex (hkey : decodeHex dev.deviceSecret = some key)
    (hlen : key.length = 16) (h : iotxGuiderAuthGenKeys C dev conn = .ok conn') :
    genSessionKeys C key conn.randomStr = .ok (conn'.nwkskey, conn'.appskey) := by
  simp only [iotxGuiderAuthGenKeys, stringToHex_decodeHex hkey hlen, ok_bind] at h
  obtain ⟨⟨nwkskey, appskey⟩, hkeys, h⟩ := bind_eq_ok.mp h
  cases h
  exact hkeys

end Valid

section DeviceId

variable {deviceId : Bytes} {n : Nat}

/-- An id of ten characters gets every byte of up to 256 written. -/
theorem produces_of_ten (h10 : 10 ≤ deviceId.length % 65536) (hn : n ≤ 256) :
    Produces deviceId n := by
  intro C key dir seqId src dest hsrc hdest
  obtain ⟨d, hrun, filled⟩ :=
    payloadEncrypt_filled C key dir seqId h10 hn (Nat.le_of_eq hsrc.symm) hdest
  refine ⟨d, hrun, ?_⟩
  intro i hi
  rw [filled.once]
  exact List.mem_range.mpr hi

/-- No id gets more than 256 bytes written. -/
theorem not_produces_of_long (hn : 256 < n) : ¬ Produces deviceId n := by
  intro h
  obtain ⟨d, hrun, hall⟩ := h ⟨fun _ b => b, fun _ _ => Vector.replicate 16 0⟩ [] 0 0
    (List.replicate n 0) (List.replicate n 0) List.length_replicate
    (Nat.le_of_eq List.length_replicate.symm)
  exact Nat.lt_irrefl 256 (payloadEncrypt_written hrun 256 (hall 256 hn))

/-- A short id gets none written. -/
theorem not_produces_of_short (hshort : deviceId.length % 65536 < 10) (hn : 0 < n) :
    ¬ Produces deviceId n := by
  intro h
  obtain ⟨d, hrun, hall⟩ := h ⟨fun _ b => b, fun _ _ => Vector.replicate 16 0⟩ [] 0 0
    (List.replicate n 0) (List.replicate n 0) List.length_replicate
    (Nat.le_of_eq List.length_replicate.symm)
  rw [payloadEncrypt, if_pos hshort] at hrun
  cases hrun
  exact List.not_mem_nil (hall 0 hn)

theorem longEnough_of_ten (h10 : 10 ≤ deviceId.length % 65536) (n : Nat) :
    LongEnough deviceId n := by
  intro ⟨other, hother⟩
  exact produces_of_ten h10 (Nat.le_of_not_lt fun hn => not_produces_of_long hn hother)

/-- A short id is not long enough for one byte. -/
theorem not_longEnough_of_short (hshort : deviceId.length % 65536 < 10) :
    ¬ LongEnough deviceId 1 := by
  intro h
  have hten : Produces (List.replicate 10 65) 1 := produces_of_ten (by decide) (by decide)
  exact not_produces_of_short hshort Nat.one_pos (h ⟨_, hten⟩)

/-- `iotxCommPayloadEncrypt` takes a short id: the frame of one byte is as long as
with any other. -/
theorem iotxCommPayloadEncrypt_short (hshort : deviceId.length % 65536 < 10) (C : Cipher)
    (conn : ConnInfo) : ∃ conn' frame,
      iotxCommPayloadEncrypt C .tcpGuiderFormencrypt deviceId conn (List.replicate 7 0) 7 [1] 1 =
        .ok (7, conn', frame) := by
  let seqId := (conn.upPacketid + 1) % 65536
  let mic := (C.cmac conn.nwkskey (be16 seqId ++ [0])).toList.take 4
  have hmic : mic.length = 4 := by
    show (List.take 4 _).length = 4
    rw [List.length_take, Vector.length_toList]
    rfl
  obtain ⟨frame, hstore⟩ : ∃ frame, storeN (be16 seqId ++ [0, 0, 0, 0, 0]) ((3 : Nat) : Int) mic =
      .ok frame := ⟨_, storeN_of_le (by simp [hmic])⟩
  refine ⟨{ conn with upPacketid := seqId }, frame, ?_⟩
  rw [iotxCommPayloadEncrypt, if_neg (by decide), if_neg (by decide)]
  simp only [uplinkText, payloadEncrypt, if_pos hshort]
  show storeN (be16 seqId ++ [0, 0, 0, 0, 0]) ((3 : Nat) : Int) mic >>= _ = _
  rw [hstore]
  rfl

end DeviceId

/-! ## Valid credentials -/

/-- A secret of 32 hexadecimal digits and, where payloads are encrypted, an id of
at least ten characters. -/
def ValidCredentials (mode : SecureMode) (dev : DeviceInfo) : Prop :=
  ValidSecret dev.deviceSecret ∧ (mode = .tcpGuiderFormencrypt → 10 ≤ dev.deviceId.length)

/-- `iotxGuiderAuthenticate` succeeds whatever the secret is. -/
theorem iotxGuiderAuthenticate_total (C : Cipher) (mode : SecureMode) (dev : DeviceInfo)
    (conn : ConnInfo) (random : Nat) (hrandom : conn.randomStr = []) :
    ∃ conn', iotxGuiderAuthenticate C mode dev conn random = .ok conn' := by
  obtain ⟨⟨ret, key⟩, hkey⟩ := stringToHex_total dev.deviceSecret
  have hstr : ∀ bytes : Bytes, (hexToString bytes []).length = 2 * bytes.length := by
    intro bytes
    induction bytes with
    | nil => rfl
    | cons b bytes ih =>
        simp only [hexToString, List.flatMap_cons, List.length_append, List.length_drop,
          List.length_cons, List.length_nil] at ih ⊢
        omega
  have hcat : ∀ {dest src : Bytes}, dest.length + src.length < 65 →
      strcat 65 dest src = .ok (dest ++ src) := fun h => if_pos h
  have hsuffix : (passwordSuffix mode).length = 2 := by cases mode <;> rfl
  have h8 : (hexToString (uint32ToHex random) []).length = 8 := hstr _
  simp only [iotxGuiderAuthenticate, hrandom, hkey]
  rw [hcat (by simp [h8]), ok_bind, hcat (by simp [h8, hsuffix]), ok_bind, ok_bind,
    hcat (by simp [h8, hsuffix, hstr, calcCmac])]
  exact ⟨_, rfl⟩

/-- Invalid credentials are refused exactly when there are none: the stored secret
is 32 digits and the stored id has ten characters where it is used. -/
theorem invalidRefused_iff (mode : SecureMode) (deviceId deviceSecret : Bytes) :
    InvalidRefused mode (iotSystemSetDeviceInfo deviceId deviceSecret) ↔
      ValidCredentials mode (iotSystemSetDeviceInfo deviceId deviceSecret) := by
  have hid : (iotSystemSetDeviceInfo deviceId deviceSecret).deviceId.length ≤ 32 :=
    List.length_take_le 32 deviceId
  generalize iotSystemSetDeviceInfo deviceId deviceSecret = dev at hid ⊢
  have hword : dev.deviceId.length % 65536 = dev.deviceId.length := Nat.mod_eq_of_lt (by omega)
  constructor
  · intro hrefused
    refine ⟨validSecret_iff_decodeHex.mpr ?_, ?_⟩
    · obtain ⟨conn', hauth⟩ :=
        iotxGuiderAuthenticate_total ⟨fun _ b => b, fun _ _ => Vector.replicate 16 0⟩ mode dev
          ⟨[], [], [], [], 0, 0⟩ 0 rfl
      obtain ⟨key, hkey, hlen, _⟩ := hrefused.authenticate hauth
      exact ⟨key, hkey, hlen⟩
    · intro hmode
      subst hmode
      refine Nat.le_of_not_lt fun hshort => ?_
      rw [← hword] at hshort
      obtain ⟨conn', frame, hseal⟩ := iotxCommPayloadEncrypt_short hshort
        ⟨fun _ b => b, fun _ _ => Vector.replicate 16 0⟩ ⟨[], [], [], [], 0, 0⟩
      exact not_longEnough_of_short hshort (hrefused.encrypt rfl hseal (by decide))
  · intro ⟨hsecret, hten⟩
    obtain ⟨key, hkey, hlen⟩ := validSecret_iff_decodeHex.mp hsecret
    refine ⟨?_, ?_, ?_⟩
    · intro C conn conn' random hauth
      exact ⟨key, hkey, hlen, authenticate_of_decodeHex hkey hlen hauth⟩
    · intro C conn conn' hkeys
      exact ⟨key, hkey, hlen, genKeys_of_decodeHex hkey hlen hkeys⟩
    · intro hmode C conn conn' dest dest' src destlen srclen n _ _
      exact longEnough_of_ten (hword.symm ▸ hten hmode) srclen

/-- A secret of 31 digits is taken, and the session is keyed with zeros. -/
theorem not_invalidRefused_31 : ¬ ∀ (mode : SecureMode) (deviceId deviceSecret : Bytes),
    InvalidRefused mode (iotSystemSetDeviceInfo deviceId deviceSecret) := by
  intro hall
  let dev := iotSystemSetDeviceInfo (List.replicate 10 65) (List.replicate 31 48)
  let C : Cipher := ⟨fun _ b => b, fun key _ => Vector.replicate 16 (key.getD 0 1)⟩
  have hkeys : iotxGuiderAuthGenKeys C dev ⟨[], [], [], [], 0, 0⟩ =
      .ok ⟨[], [], List.replicate 16 0, List.replicate 16 0, 0, 0⟩ := by decide +kernel
  obtain ⟨key, hkey, _⟩ := (hall .tcpGuiderFormencrypt _ _).genKeys hkeys
  have hnone : decodeHex dev.deviceSecret = none := by decide
  rw [hnone] at hkey
  cases hkey

end IotKit.Security
