import IotKit.Lib.Run
import IotKit.Security.Keystream

/-!
# Sessions

`iotx_guider_api.c`: `iotxGuiderAuthenticate` starts a session, and
`iotxGuiderAuthGenKeys` derives its keys from the random string.  A session then
seals and opens payloads in any order.  `Session.step` runs these calls and
records the packet id of each payload that is sealed.

The packet id is a 16-bit word of the frame.  Within a session it counts the
payloads sealed (`Numbered`), so it repeats exactly every 65536 of them.
-/

namespace IotKit.Security

open CMemory Runs

/-! ## Hexadecimal strings -/

/-- `ascii_nibble`. -/
def asciiNibble (nibble : UInt8) : UInt8 :=
  let hexDigit := nibble + 48
  if 57 < hexDigit then hexDigit + 39 else hexDigit

/-- `hex_nibble`. -/
def hexNibble (nibble : UInt8) : UInt8 :=
  if 48 ≤ nibble ∧ nibble ≤ 57 then nibble - 48
  else if 97 ≤ nibble ∧ nibble ≤ 102 then nibble - 97 + 10
  else if 65 ≤ nibble ∧ nibble ≤ 70 then nibble - 65 + 10
  else 0

/-- The loop of `StringToHex` from character `2 n` on.  An odd last character is
paired with the terminator. -/
def stringToHexLoop (destlen : Nat) : Nat → Bytes → Bytes → Checked (Int × Bytes)
  | n, [], dest => .ok (n, dest)
  | n, [hi], dest =>
      if n ≤ destlen then do
        let dest ← storeN dest n [hexNibble hi <<< 4 ||| hexNibble 0]
        .ok (n + 1, dest)
      else .ok (n, dest)
  | n, hi :: lo :: rest, dest =>
      if n ≤ destlen then do
        let dest ← storeN dest n [hexNibble hi <<< 4 ||| hexNibble lo]
        stringToHexLoop destlen (n + 1) rest dest
      else .ok (n, dest)

/-- `StringToHex` with `reverse` false.  The `memset` clears `sizeof(uint16_t)`
bytes. -/
def stringToHex (src : Bytes) (srclen : Nat) (dest : Bytes) (destlen : Nat) :
    Checked (Int × Bytes) :=
  if src.length ≠ srclen then .ok (-1, dest)
  else do
    let dest ← storeN dest 0 [0, 0]
    stringToHexLoop destlen 0 src dest

/-- `HexToString` with `reverse` false: the digits, written over the beginning of
the string `dest`. -/
def hexToString (src dest : Bytes) : Bytes :=
  let digits := src.flatMap fun (b : UInt8) => [asciiNibble (b >>> 4), asciiNibble (b &&& 0xF)]
  digits ++ dest.drop digits.length

/-- `Uint32ToHex`. -/
def uint32ToHex (val : Nat) : Bytes :=
  [UInt8.ofNat (val / 2 ^ 24), UInt8.ofNat (val / 2 ^ 16), UInt8.ofNat (val / 2 ^ 8),
    UInt8.ofNat val]

/-- `strcat` into an object of `size` bytes. -/
def strcat (size : Nat) (dest src : Bytes) : Checked Bytes :=
  if dest.length + src.length < size then .ok (dest ++ src) else .error .store

/-! ## The session keys -/

/-- `_calc_cmac` of the whole of `buffer`. -/
def calcCmac (C : Cipher) (buffer key : Bytes) : Bytes := (C.cmac key buffer).toList

/-- The nonce of one key: its tag, the random string and zeros. -/
def sessionNonce (tag : UInt8) (randomStr : Bytes) : Checked Bytes :=
  storeN (tag :: List.replicate 15 0) 1 randomStr

/-- `_gen_session_keys`: the keys `nwkSKey` and `appSKey`. -/
def genSessionKeys (C : Cipher) (key randomStr : Bytes) : Checked (Bytes × Bytes) := do
  let appNonce ← sessionNonce 0x01 randomStr
  let nwkNonce ← sessionNonce 0x02 randomStr
  .ok (calcCmac C nwkNonce key, calcCmac C appNonce key)

/-- The fields of `iotx_device_info_t` that security reads. -/
structure DeviceInfo where
  deviceId : Bytes
  deviceSecret : Bytes

/-- The suffix of the password: `":0"`, `":2"` or `":1"`. -/
def passwordSuffix : SecureMode → Bytes
  | .tcpGuiderFormplain => [58, 48]
  | .tlsGuiderPlain => [58, 50]
  | .tcpGuiderFormencrypt => [58, 49]

/-- `iotx_guider_authenticate`.  `random` is what `HAL_Random` returns. -/
def iotxGuiderAuthenticate (C : Cipher) (mode : SecureMode) (dev : DeviceInfo) (conn : ConnInfo)
    (random : Nat) : Checked ConnInfo := do
  let randomStr := hexToString (uint32ToHex random) conn.randomStr
  let password ← strcat 65 [] randomStr
  let password ← strcat 65 password (passwordSuffix mode)
  let (_, deviceSecretHex) ← stringToHex dev.deviceSecret 32 (List.replicate 16 0) 16
  let cMacHex := calcCmac C randomStr deviceSecretHex
  let password ← strcat 65 password (hexToString cMacHex [])
  .ok { conn with upPacketid := 0, downPacketid := 0, randomStr, password }

/-- `iotx_guider_auth_gen_keys`. -/
def iotxGuiderAuthGenKeys (C : Cipher) (dev : DeviceInfo) (conn : ConnInfo) :
    Checked ConnInfo := do
  let (_, deviceSecretHex) ← stringToHex dev.deviceSecret 32 (List.replicate 16 0) 16
  let (nwkskey, appskey) ← genSessionKeys C deviceSecretHex conn.randomStr
  .ok { conn with nwkskey, appskey }

/-! ## Runs -/

namespace Session

inductive Op where
  | authenticate (random : Nat)
  | genKeys
  | encrypt (dest : Bytes) (destlen : Nat) (src : Bytes) (srclen : Nat)
  | decrypt (dest : Bytes) (destlen : Nat) (mem : Bytes) (off srclen : Nat)

/-- What selects the keystream of one sealed payload, and the number of the
session that sealed it. -/
structure Uplink where
  session : Nat
  appskey : Bytes
  dir : UInt8
  seqId : Nat

/-- The session information and the payloads sealed so far. -/
structure History where
  conn : ConnInfo
  session : Nat
  uplinks : List Uplink

variable (C : Cipher) (mode : SecureMode) (dev : DeviceInfo)

/-- A payload is sealed when `iotx_comm_payload_encrypt` returns a positive
length, in the modes with a packet id. -/
def step (h : History) : Op → Checked History
  | .authenticate random => do
      let conn ← iotxGuiderAuthenticate C mode dev h.conn random
      .ok { h with conn, session := h.session + 1 }
  | .genKeys => do
      let conn ← iotxGuiderAuthGenKeys C dev h.conn
      .ok { h with conn }
  | .encrypt dest destlen src srclen => do
      let (n, conn, _) ← iotxCommPayloadEncrypt C mode dev.deviceId h.conn dest destlen src srclen
      if 0 < n ∧ mode ≠ .tlsGuiderPlain then
        .ok { h with conn,
                     uplinks := h.uplinks ++ [⟨h.session, h.conn.appskey, 0, conn.upPacketid⟩] }
      else .ok { h with conn }
  | .decrypt dest destlen mem off srclen => do
      let (_, conn, _) ←
        iotxCommPayloadDecrypt C mode dev.deviceId h.conn dest destlen mem off srclen
      .ok { h with conn }

def start (conn : ConnInfo) : History := ⟨conn, 0, []⟩

/-- No two payloads of one session are sealed with one keystream. -/
def NoReuse (uplinks : List Uplink) : Prop :=
  uplinks.Pairwise fun e e' =>
    e.session = e'.session → e.appskey = e'.appskey → (e.dir, e.seqId) ≠ (e'.dir, e'.seqId)

/-! ## The packet id counts the payloads sealed -/

section Counting

variable {C mode dev}

theorem iotxGuiderAuthGenKeys_packetid {conn conn' : ConnInfo}
    (h : iotxGuiderAuthGenKeys C dev conn = .ok conn') : conn'.upPacketid = conn.upPacketid := by
  obtain ⟨_, _, h⟩ := bind_eq_ok.mp h
  obtain ⟨_, _, h⟩ := bind_eq_ok.mp h
  cases h
  rfl

/-- A payload that is not sealed leaves the packet id, and one that is sealed
counts it up. -/
theorem iotxCommPayloadEncrypt_packetid {deviceId dest dest' src : Bytes} {destlen srclen : Nat}
    {conn conn' : ConnInfo} {n : Int}
    (h : iotxCommPayloadEncrypt C mode deviceId conn dest destlen src srclen =
      .ok (n, conn', dest')) :
    conn'.upPacketid =
      if 0 < n ∧ mode ≠ .tlsGuiderPlain then (conn.upPacketid + 1) % 65536
      else conn.upPacketid := by
  rw [iotxCommPayloadEncrypt] at h
  split at h
  next hmode =>
    rw [if_neg (fun hs => hs.2 hmode)]
    split at h
    · cases h
      rfl
    · obtain ⟨_, _, h⟩ := bind_eq_ok.mp h
      obtain ⟨_, _, h⟩ := bind_eq_ok.mp h
      cases h
      rfl
  next hmode =>
    split at h
    · cases h
      rfl
    · obtain ⟨_, _, h⟩ := bind_eq_ok.mp h
      obtain ⟨_, _, h⟩ := bind_eq_ok.mp h
      obtain ⟨_, _, h⟩ := bind_eq_ok.mp h
      obtain ⟨_, _, h⟩ := bind_eq_ok.mp h
      cases h
      rw [if_pos ⟨by omega, hmode⟩]

theorem iotxCommPayloadDecrypt_packetid {deviceId dest dest' mem : Bytes}
    {destlen off srclen : Nat} {conn conn' : ConnInfo} {n : Int}
    (h : iotxCommPayloadDecrypt C mode deviceId conn dest destlen mem off srclen =
      .ok (n, conn', dest')) : conn'.upPacketid = conn.upPacketid := by
  rw [iotxCommPayloadDecrypt] at h
  split at h
  · split at h
    · cases h
      rfl
    · obtain ⟨_, _, h⟩ := bind_eq_ok.mp h
      obtain ⟨_, _, h⟩ := bind_eq_ok.mp h
      cases h
      rfl
  · split at h
    · cases h
      rfl
    · obtain ⟨_, _, h⟩ := bind_eq_ok.mp h
      obtain ⟨_, _, h⟩ := bind_eq_ok.mp h
      split at h
      · obtain ⟨_, _, h⟩ := bind_eq_ok.mp h
        obtain ⟨_, _, h⟩ := bind_eq_ok.mp h
        obtain ⟨_, _, h⟩ := bind_eq_ok.mp h
        cases h
        rfl
      · cases h
        rfl

/-- What one call does to the packet id, the session number and the payloads
sealed. -/
theorem step_cases {h h' : History} {op : Op} (hstep : step C mode dev h op = .ok h') :
    (h'.session = h.session + 1 ∧ h'.uplinks = h.uplinks) ∨
    (h'.session = h.session ∧ h'.uplinks = h.uplinks ∧
      h'.conn.upPacketid = h.conn.upPacketid) ∨
    (h'.session = h.session ∧ h'.conn.upPacketid = (h.conn.upPacketid + 1) % 65536 ∧
      h'.uplinks = h.uplinks ++ [⟨h.session, h.conn.appskey, 0, h'.conn.upPacketid⟩]) := by
  cases op with
  | authenticate random =>
      obtain ⟨conn, _, hstep⟩ := bind_eq_ok.mp hstep
      cases hstep
      exact Or.inl ⟨rfl, rfl⟩
  | genKeys =>
      obtain ⟨conn, hkeys, hstep⟩ := bind_eq_ok.mp hstep
      cases hstep
      exact Or.inr (Or.inl ⟨rfl, rfl, iotxGuiderAuthGenKeys_packetid hkeys⟩)
  | encrypt dest destlen src srclen =>
      obtain ⟨⟨n, conn, out⟩, hseal, hstep⟩ := bind_eq_ok.mp hstep
      have hid := iotxCommPayloadEncrypt_packetid hseal
      simp only at hstep
      split at hstep
      next hsealed =>
        rw [if_pos hsealed] at hid
        cases hstep
        exact Or.inr (Or.inr ⟨rfl, hid, rfl⟩)
      next hplain =>
        rw [if_neg hplain] at hid
        cases hstep
        exact Or.inr (Or.inl ⟨rfl, rfl, hid⟩)
  | decrypt dest destlen mem off srclen =>
      obtain ⟨⟨n, conn, out⟩, hopen, hstep⟩ := bind_eq_ok.mp hstep
      cases hstep
      exact Or.inr (Or.inl ⟨rfl, rfl, iotxCommPayloadDecrypt_packetid hopen⟩)

/-- Within one session the packet ids are consecutive modulo 65536, and the
current one is the last. -/
structure Numbered (h : History) : Prop where
  past : ∀ e ∈ h.uplinks, e.session ≤ h.session ∧ e.dir = 0
  gap : ∀ {i j : Nat} {e e' : Uplink}, i ≤ j → h.uplinks[i]? = some e →
    h.uplinks[j]? = some e' → e.session = e'.session → e'.seqId = (e.seqId + (j - i)) % 65536
  last : ∀ {i : Nat} {e : Uplink}, h.uplinks[i]? = some e → e.session = h.session →
    h.conn.upPacketid = (e.seqId + (h.uplinks.length - 1 - i)) % 65536

theorem numbered_start (conn : ConnInfo) : Numbered (start conn) := by
  refine ⟨?_, ?_, ?_⟩
  · intro e he
    cases he
  · intro i j e e' hij he
    cases he
  · intro i e he
    cases he

theorem Numbered.same {h h' : History} (hnum : Numbered h) (hup : h'.uplinks = h.uplinks)
    (hsession : h.session ≤ h'.session)
    (hlast : h'.session = h.session → h'.conn.upPacketid = h.conn.upPacketid) : Numbered h' := by
  refine ⟨?_, ?_, ?_⟩
  · intro e he
    rw [hup] at he
    have hpast := hnum.past e he
    exact ⟨Nat.le_trans hpast.1 hsession, hpast.2⟩
  · intro i j e e' hij he he'
    rw [hup] at he he'
    exact hnum.gap hij he he'
  · intro i e he hs
    rw [hup] at he ⊢
    -- no payload is of a session that has just begun
    have hsame : h'.session = h.session :=
      Nat.le_antisymm (hs ▸ (hnum.past e (List.mem_of_getElem? he)).1) hsession
    rw [hlast hsame]
    exact hnum.last he (hs.trans hsame)

/-- The next payload of a session takes the next packet id. -/
theorem Numbered.append {h h' : History} (hnum : Numbered h) (hsession : h'.session = h.session)
    (hid : h'.conn.upPacketid = (h.conn.upPacketid + 1) % 65536)
    (hup : h'.uplinks = h.uplinks ++ [⟨h.session, h.conn.appskey, 0, h'.conn.upPacketid⟩]) :
    Numbered h' := by
  have hlen : h'.uplinks.length = h.uplinks.length + 1 := by
    rw [hup, List.length_append, List.length_singleton]
  have hold : ∀ {i : Nat} {e : Uplink}, i < h.uplinks.length → h'.uplinks[i]? = some e →
      h.uplinks[i]? = some e := by
    intro i e hi he
    rwa [hup, List.getElem?_append_left hi] at he
  have hnew : ∀ {i : Nat} {e : Uplink}, h'.uplinks[i]? = some e → ¬ i < h.uplinks.length →
      i = h.uplinks.length ∧ e = ⟨h.session, h.conn.appskey, 0, h'.conn.upPacketid⟩ := by
    intro i e he hi
    obtain ⟨hlt, _⟩ := List.getElem?_eq_some_iff.mp he
    obtain rfl : i = h.uplinks.length := by omega
    rw [hup, List.getElem?_concat_length] at he
    exact ⟨rfl, (Option.some.inj he).symm⟩
  have hnext : ∀ {i : Nat} {e : Uplink}, i < h.uplinks.length → h.uplinks[i]? = some e →
      e.session = h.session →
      h'.conn.upPacketid = (e.seqId + (h.uplinks.length - i)) % 65536 := by
    intro i e hi he hs
    rw [hid, hnum.last he hs]
    omega
  have hword : h'.conn.upPacketid < 65536 := by
    rw [hid]
    exact Nat.mod_lt _ (by decide)
  refine ⟨?_, ?_, ?_⟩
  · intro e he
    rw [hup, List.mem_append, List.mem_singleton] at he
    rw [hsession]
    rcases he with he | rfl
    · exact hnum.past e he
    · exact ⟨Nat.le_refl _, rfl⟩
  · intro i j e e' hij he he' hs
    by_cases hj : j < h.uplinks.length
    · exact hnum.gap hij (hold (Nat.lt_of_le_of_lt hij hj) he) (hold hj he') hs
    · obtain ⟨rfl, rfl⟩ := hnew he' hj
      by_cases hi : i < h.uplinks.length
      · exact hnext hi (hold hi he) hs
      · obtain ⟨rfl, rfl⟩ := hnew he hi
        show h'.conn.upPacketid = (h'.conn.upPacketid + _) % 65536
        rw [Nat.sub_self, Nat.add_zero, Nat.mod_eq_of_lt hword]
  · intro i e he hs
    rw [hlen, Nat.add_sub_cancel]
    by_cases hi : i < h.uplinks.length
    · exact hnext hi (hold hi he) (hs.trans hsession)
    · obtain ⟨rfl, rfl⟩ := hnew he hi
      show h'.conn.upPacketid = (h'.conn.upPacketid + _) % 65536
      rw [Nat.sub_self, Nat.add_zero, Nat.mod_eq_of_lt hword]

theorem step_numbered {h h' : History} {op : Op} (hnum : Numbered h)
    (hstep : step C mode dev h op = .ok h') : Numbered h' := by
  rcases step_cases hstep with ⟨hsession, hup⟩ | ⟨hsession, hup, hid⟩ | ⟨hsession, hid, hup⟩
  · exact hnum.same hup (by omega) fun hs => by omega
  · exact hnum.same hup (Nat.le_of_eq hsession.symm) fun _ => hid
  · exact hnum.append hsession hid hup

theorem run_numbered {conn : ConnInfo} {ops : List Op} {h : History}
    (hrun : run (step C mode dev) (start conn) ops = .ok h) : Numbered h :=
  run_invariant (G := fun _ _ => True) (fun hinv _ hstep => step_numbered hinv hstep)
    (numbered_start conn) guarded_true hrun

theorem Numbered.samePair_iff {h : History} (hnum : Numbered h) {i j : Nat} {e e' : Uplink}
    (hij : i ≤ j) (he : h.uplinks[i]? = some e) (he' : h.uplinks[j]? = some e')
    (hs : e.session = e'.session) :
    (e.dir, e.seqId) = (e'.dir, e'.seqId) ↔ 65536 ∣ j - i := by
  have hdir := (hnum.past e (List.mem_of_getElem? he)).2
  have hdir' := (hnum.past e' (List.mem_of_getElem? he')).2
  have hself := hnum.gap (Nat.le_refl i) he he rfl
  have hgap := hnum.gap hij he he' hs
  rw [hdir, hdir', Prod.mk.injEq]
  constructor
  · rintro ⟨_, hseq⟩
    omega
  · intro hdvd
    exact ⟨rfl, by omega⟩

end Counting

/-- Two payloads of one session are sealed with one keystream exactly when their
distance in payloads is a multiple of 65536. -/
theorem run_samePair_iff (conn : ConnInfo) (ops : List Op) (h : History)
    (hrun : run (step C mode dev) (start conn) ops = .ok h) :
    ∀ {i j : Nat} {e e' : Uplink}, i ≤ j → h.uplinks[i]? = some e → h.uplinks[j]? = some e' →
      e.session = e'.session →
      ((e.dir, e.seqId) = (e'.dir, e'.seqId) ↔ 65536 ∣ j - i) :=
  fun hij he he' hs => (run_numbered hrun).samePair_iff hij he he' hs

/-! ### A session of 65537 payloads -/

def exampleDevice : DeviceInfo := ⟨List.replicate 10 65, List.replicate 32 48⟩

def exampleCipher : Cipher := ⟨fun _ b => b, fun _ _ => Vector.replicate 16 0⟩

def exampleConn : ConnInfo := ⟨[], [], [], [], 0, 0⟩

def exampleDest : Bytes := List.replicate 7 0

def exampleOp : Op := .encrypt exampleDest exampleDest.length [1] 1

def exampleStep : History → Op → Checked History :=
  step exampleCipher .tcpGuiderFormencrypt exampleDevice

theorem exampleStep_exampleOp (h : History) : ∃ conn,
    exampleStep h exampleOp = .ok ⟨conn, h.session,
      h.uplinks ++ [⟨h.session, conn.appskey, 0, conn.upPacketid⟩]⟩ ∧
    conn.appskey = h.conn.appskey := by
  have hid : CopiesLastTen exampleDevice.deviceId := by decide
  obtain ⟨frame, hseal, _⟩ := supported_frame (Or.inr ⟨by decide, hid⟩) exampleCipher h.conn
    (show [1].length = 1 from rfl) (show 1 + 6 ≤ exampleDest.length by decide) (by decide)
  refine ⟨{ h.conn with upPacketid := (h.conn.upPacketid + 1) % 65536 }, ?_, rfl⟩
  show iotxCommPayloadEncrypt _ _ _ _ _ _ _ _ >>= _ = _
  rw [hseal, ok_bind]
  rfl

theorem run_exampleOp (k : Nat) (h : History) :
    ∃ h', run exampleStep h (List.replicate k exampleOp) = .ok h' ∧
      h'.uplinks.length = h.uplinks.length + k ∧
      ∀ e ∈ h'.uplinks, e ∈ h.uplinks ∨ (e.session = h.session ∧ e.appskey = h.conn.appskey) := by
  induction k generalizing h with
  | zero => exact ⟨h, rfl, rfl, fun e he => Or.inl he⟩
  | succ k ih =>
      obtain ⟨conn, hstep, hkey⟩ := exampleStep_exampleOp h
      obtain ⟨h', hrun, hlen, hmem⟩ := ih _
      refine ⟨h', run_cons.mpr ⟨_, hstep, hrun⟩, ?_, ?_⟩
      · rw [hlen, List.length_append, List.length_singleton]
        omega
      · intro e he
        rcases hmem e he with hold | ⟨hs, hk⟩
        · rw [List.mem_append, List.mem_singleton] at hold
          rcases hold with hold | rfl
          · exact Or.inl hold
          · exact Or.inr ⟨rfl, hkey⟩
        · exact Or.inr ⟨hs, hk.trans hkey⟩

theorem run_samePair_iff_two : ∃ h e e',
    run exampleStep (start exampleConn) (List.replicate 2 exampleOp) = .ok h ∧
    h.uplinks[0]? = some e ∧ h.uplinks[1]? = some e' ∧
    ((e.dir, e.seqId) = (e'.dir, e'.seqId) ↔ 65536 ∣ 1 - 0) := by
  obtain ⟨h, hrun, hlen, hmem⟩ := run_exampleOp 2 (start exampleConn)
  have h0 : 0 < h.uplinks.length := hlen ▸ (by decide : 0 < 0 + 2)
  have h1 : 1 < h.uplinks.length := hlen ▸ (by decide : 1 < 0 + 2)
  have hsession : ∀ e ∈ h.uplinks, e.session = 0 := by
    intro e he
    rcases hmem e he with hold | hnew
    · cases hold
    · exact hnew.1
  refine ⟨h, h.uplinks[0], h.uplinks[1], hrun, List.getElem?_eq_getElem h0,
    List.getElem?_eq_getElem h1, ?_⟩
  exact run_samePair_iff exampleCipher .tcpGuiderFormencrypt exampleDevice exampleConn _ h hrun
    (Nat.zero_le 1) (List.getElem?_eq_getElem h0) (List.getElem?_eq_getElem h1)
    ((hsession _ (List.getElem_mem h0)).trans (hsession _ (List.getElem_mem h1)).symm)

/-- The payload 65536 later is sealed with the same keystream. -/
theorem not_noReuse : ¬ ∀ (C : Cipher) (mode : SecureMode) (dev : DeviceInfo) (conn : ConnInfo)
    (ops : List Op) (h : History), run (step C mode dev) (start conn) ops = .ok h →
    NoReuse h.uplinks := by
  intro hall
  let opening : List Op := [.authenticate 5, .genKeys]
  obtain ⟨h₀, hopen, hnone⟩ : ∃ h₀, run exampleStep (start exampleConn) opening = .ok h₀ ∧
    h₀.uplinks = [] := ⟨_, rfl, rfl⟩
  obtain ⟨h, hseal, hlen, hmem⟩ := run_exampleOp 65537 h₀
  have hrun := run_append.mpr ⟨h₀, hopen, hseal⟩
  rw [hnone, List.length_nil, Nat.zero_add] at hlen
  have hfirst : 0 < h.uplinks.length := by omega
  have hlast : 65536 < h.uplinks.length := by omega
  have hsame : ∀ e ∈ h.uplinks, e.session = h₀.session ∧ e.appskey = h₀.conn.appskey := by
    intro e he
    rcases hmem e he with hold | hnew
    · rw [hnone] at hold
      cases hold
    · exact hnew
  have hpair :=
    List.pairwise_iff_getElem.mp (hall _ _ _ _ _ h hrun) 0 65536 hfirst hlast (by decide)
  obtain ⟨hs, hk⟩ := hsame _ (List.getElem_mem hfirst)
  obtain ⟨hs', hk'⟩ := hsame _ (List.getElem_mem hlast)
  refine hpair (hs.trans hs'.symm) (hk.trans hk'.symm) ?_
  exact ((run_numbered hrun).samePair_iff (Nat.zero_le _) (List.getElem?_eq_getElem hfirst)
    (List.getElem?_eq_getElem hlast) (hs.trans hs'.symm)).mpr (Nat.dvd_refl _)

end Session

end IotKit.Security
