import IotKit.CommIf.Downlink

/-!
# Decryption of short frames

`iotx_comm_payload_decrypt` takes 6 and 4 from the length of a frame without asking
whether there are so many bytes.  The objects of a call are the frame, with exactly
`srclen` bytes, and `dest`, with exactly `destlen` bytes, so that a call with a
result has stayed inside both.
-/

namespace IotKit.CommIf

open CMemory Security

instance (C : Cipher) (nwkskey payload : Bytes) : Decidable (Verified C nwkskey payload) :=
  inferInstanceAs (Decidable (_ = _))

section ShortFrame

variable (C : Cipher) (mode : SecureMode) (deviceId : Bytes) (conn : ConnInfo) (dest src : Bytes)

/-- The call stays inside its objects.  A positive result is the length of the text of a
frame that has text, and the packet id of the session moves with such a result only. -/
def DecryptSafe : Prop :=
  ∃ n conn' dest',
    iotxCommPayloadDecrypt C mode deviceId conn dest dest.length src 0 src.length =
      .ok (n, conn', dest') ∧
    (0 < n → 6 < src.length ∧ n = (src.length : Int) - 6) ∧
    (conn'.downPacketid ≠ conn.downPacketid → 0 < n)

/-- No frame of less than four bytes.  One that is too short for text is not verified, or it
is the frame without text of the packet id that the session has.  In mode 3, where a frame
is its text, the text is empty or `dest` too small. -/
def Unsurprising : Prop :=
  if mode = .tlsGuiderPlain then src = [] ∨ dest.length < src.length
  else 4 ≤ src.length ∧ (src.length ≤ 6 → Verified C conn.nwkskey src →
    src.length = 6 ∧ ofBe16 (src.getD 0 0) (src.getD 1 0) = conn.downPacketid)

variable {C mode deviceId conn dest src}

theorem downlinkText_inside {destlen : Nat} (hsrc : destlen + 2 ≤ src.length)
    (hdest : destlen ≤ dest.length) :
    ∃ out, downlinkText C mode deviceId conn dest destlen src 0 = .ok out := by
  rw [downlinkText]
  split
  next =>
    have htext : destlen ≤ (src.drop (0 + 2)).length := by
      rw [List.length_drop]
      omega
    have hbuf : destlen ≤ (Buf.fresh dest).bytes.length := hdest
    obtain ⟨d, hrun⟩ :=
      payloadEncrypt_inside C conn.appskey 1 conn.downPacketid deviceId htext hbuf
    exact ⟨d.bytes, bind_eq_ok.mpr ⟨d, hrun, rfl⟩⟩
  next =>
    have hload : loadN src ((0 + 2 : Nat) : Int) destlen = .ok ((src.drop (0 + 2)).take destlen) :=
      loadN_of_le (by omega)
    rw [hload, ok_bind]
    refine ⟨_, storeN_of_le (i := 0) ?_⟩
    rw [List.length_take]
    omega

theorem decryptSafe_plain (hmode : mode = .tlsGuiderPlain) :
    DecryptSafe C mode deviceId conn dest src ↔ Unsurprising C mode conn dest src := by
  rw [DecryptSafe, Unsurprising, if_pos hmode]
  by_cases hlarge : dest.length < src.length
  · have hrun : iotxCommPayloadDecrypt C mode deviceId conn dest dest.length src 0 src.length =
        .ok (-1, conn, dest) := by
      rw [iotxCommPayloadDecrypt, if_pos hmode, if_pos hlarge]
    exact ⟨fun _ => Or.inr hlarge,
      fun _ => ⟨_, _, _, hrun, fun hpos => absurd hpos (by decide), fun hne => absurd rfl hne⟩⟩
  · have hload : loadN src ((0 : Nat) : Int) src.length = .ok src := by
      rw [loadN_of_le (by omega), List.drop_zero, List.take_length]
    have hstore : storeN dest ((0 : Nat) : Int) src = .ok _ := storeN_of_le (by omega)
    have hrun : iotxCommPayloadDecrypt C mode deviceId conn dest dest.length src 0 src.length =
        .ok ((src.length : Int), conn,
          dest.take 0 ++ (src ++ dest.drop (0 + src.length))) := by
      rw [iotxCommPayloadDecrypt, if_pos hmode, if_neg hlarge, hload, ok_bind]
      exact bind_eq_ok.mpr ⟨_, hstore, rfl⟩
    constructor
    · rintro ⟨n, conn', dest', hn, hpos, -⟩
      rw [hrun] at hn
      cases hn
      left
      by_contra hne
      have hlen := List.length_pos_iff.mpr hne
      have := (hpos (by omega)).2
      omega
    · rintro (rfl | hshort)
      · exact ⟨_, _, _, hrun, fun hpos => absurd hpos (by decide), fun hne => absurd rfl hne⟩
      · exact absurd hshort hlarge

/-- What the code does with a frame of four bytes or more. -/
theorem decrypt_checked (hmode : mode ≠ .tlsGuiderPlain) (hword : src.length < 65536)
    (hshort : 4 ≤ src.length) (hfits : (src.length : Int) - 6 ≤ dest.length) :
    iotxCommPayloadDecrypt C mode deviceId conn dest dest.length src 0 src.length =
      if Verified C conn.nwkskey src then
        downlinkText C mode deviceId
            { conn with downPacketid := ofBe16 (src.getD 0 0) (src.getD 1 0) } dest
            ((src.length + 65530) % 65536) src 0 >>= fun dest' =>
          .ok ((((src.length + 65530) % 65536 : Nat) : Int),
            { conn with downPacketid := ofBe16 (src.getD 0 0) (src.getD 1 0) }, dest')
      else .ok (0, conn, dest) := by
  have hmsg : loadN src ((0 : Nat) : Int) ((src.length + 65532) % 65536) =
      .ok (src.take (src.length - 4)) := by
    rw [show (src.length + 65532) % 65536 = src.length - 4 by omega, loadN_of_le (by omega),
      List.drop_zero]
  have htag : loadN src (((0 : Nat) : Int) + src.length - 4) 4 =
      .ok (src.drop (src.length - 4)) := by
    rw [show ((0 : Nat) : Int) + src.length - 4 = ((src.length - 4 : Nat) : Int) by omega,
      loadN_of_le (by omega), List.take_of_length_le (by rw [List.length_drop]; omega)]
  have hbyte : ∀ i, i < 4 → load src (i : Nat) = .ok (src.getD i 0) := by
    intro i hi
    rw [load_of_lt (by omega), List.getD_eq_getElem?_getD, List.getElem?_eq_getElem (by omega),
      Option.getD_some]
  rw [iotxCommPayloadDecrypt, if_neg hmode, if_neg (by omega), calMic, List.drop_zero]
  rw [show (0 : Int) = ((0 : Nat) : Int) from rfl] at *
  simp only [hmsg, htag, ok_bind, hbyte 0 (by omega), hbyte 1 (by omega)]
  rfl

theorem decryptSafe_sealed (hmode : mode ≠ .tlsGuiderPlain) (hword : src.length < 65536) :
    DecryptSafe C mode deviceId conn dest src ↔ Unsurprising C mode conn dest src := by
  rw [DecryptSafe, Unsurprising, if_neg hmode]
  by_cases hfour : 4 ≤ src.length
  case neg =>
    refine ⟨?_, fun h => absurd h.1 hfour⟩
    rintro ⟨n, conn', dest', hrun, -⟩
    -- the length of the authenticated part wraps
    rw [iotxCommPayloadDecrypt, if_neg hmode, if_neg (by omega)] at hrun
    obtain ⟨_, hmic, -⟩ := bind_eq_ok.mp hrun
    obtain ⟨msg, hmsg, -⟩ := bind_eq_ok.mp hmic
    have hin := (loadN_eq_ok.mp hmsg).2.1
    rw [List.drop_zero] at hin
    omega
  by_cases hfits : (src.length : Int) - 6 ≤ dest.length
  case neg =>
    have hrun : iotxCommPayloadDecrypt C mode deviceId conn dest dest.length src 0 src.length =
        .ok (-1, conn, dest) := by
      rw [iotxCommPayloadDecrypt, if_neg hmode, if_pos (by omega)]
    exact ⟨fun _ => ⟨hfour, fun hsix => by omega⟩,
      fun _ => ⟨_, _, _, hrun, fun hpos => absurd hpos (by decide), fun hne => absurd rfl hne⟩⟩
  rw [decrypt_checked hmode hword hfour hfits]
  by_cases hverified : Verified C conn.nwkskey src
  case neg =>
    rw [if_neg hverified]
    exact ⟨fun _ => ⟨hfour, fun _ hv => absurd hv hverified⟩,
      fun _ => ⟨_, _, _, rfl, fun hpos => absurd hpos (by decide), fun hne => absurd rfl hne⟩⟩
  rw [if_pos hverified]
  by_cases hsix : 6 ≤ src.length
  · have hlen : (src.length + 65530) % 65536 = src.length - 6 := by omega
    obtain ⟨out, hout⟩ : ∃ out, downlinkText C mode deviceId
        { conn with downPacketid := ofBe16 (src.getD 0 0) (src.getD 1 0) } dest (src.length - 6)
        src 0 = .ok out := downlinkText_inside (by omega) (by omega)
    rw [hlen, hout, ok_bind]
    constructor
    · rintro ⟨n, conn', dest', hrun, -, hmoved⟩
      cases hrun
      refine ⟨hfour, fun hshort _ => ⟨by omega, ?_⟩⟩
      by_contra hne
      have hpos := hmoved hne
      omega
    · rintro ⟨-, hempty⟩
      refine ⟨_, _, _, rfl, fun hpos => ⟨by omega, by omega⟩, fun hmoved => ?_⟩
      by_contra hzero
      exact hmoved (hempty (by omega) hverified).2
  · constructor
    · rintro ⟨n, conn', dest', hrun, hpos, -⟩
      obtain ⟨_, _, hrun⟩ := bind_eq_ok.mp hrun
      cases hrun
      have := hpos (by omega)
      omega
    · rintro ⟨-, hempty⟩
      have := (hempty (by omega) hverified).1
      omega

/-- A call on any frame is safe exactly if the frame is unsurprising. -/
theorem decryptSafe_iff (hword : src.length < 65536) :
    DecryptSafe C mode deviceId conn dest src ↔ Unsurprising C mode conn dest src := by
  by_cases hmode : mode = .tlsGuiderPlain
  · exact decryptSafe_plain hmode
  · exact decryptSafe_sealed hmode hword

end ShortFrame

/-- A frame of seven bytes that is verified: one byte is decrypted, and its packet id is
kept. -/
theorem decryptSafe_seven :
    (iotxCommPayloadDecrypt zeroCipher .tcpGuiderFormencrypt [] newSession [0] 1
      [0, 1, 65, 0, 0, 0, 0] 0 7).map (fun r => (r.1, r.2.1.downPacketid)) = .ok (1, 1) ∧
    DecryptSafe zeroCipher .tcpGuiderFormencrypt [] newSession [0] [0, 1, 65, 0, 0, 0, 0] := by
  refine ⟨by decide +kernel, (decryptSafe_iff (by decide)).mpr ⟨by decide, fun h => ?_⟩⟩
  exact absurd h (by decide)

/-- An empty frame is read far beyond its end. -/
theorem not_decryptSafe_empty :
    ¬∀ (C : Cipher) (mode : SecureMode) (deviceId : Bytes) (conn : ConnInfo) (dest src : Bytes),
      mode ≠ .tlsGuiderPlain → src.length < 65536 → dest.length < 65536 →
        DecryptSafe C mode deviceId conn dest src := by
  intro hall
  obtain ⟨n, conn', dest', hrun, -⟩ := hall zeroCipher .tcpGuiderFormencrypt [] newSession [] []
    (by decide) (by decide) (by decide)
  have hfault : iotxCommPayloadDecrypt zeroCipher .tcpGuiderFormencrypt [] newSession [] 0 [] 0 0 =
      .error .load := by decide
  rw [List.length_nil, hfault] at hrun
  cases hrun

end IotKit.CommIf
