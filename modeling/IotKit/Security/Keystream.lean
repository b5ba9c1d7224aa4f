import IotKit.Security.Crypto

/-!
# Which lengths are encrypted in counter mode

The specification of `payloadEncrypt` is the XOR of the payload with the
keystream of the blocks `1, 2, ...` (`keystream`).  The byte `bufferIndex` takes
the loop back to the start of `dest` after sixteen blocks.  Up to 256 bytes the
loop fills `dest` in order (`blockLoop_filled`); past them it never writes the
byte 256 (`payloadEncrypt_written`).
-/

namespace IotKit.Security

open CMemory CounterMode

/-! ## Specification -/

/-- The last ten characters of the device id. -/
def lastTen (deviceId : Bytes) : Bytes := deviceId.drop (deviceId.length - 10)

/-- Byte `i` of the keystream of one packet, from ten characters of the id. -/
def keystream (C : Cipher) (key : Bytes) (dir : UInt8) (seqId : Nat) (id : Bytes)
    (i : Nat) : UInt8 :=
  streamByte (w := 16) (by decide) (fun j => C.aes key (aBlock dir seqId id (1 + j))) i

/-- The peer: check the four bytes of the CMAC, then XOR the text between the
packet id and the CMAC with the keystream of that packet id. -/
def peerOpen (C : Cipher) (appskey nwkskey deviceId : Bytes) : Bytes → Option Bytes
  | hi :: lo :: rest =>
      let text := rest.take (rest.length - 4)
      if rest.drop (rest.length - 4) = (C.cmac nwkskey (hi :: lo :: text)).toList.take 4 then
        some (xorStream (keystream C appskey 0 (ofBe16 hi lo) (lastTen deviceId)) text)
      else none
  | _ => none

/-- Counter mode is right for payloads of `n` bytes: each byte is the XOR with
the keystream and is written once, decryption inverts, and the peer recovers the
payload from the frame. -/
structure EncryptCorrect (deviceId : Bytes) (n : Nat) : Prop where
  pointwise : ∀ (C : Cipher) (key : Bytes) (dir : UInt8) (seqId : Nat) (src dest : Bytes),
    src.length = n → n ≤ dest.length →
    ∃ d, payloadEncrypt C src n key dir seqId deviceId (Buf.fresh dest) = .ok d ∧
      (∀ i < n, d.bytes[i]? =
        some (src.getD i 0 ^^^ keystream C key dir seqId (lastTen deviceId) i)) ∧
      ∀ i < n, d.written.count i = 1
  inverts : ∀ (C : Cipher) (key : Bytes) (dir : UInt8) (seqId : Nat) (src dest out : Bytes),
    src.length = n → n ≤ dest.length → n ≤ out.length →
    ∃ d e, payloadEncrypt C src n key dir seqId deviceId (Buf.fresh dest) = .ok d ∧
      payloadDecrypt C d.bytes n key dir seqId deviceId (Buf.fresh out) = .ok e ∧
      e.bytes.take n = src
  recovers : ∀ (C : Cipher) (conn : ConnInfo) (src dest : Bytes),
    src.length = n → n + 6 ≤ dest.length → dest.length < 65536 →
    ∃ conn' frame, iotxCommPayloadEncrypt C .tcpGuiderFormencrypt deviceId conn dest
        dest.length src n = .ok ((n + 6 : Nat), conn', frame) ∧
      peerOpen C conn.appskey conn.nwkskey deviceId (frame.take (n + 6)) = some src

/-- The ten characters that `_payload_encrypt` copies. -/
def copiedTen (deviceId : Bytes) : Bytes :=
  (deviceId.drop (deviceId.length % 65536 - 10)).take 10

/-- They are the last ten.  Only an id of 65536 characters or more can fail this,
since the length is kept in 16 bits. -/
def CopiesLastTen (deviceId : Bytes) : Prop :=
  10 ≤ deviceId.length % 65536 ∧ copiedTen deviceId = lastTen deviceId

instance (deviceId : Bytes) : Decidable (CopiesLastTen deviceId) :=
  inferInstanceAs (Decidable (_ ∧ _))

theorem copiesLastTen_of_lt {deviceId : Bytes} (h10 : 10 ≤ deviceId.length)
    (h : deviceId.length < 65536) : CopiesLastTen deviceId := by
  rw [CopiesLastTen, copiedTen, Nat.mod_eq_of_lt h]
  refine ⟨h10, List.take_of_length_le ?_⟩
  rw [List.length_drop]
  omega

/-! ## The loops -/

/-- The inner loop extends a filled buffer by `n` bytes. -/
theorem xorLoop_filled {m₀ src : Bytes} {f : Nat → UInt8} {sBlock : Block} {m : Nat} {d : Buf}
    (filled : Buf.Filled m₀ f m d) :
    ∀ n, n ≤ 16 → m + n ≤ m₀.length → m + n ≤ src.length →
      (∀ i < n, sBlock.toList[i]? = some (f (m + i) ^^^ src.getD (m + i) 0)) →
      ∃ d', xorLoop src sBlock m n d = .ok d' ∧ Buf.Filled m₀ f (m + n) d' := by
  intro n
  induction n with
  | zero => exact fun _ _ _ _ => ⟨d, rfl, filled⟩
  | succ n ih =>
      intro hn hm hs hblock
      obtain ⟨d₁, hrun, hfilled⟩ := ih (by omega) (by omega) (by omega)
        fun i hi => hblock i (Nat.lt_succ_of_lt hi)
      obtain ⟨d₂, hwrite, hfilled⟩ := hfilled.write (by omega)
      have hsrc : m + n < src.length := by omega
      have hbyte : src[m + n] ^^^ (f (m + n) ^^^ src.getD (m + n) 0) = f (m + n) := by
        rw [List.getD_eq_getElem?_getD, List.getElem?_eq_getElem hsrc, Option.getD_some,
          UInt8.xor_comm, UInt8.xor_assoc, UInt8.xor_self, UInt8.xor_zero]
      refine ⟨d₂, ?_, hfilled⟩
      rw [xorLoop, hrun, ok_bind, load_of_lt hsrc, ok_bind,
        load_eq_ok.mpr (hblock n (Nat.lt_succ_self n)), ok_bind, hbyte, hwrite]

theorem xorLoop_written {src : Bytes} {sBlock : Block} {b : Nat} {d : Buf} :
    ∀ {n : Nat} {d' : Buf}, xorLoop src sBlock b n d = .ok d' →
      d'.written = d.written ++ (List.range n).map (b + ·) := by
  intro n
  induction n with
  | zero =>
      intro d' h
      cases h
      simp
  | succ n ih =>
      intro d' h
      rw [xorLoop] at h
      obtain ⟨d₁, hrun, h⟩ := bind_eq_ok.mp h
      obtain ⟨s, _, h⟩ := bind_eq_ok.mp h
      obtain ⟨k, _, h⟩ := bind_eq_ok.mp h
      rw [Buf.write] at h
      split at h
      · cases h
        rw [ih hrun, List.range_succ, List.map_append, ← List.append_assoc]
        rfl
      · cases h

theorem Buf.write_length {d d' : Buf} {i : Nat} {b : UInt8} (h : d.write i b = .ok d') :
    d'.bytes.length = d.bytes.length := by
  rw [Buf.write] at h
  split at h
  · cases h
    exact List.length_set
  · cases h

theorem xorLoop_length {src : Bytes} {sBlock : Block} {b : Nat} {d : Buf} :
    ∀ {n : Nat} {d' : Buf}, xorLoop src sBlock b n d = .ok d' →
      d'.bytes.length = d.bytes.length := by
  intro n
  induction n with
  | zero =>
      intro d' h
      cases h
      rfl
  | succ n ih =>
      intro d' h
      obtain ⟨d₁, hrun, h⟩ := bind_eq_ok.mp h
      obtain ⟨_, _, h⟩ := bind_eq_ok.mp h
      obtain ⟨_, _, h⟩ := bind_eq_ok.mp h
      exact (Buf.write_length h).trans (ih hrun)

theorem blockLoop_length {block : Nat → Block} {src : Bytes} {v v' : LoopVars}
    (h : blockLoop block src v = .ok v') : v'.dest.bytes.length = v.dest.bytes.length := by
  rw [blockLoop] at h
  split at h
  next h16 =>
    obtain ⟨d, hrun, h⟩ := bind_eq_ok.mp h
    exact (blockLoop_length h).trans (xorLoop_length hrun)
  next =>
    cases h
    rfl
termination_by v.srclen

/-- The size of `dest` stays. -/
theorem payloadEncrypt_length {C : Cipher} {key : Bytes} {dir : UInt8} {seqId n : Nat}
    {deviceId src : Bytes} {dest d : Buf}
    (h : payloadEncrypt C src n key dir seqId deviceId dest = .ok d) :
    d.bytes.length = dest.bytes.length := by
  simp only [payloadEncrypt] at h
  split at h
  · cases h
    rfl
  · obtain ⟨_, _, h⟩ := bind_eq_ok.mp h
    obtain ⟨v, hrun, h⟩ := bind_eq_ok.mp h
    have hblocks := blockLoop_length hrun
    split at h
    · exact (xorLoop_length h).trans hblocks
    · cases h
      exact hblocks

theorem xorLoop_inside {src : Bytes} (sBlock : Block) (b : Nat) {d : Buf} :
    ∀ n, n ≤ 16 → b + n ≤ src.length → b + n ≤ d.bytes.length →
      ∃ d', xorLoop src sBlock b n d = .ok d' := by
  intro n
  induction n with
  | zero => exact fun _ _ _ => ⟨d, rfl⟩
  | succ n ih =>
      intro hn hsrc hdest
      obtain ⟨d', hrun⟩ := ih (by omega) (by omega) (by omega)
      have hlen := xorLoop_length hrun
      have hblock : n < sBlock.toList.length := by
        rw [Vector.length_toList]
        omega
      rw [xorLoop, hrun, ok_bind, load_of_lt (by omega), ok_bind, load_of_lt hblock, ok_bind,
        Buf.write_of_lt (by omega)]
      exact ⟨_, rfl⟩

/-- The byte index is never beyond what was encrypted. -/
theorem blockLoop_inside (block : Nat → Block) {src : Bytes} (v : LoopVars)
    (hsrc : v.bufferIndex + v.srclen ≤ src.length)
    (hdest : v.bufferIndex + v.srclen ≤ v.dest.bytes.length) :
    ∃ v', blockLoop block src v = .ok v' ∧ v'.srclen < 16 ∧
      v'.bufferIndex + v'.srclen ≤ src.length ∧
      v'.bufferIndex + v'.srclen ≤ v'.dest.bytes.length := by
  rw [blockLoop]
  split
  next h16 =>
    obtain ⟨d, hrun⟩ := xorLoop_inside (block v.ctr) v.bufferIndex (d := v.dest) 16 (Nat.le_refl 16)
      (show v.bufferIndex + 16 ≤ src.length by omega) (by omega)
    have hlen := xorLoop_length hrun
    have hindex := Nat.mod_le (v.bufferIndex + 16) 256
    rw [hrun, ok_bind]
    exact blockLoop_inside block
      ⟨v.srclen - 16, (v.bufferIndex + 16) % 256, (v.ctr + 1) % 65536, d⟩
      (show (v.bufferIndex + 16) % 256 + (v.srclen - 16) ≤ src.length by omega)
      (show (v.bufferIndex + 16) % 256 + (v.srclen - 16) ≤ d.bytes.length by omega)
  next hlast => exact ⟨v, rfl, Nat.lt_of_not_le hlast, hsrc, hdest⟩
termination_by v.srclen

section Filled

variable {m₀ src : Bytes} (block : Nat → Block)

/-- What the loops write: the payload XORed with the stream of the blocks from
the counter 1 on. -/
def cipherByte (src : Bytes) (block : Nat → Block) (i : Nat) : UInt8 :=
  src.getD i 0 ^^^ streamByte (w := 16) (by decide) (fun j => block (1 + j)) i

theorem block_cipherByte (j : Nat) {r : Nat} (hr : r < 16) :
    (block (1 + j)).toList[r]? =
      some (cipherByte src block (16 * j + r) ^^^ src.getD (16 * j + r) 0) := by
  rw [streamByte_block (w := 16) (by decide) (fun j => block (1 + j)) j hr, cipherByte,
    UInt8.xor_comm, ← UInt8.xor_assoc, UInt8.xor_self, UInt8.zero_xor]

/-- The loop is at block `j` of a payload of `n` bytes, all before it done. -/
structure AtBlock (m₀ src : Bytes) (n j : Nat) (v : LoopVars) : Prop where
  left : 16 * j + v.srclen = n
  index : v.bufferIndex = 16 * j % 256
  counter : v.ctr = 1 + j
  filled : Buf.Filled m₀ (cipherByte src block) (16 * j) v.dest

/-- Up to 256 bytes the loop over the blocks fills `dest` in order. -/
theorem blockLoop_filled {n : Nat} (hn : n ≤ 256) (hsrc : n ≤ src.length)
    (hdest : n ≤ m₀.length) {j : Nat} {v : LoopVars} (at_ : AtBlock block m₀ src n j v) :
    ∃ j' v', blockLoop block src v = .ok v' ∧ v'.srclen < 16 ∧ AtBlock block m₀ src n j' v' := by
  obtain ⟨left, index, counter, filled⟩ := at_
  rw [blockLoop]
  split
  next h16 =>
    have hidx : 16 * j % 256 = 16 * j := Nat.mod_eq_of_lt (by omega)
    rw [index, counter, hidx]
    obtain ⟨d, hrun, hfilled⟩ := xorLoop_filled filled 16 (Nat.le_refl _) (by omega) (by omega)
      (fun i hi => block_cipherByte block j hi)
    rw [hrun, ok_bind]
    refine blockLoop_filled hn hsrc hdest (j := j + 1) ⟨?_, ?_, ?_, hfilled⟩
    · show 16 * (j + 1) + (v.srclen - 16) = n
      omega
    · rfl
    · show (1 + j + 1) % 65536 = 1 + (j + 1)
      omega
  next h16 => exact ⟨j, v, rfl, Nat.lt_of_not_le h16, left, index, counter, filled⟩
termination_by v.srclen

end Filled

/-- Every index the loop over the blocks writes is below 256, whatever the
length: `bufferIndex` is a multiple of 16 in a byte. -/
theorem blockLoop_written {block : Nat → Block} {src : Bytes} {v v' : LoopVars}
    (h : blockLoop block src v = .ok v') (hlt : v.bufferIndex < 256)
    (hmod : v.bufferIndex % 16 = 0) (hw : ∀ i ∈ v.dest.written, i < 256) :
    (v'.bufferIndex < 256 ∧ v'.bufferIndex % 16 = 0) ∧ v'.srclen < 16 ∧
      ∀ i ∈ v'.dest.written, i < 256 := by
  rw [blockLoop] at h
  split at h
  next h16 =>
    obtain ⟨d, hrun, h⟩ := bind_eq_ok.mp h
    refine blockLoop_written h ?_ ?_ ?_
    · exact Nat.mod_lt _ (by decide)
    · show (v.bufferIndex + 16) % 256 % 16 = 0
      omega
    · intro i hi
      rw [xorLoop_written hrun, List.mem_append, List.mem_map] at hi
      rcases hi with hi | ⟨r, hr, rfl⟩
      · exact hw i hi
      · rw [List.mem_range] at hr
        omega
  next h16 =>
    cases h
    exact ⟨⟨hlt, hmod⟩, Nat.lt_of_not_le h16, hw⟩
termination_by v.srclen

/-! ## The whole payload -/

theorem load_copiedTen {deviceId : Bytes} (h10 : 10 ≤ deviceId.length % 65536) :
    loadN deviceId ((deviceId.length % 65536 - 10 : Nat) : Int) 10 = .ok (copiedTen deviceId) := by
  have := Nat.mod_le deviceId.length 65536
  rw [loadN_of_le (by omega), copiedTen]

/-- The payload is encrypted inside both buffers, at any length. -/
theorem payloadEncrypt_inside (C : Cipher) (key : Bytes) (dir : UInt8) (seqId : Nat)
    (deviceId : Bytes) {src : Bytes} {dest : Buf} {n : Nat} (hsrc : n ≤ src.length)
    (hdest : n ≤ dest.bytes.length) :
    ∃ d, payloadEncrypt C src n key dir seqId deviceId dest = .ok d := by
  simp only [payloadEncrypt]
  split
  next => exact ⟨dest, rfl⟩
  next hlong =>
    rw [load_copiedTen (Nat.le_of_not_lt hlong), ok_bind]
    obtain ⟨v, hrun, h16, hsrc', hdest'⟩ := blockLoop_inside
      (fun ctr => C.aes key (aBlock dir seqId (copiedTen deviceId) ctr)) ⟨n, 0, 1, dest⟩
      (show 0 + n ≤ src.length by omega) (show 0 + n ≤ dest.bytes.length by omega)
    rw [hrun, ok_bind]
    split
    next => exact xorLoop_inside _ _ _ (Nat.le_of_lt h16) hsrc' hdest'
    next => exact ⟨v.dest, rfl⟩

/-- Up to 256 bytes, the payload is written in order and once. -/
theorem payloadEncrypt_filled (C : Cipher) (key : Bytes) (dir : UInt8) (seqId : Nat)
    {deviceId src dest : Bytes} {n : Nat} (h10 : 10 ≤ deviceId.length % 65536) (hn : n ≤ 256)
    (hsrc : n ≤ src.length) (hdest : n ≤ dest.length) :
    ∃ d, payloadEncrypt C src n key dir seqId deviceId (Buf.fresh dest) = .ok d ∧
      Buf.Filled dest
        (fun i => src.getD i 0 ^^^ keystream C key dir seqId (copiedTen deviceId) i) n d := by
  have hload := load_copiedTen h10
  let block := fun ctr => C.aes key (aBlock dir seqId (copiedTen deviceId) ctr)
  have hstart : AtBlock block dest src n 0 ⟨n, 0, 1, Buf.fresh dest⟩ :=
    ⟨Nat.zero_add n, rfl, rfl, Buf.filled_fresh _ _⟩
  obtain ⟨j, v, hrun, hlt, left, index, counter, filled⟩ :=
    blockLoop_filled block hn hsrc hdest hstart
  simp only [payloadEncrypt, if_neg (Nat.not_lt.mpr h10), hload, ok_bind]
  rw [show blockLoop (fun ctr => C.aes key (aBlock dir seqId (copiedTen deviceId) ctr)) src
    ⟨n, 0, 1, Buf.fresh dest⟩ = .ok v from hrun, ok_bind]
  split
  next hpos =>
    have hidx : 16 * j % 256 = 16 * j := Nat.mod_eq_of_lt (by omega)
    rw [index, counter, hidx]
    obtain ⟨d, hrun, hfilled⟩ := xorLoop_filled filled v.srclen (by omega) (by omega) (by omega)
      (fun i hi => block_cipherByte block j (Nat.lt_trans hi hlt))
    rw [left] at hfilled
    exact ⟨d, hrun, hfilled⟩
  next hzero =>
    rw [show n = 16 * j by omega]
    exact ⟨v.dest, rfl, filled⟩

/-- The byte 256 of `dest` is never written. -/
theorem payloadEncrypt_written {C : Cipher} {key : Bytes} {dir : UInt8} {seqId n : Nat}
    {deviceId src dest : Bytes} {d : Buf}
    (h : payloadEncrypt C src n key dir seqId deviceId (Buf.fresh dest) = .ok d) :
    ∀ i ∈ d.written, i < 256 := by
  simp only [payloadEncrypt] at h
  split at h
  next => cases h; exact fun i hi => absurd hi List.not_mem_nil
  next =>
    obtain ⟨id, _, h⟩ := bind_eq_ok.mp h
    obtain ⟨v, hrun, h⟩ := bind_eq_ok.mp h
    obtain ⟨⟨hlt, hmod⟩, hleft, hw⟩ := blockLoop_written hrun (Nat.zero_lt_succ 255) rfl
      (fun i hi => absurd hi List.not_mem_nil)
    split at h
    next =>
      intro i hi
      rw [xorLoop_written h, List.mem_append, List.mem_map] at hi
      rcases hi with hi | ⟨r, hr, rfl⟩
      · exact hw i hi
      · rw [List.mem_range] at hr
        omega
    next => cases h; exact hw

/-! ## Which lengths are right -/

theorem payloadEncrypt_zero (C : Cipher) (key : Bytes) (dir : UInt8) (seqId : Nat)
    (deviceId src : Bytes) (dest : Buf) :
    payloadEncrypt C src 0 key dir seqId deviceId dest = .ok dest := by
  simp only [payloadEncrypt]
  split
  next => rfl
  next hlong =>
    rw [load_copiedTen (Nat.le_of_not_lt hlong), ok_bind, blockLoop,
      if_neg (by decide : ¬ 16 ≤ 0), ok_bind,
      if_neg (Nat.lt_irrefl 0)]

/-- Where the copy differs from the last ten characters, the first counter block
does too. -/
theorem aBlock_injective {dir : UInt8} {seqId ctr : Nat} {id id' : Bytes}
    (hlen : id.length = 10) (hlen' : id'.length = 10)
    (h : aBlock dir seqId id ctr = aBlock dir seqId id' ctr) : id = id' := by
  have hget : ∀ k < 10, id.getD k 0 = id'.getD k 0 := by
    simp only [aBlock, Vector.mk.injEq, List.cons.injEq, Array.mk.injEq] at h
    intro k hk
    match k, hk with
    | 0, _ | 1, _ | 2, _ | 3, _ | 4, _ | 5, _ | 6, _ | 7, _ | 8, _ | 9, _ => simp only [h]
  apply List.ext_getElem (hlen.trans hlen'.symm)
  intro k hk hk'
  have hbyte := hget k (hlen ▸ hk)
  rwa [List.getD_eq_getElem?_getD, List.getD_eq_getElem?_getD, List.getElem?_eq_getElem hk,
    List.getElem?_eq_getElem hk', Option.getD_some, Option.getD_some] at hbyte

/-- The lengths and ids that counter mode is right for. -/
def Supported (deviceId : Bytes) (n : Nat) : Prop :=
  n = 0 ∨ (n ≤ 256 ∧ CopiesLastTen deviceId)

section Supported

variable {deviceId : Bytes} {n : Nat} (hsup : Supported deviceId n)
include hsup

theorem supported_filled (C : Cipher) (key : Bytes) (dir : UInt8) (seqId : Nat)
    {src dest : Bytes} (hsrc : n ≤ src.length) (hdest : n ≤ dest.length) :
    ∃ d, payloadEncrypt C src n key dir seqId deviceId (Buf.fresh dest) = .ok d ∧
      Buf.Filled dest
        (fun i => src.getD i 0 ^^^ keystream C key dir seqId (lastTen deviceId) i) n d := by
  rcases hsup with rfl | ⟨hn, hid⟩
  · exact ⟨_, payloadEncrypt_zero C key dir seqId deviceId src _, Buf.filled_fresh _ _⟩
  · have hfilled := payloadEncrypt_filled C key dir seqId hid.1 hn hsrc hdest
    rwa [hid.2] at hfilled

/-- What `payloadEncrypt` leaves in `dest` is the counter mode of the payload. -/
theorem supported_xorStream (C : Cipher) (key : Bytes) (dir : UInt8) (seqId : Nat)
    {src dest : Bytes} (hsrc : n ≤ src.length) (hdest : n ≤ dest.length) :
    ∃ d, payloadEncrypt C src n key dir seqId deviceId (Buf.fresh dest) = .ok d ∧
      d.bytes.length = dest.length ∧
      d.bytes.take n = xorStream (keystream C key dir seqId (lastTen deviceId)) (src.take n) := by
  obtain ⟨d, hrun, filled⟩ := supported_filled hsup C key dir seqId hsrc hdest
  refine ⟨d, hrun, filled.length, ?_⟩
  have hlen : (src.take n).length = n := by rw [List.length_take, Nat.min_eq_left hsrc]
  rw [filled.take, xorStream_eq_map_range, hlen, List.take_of_length_le]
  · refine List.map_congr_left fun i hi => ?_
    rw [List.getD_eq_getElem?_getD, List.getD_eq_getElem?_getD,
      List.getElem?_take_of_lt (List.mem_range.mp hi)]
  · rw [List.length_map, List.length_range, filled.length]
    exact hdest

theorem supported_inverts (C : Cipher) (key : Bytes) (dir : UInt8) (seqId : Nat)
    {src dest out : Bytes} (hsrc : src.length = n) (hdest : n ≤ dest.length)
    (hout : n ≤ out.length) :
    ∃ d e, payloadEncrypt C src n key dir seqId deviceId (Buf.fresh dest) = .ok d ∧
      payloadDecrypt C d.bytes n key dir seqId deviceId (Buf.fresh out) = .ok e ∧
      e.bytes.take n = src := by
  obtain ⟨d, hrun, hlen, htake⟩ :=
    supported_xorStream hsup C key dir seqId (Nat.le_of_eq hsrc.symm) hdest
  obtain ⟨e, hrun', _, htake'⟩ :=
    supported_xorStream hsup C key dir seqId (hlen ▸ hdest) hout
  refine ⟨d, e, hrun, hrun', ?_⟩
  rw [htake', htake, xorStream_xorStream, List.take_of_length_le (Nat.le_of_eq hsrc)]

/-- The frame: the packet id, the ciphertext and the CMAC of both. -/
theorem supported_frame (C : Cipher) (conn : ConnInfo) {src dest : Bytes}
    (hsrc : src.length = n) (hdest : n + 6 ≤ dest.length) (hword : dest.length < 65536) :
    let seqId := (conn.upPacketid + 1) % 65536
    let text := xorStream (keystream C conn.appskey 0 seqId (lastTen deviceId)) src
    let mic := (C.cmac conn.nwkskey (be16 seqId ++ text)).toList.take 4
    ∃ frame, iotxCommPayloadEncrypt C .tcpGuiderFormencrypt deviceId conn dest dest.length src n =
        .ok ((n + 6 : Nat), { conn with upPacketid := seqId }, frame) ∧
      frame.take (n + 6) = be16 seqId ++ text ++ mic := by
  intro seqId text mic
  have hstore : storeN dest ((0 : Nat) : Int) (be16 seqId) =
      .ok (be16 seqId ++ dest.drop 2) := by
    rw [storeN_of_le (by rw [be16_length]; omega), be16_length]
    rfl
  obtain ⟨d, hrun, hlen, htake⟩ := supported_xorStream hsup C conn.appskey 0 seqId
    (Nat.le_of_eq hsrc.symm) (show n ≤ (dest.drop 2).length by rw [List.length_drop]; omega)
  rw [List.take_of_length_le (Nat.le_of_eq hsrc)] at htake
  rw [List.length_drop] at hlen
  have hprefix : (be16 seqId ++ d.bytes).take (2 + n) = be16 seqId ++ text := by
    rw [← be16_length seqId, List.take_length_add_append, htake]
  have hmic : calMic C (be16 seqId ++ d.bytes) ((2 + n) % 65536) conn.nwkskey = .ok mic := by
    have hload := loadN_of_le (m := be16 seqId ++ d.bytes) (i := 0) (n := 2 + n)
      (by rw [List.length_append, be16_length]; omega)
    rw [List.drop_zero, hprefix] at hload
    rw [calMic, Nat.mod_eq_of_lt (by omega)]
    show loadN _ ((0 : Nat) : Int) _ >>= _ = _
    rw [hload, ok_bind]
  have hmiclen : mic.length = 4 := by
    show (List.take 4 _).length = 4
    rw [List.length_take, Vector.length_toList]
    rfl
  have hfit : 2 + n + mic.length ≤ (be16 seqId ++ d.bytes).length := by
    rw [hmiclen, List.length_append, be16_length]
    omega
  refine ⟨be16 seqId ++ text ++ (mic ++ (be16 seqId ++ d.bytes).drop (2 + n + mic.length)),
    ?_, ?_⟩
  · rw [iotxCommPayloadEncrypt, if_neg (by decide), if_neg (by omega)]
    show storeN dest ((0 : Nat) : Int) (be16 seqId) >>= _ = _
    rw [hstore, ok_bind]
    have htext : uplinkText C .tcpGuiderFormencrypt deviceId { conn with upPacketid := seqId }
        (be16 seqId ++ dest.drop 2) src n = .ok (be16 seqId ++ d.bytes) := by
      rw [uplinkText, if_pos rfl]
      show payloadEncrypt C src n conn.appskey 0 seqId deviceId (Buf.fresh (dest.drop 2)) >>= _ = _
      rw [hrun, ok_bind]
      rfl
    rw [htext, ok_bind, hmic, ok_bind, storeN_of_le hfit, ok_bind, hprefix]
    congr 2
    omega
  · have hlen' : (be16 seqId ++ text ++ mic).length = n + 6 := by
      rw [List.length_append, List.length_append, be16_length, xorStream_length, hmiclen, hsrc]
      omega
    rw [← List.append_assoc, ← hlen', List.take_left]

/-- The peer opens the frame. -/
theorem supported_recovers (C : Cipher) (conn : ConnInfo) {src dest : Bytes}
    (hsrc : src.length = n) (hdest : n + 6 ≤ dest.length) (hword : dest.length < 65536) :
    ∃ conn' frame, iotxCommPayloadEncrypt C .tcpGuiderFormencrypt deviceId conn dest
        dest.length src n = .ok ((n + 6 : Nat), conn', frame) ∧
      peerOpen C conn.appskey conn.nwkskey deviceId (frame.take (n + 6)) = some src := by
  obtain ⟨frame, hrun, hframe⟩ := supported_frame hsup C conn hsrc hdest hword
  refine ⟨_, frame, hrun, ?_⟩
  rw [hframe]
  generalize hseq : (conn.upPacketid + 1) % 65536 = seqId
  have hlt : seqId < 65536 := hseq ▸ Nat.mod_lt _ (by decide)
  generalize htext : xorStream (keystream C conn.appskey 0 seqId (lastTen deviceId)) src = text
  generalize hmic : (C.cmac conn.nwkskey (be16 seqId ++ text)).toList.take 4 = mic
  have hmiclen : mic.length = 4 := by
    rw [← hmic, List.length_take, Vector.length_toList]
    rfl
  have hcut : (text ++ mic).length - 4 = text.length := by
    rw [List.length_append, hmiclen, Nat.add_sub_cancel]
  show peerOpen C conn.appskey conn.nwkskey deviceId
    (UInt8.ofNat (seqId / 256) :: UInt8.ofNat seqId :: (text ++ mic)) = some src
  rw [peerOpen]
  simp only [hcut, List.take_left, List.drop_left, ofBe16_be16 hlt]
  rw [be16, List.cons_append, List.cons_append, List.nil_append] at hmic
  rw [if_pos hmic.symm, ← htext, xorStream_xorStream]

end Supported

/-- A payload of more than 256 bytes leaves the byte 256 of `dest` as it was. -/
theorem not_encryptCorrect_of_long {deviceId : Bytes} {n : Nat} (hlong : 256 < n) :
    ¬ EncryptCorrect deviceId n := by
  intro h
  let C : Cipher := ⟨fun _ b => b, fun _ _ => Vector.replicate 16 0⟩
  obtain ⟨d, hrun, _, once⟩ := h.pointwise C [] 0 0 (List.replicate n 0) (List.replicate n 0)
    List.length_replicate (Nat.le_of_eq List.length_replicate.symm)
  have hmem : 256 ∈ d.written :=
    List.count_pos_iff.mp (by rw [once 256 hlong]; exact Nat.one_pos)
  exact Nat.lt_irrefl 256 (payloadEncrypt_written hrun 256 hmem)

/-- The block cipher that tells one block from all others. -/
def markBlock (a : Block) : Cipher :=
  ⟨fun _ b => Vector.replicate 16 (if b = a then 1 else 0), fun _ _ => Vector.replicate 16 0⟩

theorem keystream_markBlock (a : Block) (key : Bytes) (dir : UInt8) (seqId : Nat) (id : Bytes) :
    keystream (markBlock a) key dir seqId id 0 = if aBlock dir seqId id 1 = a then 1 else 0 := by
  show (Vector.replicate 16 (if aBlock dir seqId id 1 = a then (1 : UInt8) else 0))[0] = _
  rw [Vector.getElem_replicate]

/-- An id whose copied characters are not the last ten is wrong at the first
byte. -/
theorem not_encryptCorrect_of_copy {deviceId : Bytes} {n : Nat} (hpos : 0 < n)
    (hn : n ≤ 256) (hid : ¬ CopiesLastTen deviceId) :
    ¬ EncryptCorrect deviceId n := by
  intro h
  have hsrc : (List.replicate n (0 : UInt8)).length = n := List.length_replicate
  let C := markBlock (aBlock 0 0 (lastTen deviceId) 1)
  obtain ⟨d, hrun, value, once⟩ := h.pointwise C [] 0 0 (List.replicate n 0)
    (List.replicate n 0) hsrc (Nat.le_of_eq hsrc.symm)
  by_cases hlen : 10 ≤ deviceId.length % 65536
  · obtain ⟨d', hrun', hfilled⟩ := payloadEncrypt_filled C [] 0 0 hlen hn
      (Nat.le_of_eq hsrc.symm) (Nat.le_of_eq hsrc.symm)
    obtain rfl : d' = d := Except.ok.inj (hrun'.symm.trans hrun)
    have hne : aBlock 0 0 (copiedTen deviceId) 1 ≠ aBlock 0 0 (lastTen deviceId) 1 := by
      intro heq
      refine hid ⟨hlen, aBlock_injective ?_ ?_ heq⟩
      · exact loadN_length (load_copiedTen hlen)
      · have := Nat.mod_le deviceId.length 65536
        rw [lastTen, List.length_drop]
        omega
    have hbyte := Option.some.inj ((hfilled.done 0 hpos).symm.trans (value 0 hpos))
    rw [keystream_markBlock, keystream_markBlock, if_neg hne, if_pos rfl] at hbyte
    have hzero : (List.replicate n (0 : UInt8)).getD 0 0 = 0 := by
      rw [List.getD_eq_getElem?_getD, List.getElem?_replicate, if_pos hpos]
      rfl
    rw [hzero] at hbyte
    exact absurd hbyte (by decide)
  · -- the early return of a short id writes nothing
    have hshort : payloadEncrypt C (List.replicate n 0) n [] 0 0 deviceId
        (Buf.fresh (List.replicate n 0)) = .ok (Buf.fresh (List.replicate n 0)) :=
      if_pos (Nat.lt_of_not_le hlen)
    obtain rfl := Except.ok.inj (hshort.symm.trans hrun)
    exact Nat.zero_ne_one (once 0 hpos)

/-- Counter mode is right for a length exactly when it is supported. -/
theorem encryptCorrect_iff_supported (deviceId : Bytes) (n : Nat) :
    EncryptCorrect deviceId n ↔ Supported deviceId n := by
  constructor
  · intro h
    rcases Nat.eq_zero_or_pos n with rfl | hpos
    · exact Or.inl rfl
    · by_cases hn : n ≤ 256
      · exact Or.inr ⟨hn, Decidable.byContradiction fun hid =>
          not_encryptCorrect_of_copy hpos hn hid h⟩
      · exact absurd h (not_encryptCorrect_of_long (Nat.lt_of_not_le hn))
  · intro hsup
    refine ⟨?_, ?_, ?_⟩
    · intro C key dir seqId src dest hsrc hdest
      obtain ⟨d, hrun, filled⟩ :=
        supported_filled hsup C key dir seqId (Nat.le_of_eq hsrc.symm) hdest
      refine ⟨d, hrun, filled.done, fun i hi => ?_⟩
      rw [filled.once, List.count_range, if_pos hi]
    · exact fun C key dir seqId src dest out => supported_inverts hsup C key dir seqId
    · exact fun C conn src dest => supported_recovers hsup C conn

/-- The domain of `EncryptCorrect` contains lengths past 256. -/
theorem not_encryptCorrect_257 :
    ¬ ∀ (deviceId : Bytes) (n : Nat), 10 ≤ deviceId.length → n ≤ 65529 →
      EncryptCorrect deviceId n :=
  fun h => not_encryptCorrect_of_long (Nat.lt_succ_self 256)
    (h (List.replicate 16 65) 257 (by decide) (by decide))

end IotKit.Security
