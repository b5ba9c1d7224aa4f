import IotKit.Config
import IotKit.Lib.Memory

/-!
# Base64

`utils_base64.c`: three bytes are four characters, and the end of the text is filled with `=`.
The decoder looks at the last two characters of the text to find out how many bytes it denotes,
and does so for an empty text too.

`encoding` is the text of some bytes.  The encoder writes it, and the decoder reads the bytes
back, except for the empty text, in front of which it reads (`base64_round_trip_iff`).
-/

namespace IotKit.Utils.Base64

open CMemory

/-! ## The tables -/

/-- `g_encodingTable`. -/
def gEncodingTable : Bytes :=
  ['A', 'B', 'C', 'D', 'E', 'F', 'G', 'H',
    'I', 'J', 'K', 'L', 'M', 'N', 'O', 'P',
    'Q', 'R', 'S', 'T', 'U', 'V', 'W', 'X',
    'Y', 'Z', 'a', 'b', 'c', 'd', 'e', 'f',
    'g', 'h', 'i', 'j', 'k', 'l', 'm', 'n',
    'o', 'p', 'q', 'r', 's', 't', 'u', 'v',
    'w', 'x', 'y', 'z', '0', '1', '2', '3',
    '4', '5', '6', '7', '8', '9', '+', '/'].map fun c => UInt8.ofNat c.toNat

/-- `g_decodingTable` after `build_decoding_table`. -/
def gDecodingTable : Bytes :=
  (List.range 64).foldl (fun table i => table.set (gEncodingTable.getD i 0).toNat (UInt8.ofNat i))
    (List.replicate 256 0)

/-- `g_modTable`. -/
def gModTable : List Nat := [0, 2, 1]

/-- The character `=`. -/
def pad : UInt8 := 61

/-- What a call returns, and what it leaves in the objects of its caller. -/
structure Coded where
  ret : Int
  outputLength : UInt32
  bytes : Bytes
deriving DecidableEq, Repr

/-! ## The encoder -/

/-- `i < inputLength ? (uint8_t) data[i++] : 0`. -/
def octet (data : Bytes) (inputLength i : UInt32) : Checked (UInt32 × UInt32) :=
  if i < inputLength then do
    let b ← load data i.toNat
    .ok (b.toUInt32, i + 1)
  else .ok (0, i)

/-- `g_encodingTable[bits & 0x3F]`. -/
def character (bits : UInt32) : Checked UInt8 :=
  match gEncodingTable[(bits &&& 0x3F).toNat]? with
  | some c => .ok c
  | none => .error .index

/-- The loop of `utils_base64encode`. -/
def encodeLoop (data : Bytes) (inputLength : UInt32) :
    (passes : Nat) → (i j : UInt32) → (encodedData : Bytes) → Checked Bytes
  | 0, _, _, _ => .error .diverge
  | passes + 1, i, j, encodedData =>
      if i < inputLength then do
        let (octetA, i) ← octet data inputLength i
        let (octetB, i) ← octet data inputLength i
        let (octetC, i) ← octet data inputLength i
        let triple := (octetA <<< 0x10) + (octetB <<< 0x08) + octetC
        let encodedData ← storeN encodedData j.toNat [← character (triple >>> 18)]
        let encodedData ← storeN encodedData (j + 1).toNat [← character (triple >>> 12)]
        let encodedData ← storeN encodedData (j + 2).toNat [← character (triple >>> 6)]
        let encodedData ← storeN encodedData (j + 3).toNat [← character triple]
        encodeLoop data inputLength passes i (j + 4) encodedData
      else .ok encodedData

/-- The loop that fills the end of the text, of `count` passes. -/
def padLoop (outputLength : UInt32) :
    (count : Nat) → (i : UInt32) → (encodedData : Bytes) → Checked Bytes
  | 0, _, encodedData => .ok encodedData
  | count + 1, i, encodedData => do
      let encodedData ← storeN encodedData (outputLength - 1 - i).toNat [pad]
      padLoop outputLength count (i + 1) encodedData

/-- `utils_base64encode`. -/
def utilsBase64encode (data : Bytes) (inputLength outputLenMax : UInt32)
    (encodedData : Option Bytes) (outputLength : UInt32) : Checked Coded :=
  match encodedData with
  | none => .ok ⟨failReturn, outputLength, []⟩
  | some encodedData =>
      let outputLength := 4 * ((inputLength + 2) / 3)
      if outputLenMax < outputLength then .ok ⟨failReturn, outputLength, encodedData⟩
      else do
        let encodedData ← encodeLoop data inputLength (inputLength.toNat + 1) 0 0 encodedData
        let encodedData ←
          padLoop outputLength (gModTable.getD (inputLength % 3).toNat 0) 0 encodedData
        .ok ⟨successReturn, outputLength, encodedData⟩

/-! ## The decoder -/

/-- `data[i] == '=' ? 0 & i++ : g_decodingTable[data[i++]]`. -/
def sextet (data : Bytes) (i : UInt32) : Checked (UInt32 × UInt32) := do
  let c ← load data i.toNat
  if c = pad then .ok (0 &&& i, i + 1)
  else
    match gDecodingTable[c.toNat]? with
    | some v => .ok (v.toUInt32, i + 1)
    | none => .error .index

/-- `if (j < *outputLength) decodedData[j++] = bits & 0xFF`. -/
def put (outputLength : UInt32) (bits j : UInt32) (decodedData : Bytes) :
    Checked (UInt32 × Bytes) :=
  if j < outputLength then do
    let decodedData ← storeN decodedData j.toNat [(bits &&& 0xFF).toUInt8]
    .ok (j + 1, decodedData)
  else .ok (j, decodedData)

/-- The loop of `utils_base64decode`. -/
def decodeLoop (data : Bytes) (inputLength outputLength : UInt32) :
    (passes : Nat) → (i j : UInt32) → (decodedData : Bytes) → Checked Bytes
  | 0, _, _, _ => .error .diverge
  | passes + 1, i, j, decodedData =>
      if i < inputLength then do
        let (sextetA, i) ← sextet data i
        let (sextetB, i) ← sextet data i
        let (sextetC, i) ← sextet data i
        let (sextetD, i) ← sextet data i
        let triple := (sextetA <<< 18) + (sextetB <<< 12) + (sextetC <<< 6) + sextetD
        let (j, decodedData) ← put outputLength (triple >>> 16) j decodedData
        let (j, decodedData) ← put outputLength (triple >>> 8) j decodedData
        let (j, decodedData) ← put outputLength triple j decodedData
        decodeLoop data inputLength outputLength passes i j decodedData
      else .ok decodedData

/-- `utils_base64decode`. -/
def utilsBase64decode (data : Bytes) (inputLength outputLenMax : UInt32) (decodedData : Bytes)
    (outputLength : UInt32) : Checked Coded :=
  if inputLength % 4 ≠ 0 then .ok ⟨failReturn, outputLength, decodedData⟩
  else do
    let outputLength := inputLength / 4 * 3
    let last ← load data (inputLength - 1).toNat
    let outputLength := if last = pad then outputLength - 1 else outputLength
    let last ← load data (inputLength - 2).toNat
    let outputLength := if last = pad then outputLength - 1 else outputLength
    if outputLenMax < outputLength then .ok ⟨failReturn, outputLength, decodedData⟩
    else do
      let decodedData ←
        decodeLoop data inputLength outputLength (inputLength.toNat + 1) 0 0 decodedData
      .ok ⟨successReturn, outputLength, decodedData⟩

/-! ## The text of some bytes -/

/-- The character of six bits. -/
def letter (v : Nat) : UInt8 := gEncodingTable.getD v 0

/-- The number that three bytes denote. -/
def number (a b c : UInt8) : Nat := a.toNat * 65536 + b.toNat * 256 + c.toNat

/-- The four characters of a number. -/
def quad (t : Nat) : Bytes :=
  [letter (t / 262144 % 64), letter (t / 4096 % 64), letter (t / 64 % 64), letter (t % 64)]

/-- The characters that the first loop of the encoder writes. -/
def unfilled : Bytes → Bytes
  | [] => []
  | [a] => quad (number a 0 0)
  | [a, b] => quad (number a b 0)
  | a :: b :: c :: rest => quad (number a b c) ++ unfilled rest

/-- The text of some bytes. -/
def encoding : Bytes → Bytes
  | [] => []
  | [a] => (quad (number a 0 0)).take 2 ++ [pad, pad]
  | [a, b] => (quad (number a b 0)).take 3 ++ [pad]
  | a :: b :: c :: rest => quad (number a b c) ++ encoding rest

theorem letter_spec {v : Nat} (h : v < 64) : gEncodingTable[v]? = some (letter v) ∧
    letter v ≠ pad ∧ gDecodingTable[(letter v).toNat]? = some (UInt8.ofNat v) := by
  have hall : ∀ w : Fin 64, gEncodingTable[w.val]? = some (letter w.val) ∧
      letter w.val ≠ pad ∧
      gDecodingTable[(letter w.val).toNat]? = some (UInt8.ofNat w.val) := by decide +kernel
  exact hall ⟨v, h⟩

@[simp] theorem quad_length (t : Nat) : (quad t).length = 4 := rfl

theorem number_lt (a b c : UInt8) : number a b c < 16777216 := by
  have ha := a.toNat_lt
  have hb := b.toNat_lt
  have hc := c.toNat_lt
  rw [number]
  omega

theorem encoding_length : ∀ x : Bytes, (encoding x).length = 4 * ((x.length + 2) / 3)
  | [] => rfl
  | [_] => by simp [encoding]
  | [_, _] => by simp [encoding]
  | a :: b :: c :: rest => by
      rw [encoding, List.length_append, quad_length, encoding_length rest]
      simp only [List.length_cons]
      omega

/-- The filling of the text. -/
def filling (n : Nat) : Nat := gModTable.getD (n % 3) 0

theorem filling_le_two (n : Nat) : filling n ≤ 2 := by
  have hall : ∀ r : Fin 3, gModTable.getD r.val 0 ≤ 2 := by decide
  exact hall ⟨n % 3, Nat.mod_lt n (by decide)⟩

theorem filling_add_three (n : Nat) : filling (n + 3) = filling n := by
  rw [filling, Nat.add_mod_right, filling]

/-- The text is what the first loop writes but for its end. -/
theorem encoding_eq_unfilled : ∀ x : Bytes, ∃ front tail, unfilled x = front ++ tail ∧
    tail.length = filling x.length ∧ encoding x = front ++ List.replicate tail.length pad
  | [] => ⟨[], [], rfl, rfl, rfl⟩
  | [a] => ⟨(quad (number a 0 0)).take 2, (quad (number a 0 0)).drop 2, rfl, rfl, rfl⟩
  | [a, b] => ⟨(quad (number a b 0)).take 3, (quad (number a b 0)).drop 3, rfl, rfl, rfl⟩
  | a :: b :: c :: rest => by
      obtain ⟨front, tail, hunfilled, htail, hencoding⟩ := encoding_eq_unfilled rest
      refine ⟨quad (number a b c) ++ front, tail, ?_, ?_, ?_⟩
      · rw [unfilled, hunfilled, List.append_assoc]
      · rw [htail]
        exact (filling_add_three rest.length).symm
      · rw [encoding, hencoding, List.append_assoc]

/-! ## Counters -/

section Counters

variable {m n : Nat}

theorem toNat_ofNat (h : n < 2 ^ 32) : (UInt32.ofNat n).toNat = n := by
  rw [UInt32.toNat_ofNat']
  exact Nat.mod_eq_of_lt h

theorem ofNat_lt (hm : m < 2 ^ 32) (hn : n < 2 ^ 32) : UInt32.ofNat m < UInt32.ofNat n ↔ m < n := by
  rw [UInt32.lt_iff_toNat_lt, toNat_ofNat hm, toNat_ofNat hn]

theorem ofNat_add_toNat (k : UInt32) (h : n + k.toNat < 2 ^ 32) :
    (UInt32.ofNat n + k).toNat = n + k.toNat := by
  rw [UInt32.toNat_add, toNat_ofNat (by omega)]
  exact Nat.mod_eq_of_lt h

end Counters

/-! ## The encoder writes the text -/

/-- The number of three octets. -/
theorem triple_toNat (a b c : UInt8) :
    ((a.toUInt32 <<< 0x10) + (b.toUInt32 <<< 0x08) + c.toUInt32).toNat = number a b c := by
  have ha := a.toNat_lt
  have hb := b.toNat_lt
  have hc := c.toNat_lt
  simp only [UInt32.toNat_add, UInt32.toNat_shiftLeft, UInt8.toNat_toUInt32, Nat.shiftLeft_eq,
    UInt32.reduceToNat, Nat.reduceMod, Nat.reducePow, number]
  omega

/-- The character of the last six bits. -/
theorem character_eq (bits : UInt32) : character bits = .ok (letter (bits.toNat % 64)) := by
  have hmask : (bits &&& 0x3F).toNat = bits.toNat % 64 := by
    rw [UInt32.toNat_and]
    exact Nat.and_two_pow_sub_one_eq_mod _ 6
  rw [character, hmask, (letter_spec (Nat.mod_lt _ (by omega))).1]

theorem shift_toNat (bits : UInt32) {k : UInt32} (hk : k.toNat < 32) :
    (bits >>> k).toNat = bits.toNat / 2 ^ k.toNat := by
  rw [UInt32.toNat_shiftRight, Nat.mod_eq_of_lt hk, Nat.shiftRight_eq_div_pow]

/-- The characters of a number. -/
theorem character_quad {bits : UInt32} {t : Nat} (ht : bits.toNat = t) :
    character (bits >>> 18) = .ok (letter (t / 262144 % 64)) ∧
      character (bits >>> 12) = .ok (letter (t / 4096 % 64)) ∧
      character (bits >>> 6) = .ok (letter (t / 64 % 64)) ∧
      character bits = .ok (letter (t % 64)) := by
  subst ht
  refine ⟨?_, ?_, ?_, character_eq bits⟩
  · rw [character_eq, shift_toNat bits (by decide)]
    rfl
  · rw [character_eq, shift_toNat bits (by decide)]
    rfl
  · rw [character_eq, shift_toNat bits (by decide)]
    rfl

section Encode

variable {data : Bytes} {k : Nat}

theorem octet_some {b : UInt8} (hlen : data.length < 2 ^ 32) (hb : data[k]? = some b) :
    octet data (UInt32.ofNat data.length) (UInt32.ofNat k) =
      .ok (b.toUInt32, UInt32.ofNat (k + 1)) := by
  have hk := (List.getElem?_eq_some_iff.mp hb).1
  rw [octet, if_pos ((ofNat_lt (by omega) hlen).mpr hk), toNat_ofNat (by omega),
    load_eq_ok.mpr hb, ok_bind, UInt32.ofNat_add]
  rfl

/-- Behind the data there are zeros. -/
theorem octet_none : octet data (UInt32.ofNat data.length) (UInt32.ofNat data.length) =
    .ok ((0 : UInt8).toUInt32, UInt32.ofNat data.length) := by
  rw [octet, if_neg (UInt32.lt_irrefl _)]
  rfl

/-- One pass writes the four characters of three octets. -/
theorem encodeLoop_pass {inputLength i i₁ i₂ i₃ : UInt32} {a b c : UInt8} (hi : i < inputLength)
    (ha : octet data inputLength i = .ok (a.toUInt32, i₁))
    (hb : octet data inputLength i₁ = .ok (b.toUInt32, i₂))
    (hc : octet data inputLength i₂ = .ok (c.toUInt32, i₃)) (passes : Nat) {out : Bytes}
    (hout : out.length + 4 < 2 ^ 32) (w x y z : UInt8) (old : Bytes) :
    encodeLoop data inputLength (passes + 1) i (UInt32.ofNat out.length)
        (out ++ w :: x :: y :: z :: old) =
      encodeLoop data inputLength passes i₃ (UInt32.ofNat (out.length + 4))
        (out ++ quad (number a b c) ++ old) := by
  obtain ⟨hw, hx, hy, hz⟩ := character_quad (triple_toNat a b c)
  have hj : out.length = (UInt32.ofNat out.length).toNat := (toNat_ofNat (by omega)).symm
  have hj₁ := ofNat_add_toNat (n := out.length) 1 (by simp; omega)
  have hj₂ := ofNat_add_toNat (n := out.length) 2 (by simp; omega)
  have hj₃ := ofNat_add_toNat (n := out.length) 3 (by simp; omega)
  rw [encodeLoop, if_pos hi, ha, ok_bind]
  dsimp only
  rw [hb, ok_bind]
  dsimp only
  rw [hc, ok_bind]
  dsimp only
  rw [hw, ok_bind, storeN_next w _ hj, ok_bind, hx, ok_bind,
    storeN_next x _ (by rw [hj₁, List.length_append]; rfl), ok_bind, hy, ok_bind,
    storeN_next y _ (by rw [hj₂, List.length_append, List.length_append]; rfl), ok_bind, hz,
    ok_bind, storeN_next z _ (by simp only [hj₃, List.length_append]; rfl), ok_bind]
  rw [UInt32.ofNat_add, quad]
  simp only [List.append_assoc, List.cons_append, List.nil_append]
  rfl

/-- The loop writes the characters of the bytes that are left. -/
theorem encodeLoop_eq (hlen : data.length < 2 ^ 32) : ∀ (rest front out old : Bytes)
    (passes : Nat), data = front ++ rest → rest.length < passes →
    out.length + (unfilled rest).length < 2 ^ 32 → (unfilled rest).length ≤ old.length →
    encodeLoop data (UInt32.ofNat data.length) passes (UInt32.ofNat front.length)
        (UInt32.ofNat out.length) (out ++ old) =
      .ok (out ++ unfilled rest ++ old.drop (unfilled rest).length)
  | [], front, out, old, passes + 1, hsplit, _, _, _ => by
      rw [List.append_nil] at hsplit
      rw [encodeLoop, hsplit, if_neg (UInt32.lt_irrefl _), unfilled, List.append_nil]
      rfl
  | [a], front, out, w :: x :: y :: z :: old, passes + 2, hsplit, _, hout, _ => by
      have hdata : data.length = front.length + 1 := by rw [hsplit, List.length_append]; rfl
      have hfirst := octet_some (k := front.length) (b := a) hlen (by rw [hsplit]; simp)
      rw [← hdata] at hfirst
      rw [encodeLoop_pass ((ofNat_lt (by omega) hlen).mpr (by omega)) hfirst octet_none octet_none
        (passes + 1) hout, encodeLoop, if_neg (UInt32.lt_irrefl _)]
      rfl
  | [a, b], front, out, w :: x :: y :: z :: old, passes + 2, hsplit, _, hout, _ => by
      have hdata : data.length = front.length + 2 := by rw [hsplit, List.length_append]; rfl
      have hfirst := octet_some (k := front.length) (b := a) hlen (by rw [hsplit]; simp)
      have hsecond := octet_some (k := front.length + 1) (b := b) hlen (by rw [hsplit]; simp)
      rw [← hdata] at hsecond
      rw [encodeLoop_pass ((ofNat_lt (by omega) hlen).mpr (by omega)) hfirst hsecond octet_none
        (passes + 1) hout, encodeLoop, if_neg (UInt32.lt_irrefl _)]
      rfl
  | a :: b :: c :: rest, front, out, w :: x :: y :: z :: old, passes + 1, hsplit, hpasses, hout,
      hold => by
      have hdata : data.length = front.length + 3 + rest.length := by
        rw [hsplit]
        simp only [List.length_append, List.length_cons]
        omega
      have hfirst := octet_some (k := front.length) (b := a) hlen (by rw [hsplit]; simp)
      have hsecond := octet_some (k := front.length + 1) (b := b) hlen (by rw [hsplit]; simp)
      have hthird := octet_some (k := front.length + 2) (b := c) hlen (by rw [hsplit]; simp)
      rw [unfilled, List.length_append, quad_length] at hout hold
      simp only [List.length_cons] at hold hpasses
      have ih := encodeLoop_eq hlen rest (front ++ [a, b, c]) (out ++ quad (number a b c)) old
        passes (by rw [hsplit, List.append_assoc]; rfl) (by omega)
        (by rw [List.length_append, quad_length]; omega) (by omega)
      rw [List.length_append, List.length_append, quad_length] at ih
      rw [encodeLoop_pass ((ofNat_lt (by omega) hlen).mpr (by omega)) hfirst hsecond hthird passes
        (by omega), unfilled]
      have hdrop : (w :: x :: y :: z :: old).drop (quad (number a b c) ++ unfilled rest).length =
          old.drop (unfilled rest).length := by
        rw [List.length_append, quad_length, Nat.add_comm]
        rfl
      rw [hdrop, ← List.append_assoc]
      exact ih

end Encode

theorem sub_sub_toNat {n k l : UInt32} (h : k.toNat + l.toNat ≤ n.toNat) :
    (n - k - l).toNat = n.toNat - k.toNat - l.toNat := by
  have hk : (n - k).toNat = n.toNat - k.toNat :=
    UInt32.toNat_sub_of_le n k (UInt32.le_iff_toNat_le.mpr (by omega))
  rw [UInt32.toNat_sub_of_le _ _ (UInt32.le_iff_toNat_le.mpr (by omega)), hk]

/-- The end of the text is filled. -/
theorem padLoop_eq {outputLength : UInt32} (front tail old : Bytes)
    (hlen : outputLength.toNat = front.length + tail.length) (htail : tail.length ≤ 2) :
    padLoop outputLength tail.length 0 (front ++ tail ++ old) =
      .ok (front ++ List.replicate tail.length pad ++ old) := by
  match tail, htail, hlen with
  | [], _, _ => rfl
  | [q], _, hlen =>
      rw [List.length_singleton] at hlen
      have hq : front.length = (outputLength - 1 - 0).toNat := by
        rw [sub_sub_toNat (by rw [hlen]; simp)]
        simp [hlen]
      rw [List.append_assoc, List.singleton_append, List.length_singleton, padLoop,
        storeN_next q pad hq]
      rfl
  | [p, q], _, hlen =>
      simp only [List.length_cons, List.length_nil] at hlen
      have hq : (front ++ [p]).length = (outputLength - 1 - 0).toNat := by
        rw [sub_sub_toNat (by rw [hlen]; simp)]
        simp [hlen]
      have hp : front.length = (outputLength - 1 - (0 + 1)).toNat := by
        rw [sub_sub_toNat (by rw [hlen]; simp)]
        simp [hlen]
      have hfirst : storeN (front ++ [p] ++ q :: old) (outputLength - 1 - 0).toNat [pad] = _ :=
        storeN_next q pad hq
      have hsecond : storeN (front ++ p :: pad :: old) (outputLength - 1 - (0 + 1)).toNat [pad] =
          _ := storeN_next p pad hp
      show storeN (front ++ [p, q] ++ old) _ _ >>= _ = _
      have hmem : front ++ [p, q] ++ old = front ++ [p] ++ q :: old := by simp
      have hmem' : front ++ [p] ++ [pad] ++ old = front ++ p :: pad :: old := by simp
      rw [hmem, hfirst, ok_bind, hmem']
      show storeN _ _ _ >>= _ = _
      rw [hsecond, ok_bind]
      show Except.ok _ = _
      simp

theorem unfilled_length (x : Bytes) : (unfilled x).length = (encoding x).length := by
  obtain ⟨front, tail, hunfilled, -, hencoding⟩ := encoding_eq_unfilled x
  rw [hunfilled, hencoding, List.length_append, List.length_append, List.length_replicate]

/-- The encoder writes the text in front of the object. -/
theorem utilsBase64encode_eq {x encodedData : Bytes} {outputLenMax : UInt32}
    (outputLength : UInt32) (hfit : (encoding x).length < 2 ^ 32)
    (hmax : (encoding x).length ≤ outputLenMax.toNat)
    (hroom : (encoding x).length ≤ encodedData.length) :
    utilsBase64encode x (UInt32.ofNat x.length) outputLenMax (some encodedData) outputLength =
      .ok ⟨successReturn, UInt32.ofNat (encoding x).length,
        encoding x ++ encodedData.drop (encoding x).length⟩ := by
  have hlen := encoding_length x
  have hx : x.length < 2 ^ 32 := by omega
  have hout : 4 * ((UInt32.ofNat x.length + 2) / 3) = UInt32.ofNat (encoding x).length := by
    apply UInt32.toNat.inj
    rw [UInt32.toNat_mul, UInt32.toNat_div, ofNat_add_toNat 2 (by simp; omega), toNat_ofNat hfit]
    simp only [UInt32.reduceToNat]
    omega
  have hcount : gModTable.getD (UInt32.ofNat x.length % 3).toNat 0 = filling x.length := by
    rw [UInt32.toNat_mod, toNat_ofNat hx]
    rfl
  have hloop := encodeLoop_eq hx x [] [] encodedData (x.length + 1) rfl (Nat.lt_succ_self _)
    (by rw [unfilled_length, List.length_nil]; omega) (by rw [unfilled_length]; exact hroom)
  have hloop : encodeLoop x (UInt32.ofNat x.length) (x.length + 1) 0 0 encodedData =
      .ok (unfilled x ++ encodedData.drop (unfilled x).length) := hloop
  obtain ⟨front, tail, hunfilled, htail, hencoding⟩ := encoding_eq_unfilled x
  have htwo : filling x.length ≤ 2 := filling_le_two x.length
  have hend : (UInt32.ofNat (encoding x).length).toNat = front.length + tail.length := by
    rw [toNat_ofNat hfit, hencoding, List.length_append, List.length_replicate]
  have hpad := padLoop_eq front tail (encodedData.drop (encoding x).length) hend (by omega)
  unfold utilsBase64encode
  dsimp only
  rw [hout, if_neg (by rw [UInt32.lt_iff_toNat_lt, toNat_ofNat hfit]; omega), toNat_ofNat hx,
    hloop, ok_bind, hcount, unfilled_length, ← htail, hunfilled, hpad, ok_bind, hencoding]

/-! ## The decoder reads it -/

/-- The character stands for the six bits. -/
def Reads (c : UInt8) (v : Nat) : Prop := c = letter v ∧ v < 64 ∨ c = pad ∧ v = 0

theorem reads_letter {n : Nat} : Reads (letter (n % 64)) (n % 64) :=
  .inl ⟨rfl, Nat.mod_lt n (by decide)⟩

theorem sextet_eq (data : Bytes) {k v : Nat} {c : UInt8} (hk : k < 2 ^ 32)
    (hc : data[k]? = some c) (h : Reads c v) :
    sextet data (UInt32.ofNat k) = .ok (UInt32.ofNat v, UInt32.ofNat (k + 1)) := by
  rw [sextet, toNat_ofNat hk, load_eq_ok.mpr hc, ok_bind]
  rcases h with ⟨rfl, hv⟩ | ⟨rfl, rfl⟩
  · obtain ⟨-, hpad, hget⟩ := letter_spec hv
    have hwide : (UInt8.ofNat v).toUInt32 = UInt32.ofNat v := by
      apply UInt32.toNat.inj
      rw [UInt8.toNat_toUInt32, UInt8.toNat_ofNat', toNat_ofNat (by omega)]
      omega
    rw [if_neg hpad, hget, UInt32.ofNat_add]
    dsimp only
    rw [hwide]
    rfl
  · rw [if_pos rfl, UInt32.zero_and, UInt32.ofNat_add]
    rfl

/-- Four groups of six bits make the number again. -/
theorem sextets_number {t : Nat} (ht : t < 16777216) :
    (UInt32.ofNat (t / 262144 % 64) <<< 18) + (UInt32.ofNat (t / 4096 % 64) <<< 12) +
      (UInt32.ofNat (t / 64 % 64) <<< 6) + UInt32.ofNat (t % 64) = UInt32.ofNat t := by
  apply UInt32.toNat.inj
  simp only [UInt32.toNat_add, UInt32.toNat_shiftLeft, UInt32.toNat_ofNat', Nat.shiftLeft_eq,
    UInt32.reduceToNat, Nat.reduceMod, Nat.reducePow]
  omega

/-- The three bytes of a number. -/
theorem bytes_number (a b c : UInt8) :
    ((UInt32.ofNat (number a b c) >>> 16) &&& 0xFF).toUInt8 = a ∧
      ((UInt32.ofNat (number a b c) >>> 8) &&& 0xFF).toUInt8 = b ∧
      (UInt32.ofNat (number a b c) &&& 0xFF).toUInt8 = c := by
  have ha := a.toNat_lt
  have hb := b.toNat_lt
  have hc := c.toNat_lt
  have hmask (bits : UInt32) : (bits &&& 0xFF).toUInt8 = UInt8.ofNat bits.toNat := by
    have hand : bits.toNat &&& 255 = bits.toNat % 256 := Nat.and_two_pow_sub_one_eq_mod _ 8
    apply UInt8.toNat.inj
    rw [UInt32.toNat_toUInt8, UInt32.toNat_and, UInt8.toNat_ofNat']
    simp only [UInt32.reduceToNat, hand, Nat.reducePow, Nat.mod_mod]
  have hnumber : (UInt32.ofNat (number a b c)).toNat = number a b c :=
    toNat_ofNat (by have := number_lt a b c; omega)
  refine ⟨?_, ?_, ?_⟩
  · apply UInt8.toNat.inj
    rw [hmask, shift_toNat _ (by decide), hnumber, UInt8.toNat_ofNat']
    simp only [UInt32.reduceToNat, number]
    omega
  · apply UInt8.toNat.inj
    rw [hmask, shift_toNat _ (by decide), hnumber, UInt8.toNat_ofNat']
    simp only [UInt32.reduceToNat, number]
    omega
  · apply UInt8.toNat.inj
    rw [hmask, hnumber, UInt8.toNat_ofNat']
    simp only [number]
    omega

section Decode

variable {outputLength bits : UInt32} {out : Bytes}

theorem put_next {b : UInt8} (hb : (bits &&& 0xFF).toUInt8 = b)
    (hout : out.length < outputLength.toNat) (old : UInt8) (rest : Bytes) :
    put outputLength bits (UInt32.ofNat out.length) (out ++ old :: rest) =
      .ok (UInt32.ofNat (out ++ [b]).length, out ++ [b] ++ rest) := by
  have hlt := outputLength.toNat_lt
  have hj : (UInt32.ofNat out.length).toNat = out.length := toNat_ofNat (by omega)
  rw [put, if_pos (by rwa [UInt32.lt_iff_toNat_lt, hj]), hb, storeN_next old b hj.symm, ok_bind,
    List.length_append, UInt32.ofNat_add]
  rfl

/-- What the filling stands for is not stored. -/
theorem put_full (hout : out.length = outputLength.toNat) (decodedData : Bytes) :
    put outputLength bits (UInt32.ofNat out.length) decodedData =
      .ok (UInt32.ofNat out.length, decodedData) := by
  have hlt := outputLength.toNat_lt
  rw [put, if_neg]
  rw [UInt32.lt_iff_toNat_lt, toNat_ofNat (by omega)]
  omega

/-- One pass reads four characters. -/
theorem decodeLoop_pass {data front behind : Bytes} {t : Nat} {c₁ c₂ c₃ c₄ : UInt8}
    (hlen : data.length < 2 ^ 32) (ht : t < 16777216)
    (hdata : data = front ++ c₁ :: c₂ :: c₃ :: c₄ :: behind) (h₁ : Reads c₁ (t / 262144 % 64))
    (h₂ : Reads c₂ (t / 4096 % 64)) (h₃ : Reads c₃ (t / 64 % 64)) (h₄ : Reads c₄ (t % 64))
    (passes : Nat) (j : UInt32) (decodedData : Bytes) :
    decodeLoop data (UInt32.ofNat data.length) outputLength (passes + 1)
        (UInt32.ofNat front.length) j decodedData = (do
      let (j, decodedData) ← put outputLength (UInt32.ofNat t >>> 16) j decodedData
      let (j, decodedData) ← put outputLength (UInt32.ofNat t >>> 8) j decodedData
      let (j, decodedData) ← put outputLength (UInt32.ofNat t) j decodedData
      decodeLoop data (UInt32.ofNat data.length) outputLength passes
        (UInt32.ofNat (front.length + 4)) j decodedData) := by
  have hfront : data.length = front.length + 4 + behind.length := by
    rw [hdata]
    simp only [List.length_append, List.length_cons]
    omega
  have hs₁ := sextet_eq data (k := front.length) (by omega) (by rw [hdata]; simp) h₁
  have hs₂ := sextet_eq data (k := front.length + 1) (by omega) (by rw [hdata]; simp) h₂
  have hs₃ := sextet_eq data (k := front.length + 2) (by omega) (by rw [hdata]; simp) h₃
  have hs₄ := sextet_eq data (k := front.length + 3) (by omega) (by rw [hdata]; simp) h₄
  rw [decodeLoop, if_pos ((ofNat_lt (by omega) hlen).mpr (by omega)), hs₁, ok_bind]
  dsimp only
  rw [hs₂, ok_bind]
  dsimp only
  rw [hs₃, ok_bind]
  dsimp only
  rw [hs₄, ok_bind]
  dsimp only
  rw [sextets_number ht]

/-- The loop reads the bytes that are left. -/
theorem decodeLoop_eq {data : Bytes} (hlen : data.length < 2 ^ 32) :
    ∀ (rest front out old : Bytes) (passes : Nat), data = front ++ encoding rest →
    (encoding rest).length < passes → outputLength.toNat = out.length + rest.length →
    rest.length ≤ old.length →
    decodeLoop data (UInt32.ofNat data.length) outputLength passes (UInt32.ofNat front.length)
        (UInt32.ofNat out.length) (out ++ old) =
      .ok (out ++ rest ++ old.drop rest.length)
  | [], front, out, old, passes + 1, hdata, _, _, _ => by
      rw [encoding, List.append_nil] at hdata
      rw [decodeLoop, hdata, if_neg (UInt32.lt_irrefl _), List.append_nil]
      rfl
  | [a], front, out, x :: old, passes + 2, hdata, _, hout, _ => by
      rw [List.length_singleton] at hout
      obtain ⟨hbyte, -, -⟩ := bytes_number a 0 0
      have hnumber : number a 0 0 = a.toNat * 65536 := by simp [number]
      have hthird : number a 0 0 / 64 % 64 = 0 := by rw [hnumber]; omega
      have hfourth : number a 0 0 % 64 = 0 := by rw [hnumber]; omega
      have hfront : data.length = front.length + 4 := by rw [hdata, List.length_append]; rfl
      have hfull : (out ++ [a]).length = outputLength.toNat := by
        rw [hout, List.length_append, List.length_singleton]
      rw [decodeLoop_pass (t := number a 0 0) hlen (number_lt a 0 0) hdata reads_letter reads_letter
        (.inr ⟨rfl, hthird⟩) (.inr ⟨rfl, hfourth⟩), put_next hbyte (by omega), ok_bind]
      dsimp only
      rw [put_full hfull, ok_bind]
      dsimp only
      rw [put_full hfull, ok_bind, ← hfront]
      dsimp only
      rw [decodeLoop, if_neg (UInt32.lt_irrefl _)]
      rfl
  | [a, b], front, out, x :: y :: old, passes + 2, hdata, _, hout, _ => by
      simp only [List.length_cons, List.length_nil] at hout
      obtain ⟨hfirst, hsecond, -⟩ := bytes_number a b 0
      have hnumber : number a b 0 = a.toNat * 65536 + b.toNat * 256 := by simp [number]
      have hfourth : number a b 0 % 64 = 0 := by rw [hnumber]; omega
      have hfront : data.length = front.length + 4 := by rw [hdata, List.length_append]; rfl
      have hfull : (out ++ [a] ++ [b]).length = outputLength.toNat := by
        simp only [hout, List.length_append, List.length_singleton]
      rw [decodeLoop_pass (t := number a b 0) hlen (number_lt a b 0) hdata reads_letter reads_letter
        reads_letter (.inr ⟨rfl, hfourth⟩), put_next hfirst (by omega), ok_bind]
      dsimp only
      rw [put_next hsecond (by rw [List.length_append, List.length_singleton]; omega), ok_bind]
      dsimp only
      rw [put_full hfull, ok_bind, ← hfront]
      dsimp only
      rw [decodeLoop, if_neg (UInt32.lt_irrefl _)]
      simp
  | a :: b :: c :: rest, front, out, x :: y :: z :: old, passes + 1, hdata, hpasses, hout,
      hold => by
      rw [encoding, List.length_append, quad_length] at hpasses
      simp only [List.length_cons] at hout hold
      obtain ⟨hfirst, hsecond, hthird⟩ := bytes_number a b c
      have ih := decodeLoop_eq hlen rest (front ++ quad (number a b c)) (out ++ [a] ++ [b] ++ [c])
        old passes (by rw [hdata, encoding, List.append_assoc]) (by omega)
        (by simp only [List.length_append, List.length_singleton]; omega) (by omega)
      rw [decodeLoop_pass (t := number a b c) hlen (number_lt a b c) hdata reads_letter reads_letter
        reads_letter reads_letter, put_next hfirst (by omega), ok_bind]
      dsimp only
      rw [put_next hsecond (by rw [List.length_append, List.length_singleton]; omega), ok_bind]
      dsimp only
      rw [put_next hthird (by simp only [List.length_append, List.length_singleton]; omega),
        ok_bind]
      dsimp only
      have hfront : (front ++ quad (number a b c)).length = front.length + 4 := List.length_append
      rw [hfront] at ih
      rw [ih]
      simp

end Decode

/-- The last two characters of a text tell how many bytes it denotes. -/
theorem encoding_end : ∀ {x : Bytes}, x ≠ [] → ∃ front p q, encoding x = front ++ [p, q] ∧
    (q = pad ↔ x.length % 3 ≠ 0) ∧ (p = pad ↔ x.length % 3 = 1)
  | [], h => absurd rfl h
  | [a], _ => ⟨(quad (number a 0 0)).take 2, pad, pad, rfl, by simp, by simp⟩
  | [a, b], _ =>
      ⟨(quad (number a b 0)).take 2, letter (number a b 0 / 64 % 64), pad,
        by simp [encoding, quad], by simp,
        by simpa using (letter_spec (Nat.mod_lt _ (by decide))).2.1⟩
  | [a, b, c], _ =>
      ⟨(quad (number a b c)).take 2, letter (number a b c / 64 % 64), letter (number a b c % 64),
        rfl, by simpa using (letter_spec (Nat.mod_lt _ (by decide))).2.1,
        by simpa using (letter_spec (Nat.mod_lt _ (by decide))).2.1⟩
  | a :: b :: c :: d :: rest, _ => by
      obtain ⟨front, p, q, hencoding, hq, hp⟩ := encoding_end (x := d :: rest) (by simp)
      refine ⟨quad (number a b c) ++ front, p, q, ?_, ?_, ?_⟩
      · rw [encoding, hencoding, List.append_assoc]
      · rw [hq]
        simp only [List.length_cons]
        omega
      · rw [hp]
        simp only [List.length_cons]
        omega

/-- The decoder reads the bytes of a text that is not empty. -/
theorem utilsBase64decode_eq {x decodedData : Bytes} {outputLenMax : UInt32}
    (outputLength : UInt32) (hx : x ≠ []) (hfit : (encoding x).length < 2 ^ 32)
    (hmax : x.length ≤ outputLenMax.toNat) (hroom : x.length ≤ decodedData.length) :
    utilsBase64decode (encoding x) (UInt32.ofNat (encoding x).length) outputLenMax decodedData
        outputLength =
      .ok ⟨successReturn, UInt32.ofNat x.length, x ++ decodedData.drop x.length⟩ := by
  have hlen := encoding_length x
  have hn : (UInt32.ofNat (encoding x).length).toNat = (encoding x).length := toNat_ofNat hfit
  obtain ⟨front, p, q, hencoding, hq, hp⟩ := encoding_end hx
  have hend : (encoding x).length = front.length + 2 := by rw [hencoding, List.length_append]; rfl
  have hlast : load (encoding x) (UInt32.ofNat (encoding x).length - 1).toNat = .ok q := by
    rw [UInt32.toNat_sub_of_le _ _ (UInt32.le_iff_toNat_le.mpr (by rw [hn, hend]; simp)), hn, hend]
    exact load_eq_ok.mpr (by simp [hencoding])
  have hprevious : load (encoding x) (UInt32.ofNat (encoding x).length - 2).toNat = .ok p := by
    rw [UInt32.toNat_sub_of_le _ _ (UInt32.le_iff_toNat_le.mpr (by rw [hn, hend]; simp)), hn, hend]
    exact load_eq_ok.mpr (by simp [hencoding])
  have hwhole : (UInt32.ofNat (encoding x).length / 4 * 3).toNat = 3 * ((x.length + 2) / 3) := by
    rw [UInt32.toNat_mul, UInt32.toNat_div, hn]
    simp only [UInt32.reduceToNat]
    omega
  have hlength : (if p = pad then (if q = pad then UInt32.ofNat (encoding x).length / 4 * 3 - 1
        else UInt32.ofNat (encoding x).length / 4 * 3) - 1
      else if q = pad then UInt32.ofNat (encoding x).length / 4 * 3 - 1
      else UInt32.ofNat (encoding x).length / 4 * 3) = UInt32.ofNat x.length := by
    have hpos := List.length_pos_iff.mpr hx
    apply UInt32.toNat.inj
    rw [toNat_ofNat (by omega)]
    obtain hmod | hmod | hmod : x.length % 3 = 0 ∨ x.length % 3 = 1 ∨ x.length % 3 = 2 := by omega
    · rw [if_neg (by rw [hp]; omega), if_neg (by rw [hq]; omega), hwhole]
      omega
    · rw [if_pos (hp.mpr hmod), if_pos (hq.mpr (by omega)),
        sub_sub_toNat (by rw [hwhole]; simp; omega), hwhole]
      simp only [UInt32.reduceToNat]
      omega
    · rw [if_neg (by rw [hp]; omega), if_pos (hq.mpr (by omega)), UInt32.toNat_sub_of_le _ _
        (UInt32.le_iff_toNat_le.mpr (by rw [hwhole]; simp; omega)), hwhole]
      simp only [UInt32.reduceToNat]
      omega
  have hout : (UInt32.ofNat x.length).toNat = ([] : Bytes).length + x.length := by
    rw [toNat_ofNat (by omega), List.length_nil, Nat.zero_add]
  have hloop := decodeLoop_eq hfit x [] [] decodedData ((encoding x).length + 1) rfl
    (Nat.lt_succ_self _) hout hroom
  have hloop : decodeLoop (encoding x) (UInt32.ofNat (encoding x).length) (UInt32.ofNat x.length)
      ((encoding x).length + 1) 0 0 decodedData = .ok (x ++ decodedData.drop x.length) := hloop
  have hfour : ¬ UInt32.ofNat (encoding x).length % 4 ≠ 0 := by
    rw [not_not]
    apply UInt32.toNat.inj
    rw [UInt32.toNat_mod, hn]
    simp only [UInt32.reduceToNat]
    omega
  rw [utilsBase64decode, if_neg hfour, hlast, ok_bind, hprevious, ok_bind]
  dsimp only
  rw [hlength, if_neg (by rw [UInt32.lt_iff_toNat_lt, toNat_ofNat (by omega)]; omega), hn, hloop,
    ok_bind]

/-- In front of an empty text it reads too. -/
theorem utilsBase64decode_empty (outputLenMax : UInt32) (decodedData : Bytes)
    (outputLength : UInt32) :
    utilsBase64decode [] 0 outputLenMax decodedData outputLength = .error .load := rfl

/-! ## The round trip -/

/-- The text of the bytes has the length it should have, and is decoded to the bytes. -/
def RoundTrips (x : Bytes) (encodeMax decodeMax : UInt32) (encodedData decodedData : Bytes)
    (outputLength : UInt32) : Prop :=
  ∃ e, utilsBase64encode x (UInt32.ofNat x.length) encodeMax (some encodedData) outputLength =
      .ok e ∧
    e.ret = successReturn ∧ e.outputLength.toNat = 4 * ((x.length + 2) / 3) ∧
    ∃ d, utilsBase64decode (e.bytes.take e.outputLength.toNat) e.outputLength decodeMax decodedData
        e.outputLength = .ok d ∧
      d.ret = successReturn ∧ d.outputLength.toNat = x.length ∧ d.bytes.take x.length = x

/-- With enough room everything but the empty text makes the round trip. -/
theorem base64_round_trip_iff (x : Bytes) (encodeMax decodeMax : UInt32)
    (encodedData decodedData : Bytes) (outputLength : UInt32)
    (hfit : 4 * ((x.length + 2) / 3) < 2 ^ 32)
    (hencodeMax : 4 * ((x.length + 2) / 3) ≤ encodeMax.toNat)
    (hencoded : 4 * ((x.length + 2) / 3) ≤ encodedData.length)
    (hdecodeMax : x.length ≤ decodeMax.toNat) (hdecoded : x.length ≤ decodedData.length) :
    RoundTrips x encodeMax decodeMax encodedData decodedData outputLength ↔ x ≠ [] := by
  rw [← encoding_length] at hfit hencodeMax hencoded
  have hencode := utilsBase64encode_eq outputLength hfit hencodeMax hencoded
  constructor
  · rintro ⟨e, he, -, -, d, hd, -⟩ rfl
    rw [hencode] at he
    cases he
    cases (utilsBase64decode_empty decodeMax decodedData _).symm.trans hd
  · intro hx
    have htake : (encoding x ++ encodedData.drop (encoding x).length).take
        (UInt32.ofNat (encoding x).length).toNat = encoding x := by
      rw [toNat_ofNat hfit, List.take_left]
    refine ⟨_, hencode, rfl, (toNat_ofNat hfit).trans (encoding_length x),
      ⟨successReturn, UInt32.ofNat x.length, x ++ decodedData.drop x.length⟩, ?_, rfl, ?_, ?_⟩
    · dsimp only
      rw [htake]
      exact utilsBase64decode_eq _ hx hfit hdecodeMax hdecoded
    · exact toNat_ofNat (by rw [encoding_length] at hfit; omega)
    · exact List.take_left

theorem base64_round_trip_four :
    RoundTrips [77, 97, 110, 33] 8 4 (List.replicate 8 0) (List.replicate 4 0) 0 :=
  (base64_round_trip_iff [77, 97, 110, 33] 8 4 (List.replicate 8 0) (List.replicate 4 0) 0
    (by decide) (by decide) (by decide) (by decide) (by decide)).mpr (by decide)

/-- The text of no byte is empty, and the decoder reads in front of it. -/
theorem base64_round_trip_empty :
    ¬ RoundTrips [] 8 4 (List.replicate 8 0) (List.replicate 4 0) 0 := by
  rintro ⟨e, he, -, -, d, hd, -⟩
  cases he
  cases hd

end IotKit.Utils.Base64
