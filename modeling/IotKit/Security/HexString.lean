import IotKit.Http.Scan
import IotKit.Security.Credentials

/-!
# Hexadecimal strings in both directions

`HexToString` and `StringToHex` of `utils_common.c`, whose loops go through the bytes or the
pairs of digits from the first or, with `reverse`, from the last.  The loop of `StringToHex`
goes on as long as the number of bytes written is no more than `destlen`, so that it writes one
byte more than there is room for, and its `memset` clears two bytes of any object.

`inOrder` lists the bytes in the order of their digits and `digits` are the digits themselves.
Both directions agree with them exactly if the length of the string is a 16-bit number and
`destlen` has room for two bytes and for all those of the string (`hex_conversion_iff`).
-/

namespace IotKit.Security.HexString

open CMemory Http

/-! ## The functions -/

/-- The loops of `HexToString`. -/
def hexToStringLoop (psrc : Bytes) (srclen : UInt16) (reverse : Bool) :
    (passes : Nat) → (index : Int) → (n : Nat) → (pdest : Bytes) → Checked (Int × Bytes)
  | 0, _, _, _ => .error .diverge
  | passes + 1, index, n, pdest =>
      if (if reverse then 0 ≤ index else index < srclen.toNat) then do
        let b ← load psrc index
        let pdest ← storeN pdest n [asciiNibble (b >>> 4)]
        let pdest ← storeN pdest (n + 1 : Nat) [asciiNibble (b &&& 0xF)]
        hexToStringLoop psrc srclen reverse passes (if reverse then index - 1 else index + 1)
          (n + 2) pdest
      else .ok (n, pdest)

/-- `HexToString`.  A loop makes no more passes than there are bytes. -/
def hexToString (psrc : Bytes) (srclen : UInt16) (pdest : Bytes) (reverse : Bool) :
    Checked (Int × Bytes) :=
  hexToStringLoop psrc srclen reverse (srclen.toNat + 1) (if reverse then srclen.toNat - 1 else 0)
    0 pdest

/-- The byte of two characters.  Behind the last one is the terminator. -/
def pairAt (psrc : Bytes) (index : Int) : Checked UInt8 := do
  let hi ← load (psrc ++ [0]) index
  let lo ← load (psrc ++ [0]) (index + 1)
  .ok (hexNibble hi <<< 4 ||| hexNibble lo)

/-- The loops of `StringToHex`. -/
def stringToHexLoop (psrc : Bytes) (srclen destlen : UInt16) (reverse : Bool) :
    (passes : Nat) → (index : Int) → (n : Nat) → (pdest : Bytes) → Checked (Int × Bytes)
  | 0, _, _, _ => .error .diverge
  | passes + 1, index, n, pdest =>
      if (if reverse then 0 ≤ index else index < srclen.toNat) ∧ n ≤ destlen.toNat then do
        let b ← pairAt psrc index
        let pdest ← storeN pdest n [b]
        stringToHexLoop psrc srclen destlen reverse passes
          (if reverse then index - 2 else index + 2) (n + 1) pdest
      else .ok (n, pdest)

/-- `StringToHex`.  The `memset` clears `sizeof(uint16_t)` bytes. -/
def stringToHex (psrc : Bytes) (srclen : UInt16) (pdest : Bytes) (destlen : UInt16)
    (reverse : Bool) : Checked (Int × Bytes) :=
  if psrc.length ≠ srclen.toNat then .ok (-1, pdest)
  else do
    let pdest ← storeN pdest 0 [0, 0]
    stringToHexLoop psrc srclen destlen reverse (srclen.toNat + 1)
      (if reverse then srclen.toNat - 2 else 0) 0 pdest

/-- The two characters behind `front`. -/
theorem pairAt_behind {front rest tail : Bytes} {hi lo : UInt8}
    (h : rest ++ [0] = hi :: lo :: tail) :
    pairAt (front ++ rest) (front.length : Nat) = .ok (hexNibble hi <<< 4 ||| hexNibble lo) := by
  have hmem : front ++ rest ++ [0] = front ++ (hi :: lo :: tail) := by rw [List.append_assoc, h]
  have hhi : load (front ++ (hi :: lo :: tail)) (front.length : Nat) = .ok hi :=
    load_eq_ok.mpr (by simp)
  have hlo : load (front ++ (hi :: lo :: tail)) (front.length + 1 : Nat) = .ok lo :=
    load_eq_ok.mpr (by simp)
  rw [pairAt, hmem, hhi, ok_bind, ← Int.natCast_succ, hlo, ok_bind]

section Forward

variable {srclen destlen : UInt16}

/-- One pass without `reverse`. -/
theorem stringToHexLoop_forward_pass {front rest tail : Bytes} {hi lo : UInt8}
    (h : rest ++ [0] = hi :: lo :: tail) (hlt : front.length < srclen.toNat) (passes n : Nat)
    (dest : Bytes) :
    stringToHexLoop (front ++ rest) srclen destlen false (passes + 1) (front.length : Nat) n dest =
      if n ≤ destlen.toNat then
        storeN dest n [hexNibble hi <<< 4 ||| hexNibble lo] >>=
          stringToHexLoop (front ++ rest) srclen destlen false passes (front.length + 2 : Nat)
            (n + 1)
      else .ok (n, dest) := by
  have hinside : (front.length : Int) < srclen.toNat := by omega
  rw [stringToHexLoop, pairAt_behind h, ok_bind]
  simp only [Bool.false_eq_true, if_false, hinside, true_and]
  rfl

/-- Without `reverse` the loop ends behind the last character. -/
theorem stringToHexLoop_forward_end {src : Bytes} {i : Nat} (hi : srclen.toNat ≤ i)
    (passes n : Nat) (dest : Bytes) :
    stringToHexLoop src srclen destlen false (passes + 1) i n dest = .ok (n, dest) := by
  rw [stringToHexLoop, if_neg]
  rintro ⟨hinside, -⟩
  simp only [Bool.false_eq_true, if_false] at hinside
  omega

/-- Without `reverse` the loop is the one that decodes the device secret. -/
theorem stringToHexLoop_forward : ∀ (src front : Bytes) (passes n : Nat) (dest : Bytes),
    front.length = 2 * n → src.length < passes → (front ++ src).length = srclen.toNat →
    stringToHexLoop (front ++ src) srclen destlen false passes (front.length : Nat) n dest =
      Security.stringToHexLoop destlen.toNat n src dest
  | [], front, passes + 1, n, dest, hfront, _, hlen => by
      rw [List.append_nil] at hlen
      exact stringToHexLoop_forward_end (by omega) passes n dest
  | [hi], front, passes + 2, n, dest, hfront, _, hlen => by
      rw [List.length_append, List.length_singleton] at hlen
      rw [stringToHexLoop_forward_pass rfl (by omega), Security.stringToHexLoop]
      refine if_congr Iff.rfl (bind_congr fun dest => ?_) rfl
      exact stringToHexLoop_forward_end (by omega) passes (n + 1) dest
  | hi :: lo :: src, front, passes + 1, n, dest, hfront, hpasses, hlen => by
      simp only [List.length_append, List.length_cons] at hlen hpasses
      rw [stringToHexLoop_forward_pass rfl (by omega), Security.stringToHexLoop]
      refine if_congr Iff.rfl (bind_congr fun dest => ?_) rfl
      have ih := stringToHexLoop_forward src (front ++ [hi, lo]) passes (n + 1) dest
        (by simp [hfront, Nat.mul_add]) (by omega) (by simp; omega)
      rwa [List.append_assoc, List.length_append] at ih

end Forward

/-- Without `reverse` the function is the one that decodes the device secret. -/
theorem stringToHex_forward (psrc dest : Bytes) (srclen destlen : UInt16) :
    stringToHex psrc srclen dest destlen false =
      Security.stringToHex psrc srclen.toNat dest destlen.toNat := by
  rw [stringToHex, Security.stringToHex]
  by_cases hlen : psrc.length = srclen.toNat
  case pos =>
    rw [if_neg (not_not.mpr hlen), if_neg (not_not.mpr hlen)]
    cases storeN dest 0 [0, 0] with
    | error e => rfl
    | ok dest =>
        exact stringToHexLoop_forward psrc [] _ 0 dest rfl (by omega) hlen
  case neg => rw [if_pos hlen, if_pos hlen]

/-! ## The digits -/

/-- The bytes in the order of their digits. -/
def inOrder (reverse : Bool) (bytes : Bytes) : Bytes := if reverse then bytes.reverse else bytes

/-- The digits of the bytes, two for each. -/
def digits (bytes : Bytes) : Bytes :=
  bytes.flatMap fun (b : UInt8) => [asciiNibble (b >>> 4), asciiNibble (b &&& 0xF)]

@[simp] theorem inOrder_length (reverse : Bool) (bytes : Bytes) :
    (inOrder reverse bytes).length = bytes.length := by
  cases reverse with
  | false => rfl
  | true => exact List.length_reverse

@[simp] theorem inOrder_inOrder (reverse : Bool) (bytes : Bytes) :
    inOrder reverse (inOrder reverse bytes) = bytes := by
  cases reverse with
  | false => rfl
  | true => exact List.reverse_reverse bytes

@[simp] theorem digits_nil : digits [] = [] := rfl

@[simp] theorem digits_cons (b : UInt8) (bytes : Bytes) :
    digits (b :: bytes) = asciiNibble (b >>> 4) :: asciiNibble (b &&& 0xF) :: digits bytes := rfl

@[simp] theorem digits_append (front behind : Bytes) :
    digits (front ++ behind) = digits front ++ digits behind := List.flatMap_append

@[simp] theorem digits_length (bytes : Bytes) : (digits bytes).length = 2 * bytes.length := by
  induction bytes with
  | nil => rfl
  | cons b bytes ih =>
      rw [digits_cons, List.length_cons, List.length_cons, ih, List.length_cons]
      omega

/-- The digit of a nibble has its value, and is no terminator. -/
theorem digitValue_asciiNibble {v : Nat} (h : v < 16) :
    digitValue (asciiNibble (UInt8.ofNat v)) = some v ∧ asciiNibble (UInt8.ofNat v) ≠ 0 := by
  have hall : ∀ a : Fin 16, digitValue (asciiNibble (UInt8.ofNat a.val)) = some a.val ∧
      asciiNibble (UInt8.ofNat a.val) ≠ 0 := by decide
  exact hall ⟨v, h⟩

/-- The nibbles of a byte, as numbers. -/
theorem nibbles_of (b : UInt8) :
    b >>> 4 = UInt8.ofNat (b.toNat / 16) ∧ b &&& 0xF = UInt8.ofNat (b.toNat % 16) := by
  have hb : b.toNat < 256 := b.toNat_lt
  have hhigh : b.toNat >>> 4 = b.toNat / 16 := Nat.shiftRight_eq_div_pow b.toNat 4
  have hlow : b.toNat &&& 15 = b.toNat % 16 := Nat.and_two_pow_sub_one_eq_mod b.toNat 4
  constructor
  · apply UInt8.toNat.inj
    rw [UInt8.toNat_shiftRight, UInt8.toNat_ofNat']
    exact hhigh.trans (Nat.mod_eq_of_lt (by omega)).symm
  · apply UInt8.toNat.inj
    rw [UInt8.toNat_and, UInt8.toNat_ofNat']
    exact hlow.trans (Nat.mod_eq_of_lt (by omega)).symm

theorem decodeHex_digits (bytes : Bytes) : decodeHex (digits bytes) = some bytes := by
  induction bytes with
  | nil => rfl
  | cons b bytes ih =>
      have hb : b.toNat < 256 := b.toNat_lt
      obtain ⟨hhigh, hlow⟩ := nibbles_of b
      have hv := (digitValue_asciiNibble (v := b.toNat / 16) (by omega)).1
      have hw := (digitValue_asciiNibble (v := b.toNat % 16) (by omega)).1
      have hsum : 16 * (b.toNat / 16) + b.toNat % 16 = b.toNat := Nat.div_add_mod _ 16
      simp only [digits_cons, decodeHex, hhigh, hlow, hv, hw, ih, hsum, Option.bind_eq_bind,
        Option.bind_some, UInt8.ofNat_toNat]

theorem digits_ne_zero (bytes : Bytes) : ∀ c ∈ digits bytes, c ≠ 0 := by
  intro c hc
  obtain ⟨b, -, hb⟩ := List.mem_flatMap.mp hc
  have hlt : b.toNat < 256 := b.toNat_lt
  obtain ⟨hhigh, hlow⟩ := nibbles_of b
  rw [hhigh, hlow, List.mem_pair] at hb
  rcases hb with rfl | rfl
  · exact (digitValue_asciiNibble (by omega)).2
  · exact (digitValue_asciiNibble (by omega)).2

/-- The string that begins with digits and goes on with a terminator. -/
theorem cString_digits (bytes rest : Bytes) :
    cString (digits bytes ++ 0 :: rest) = digits bytes := by
  rw [cString, List.takeWhile_append_of_pos fun c hc => by simpa using digits_ne_zero bytes c hc]
  simp

/-! ## Both directions of a loop -/

/-- The place of the byte that the `k`-th pass is about. -/
def place (reverse : Bool) (m k : Nat) : Int := if reverse then m - 1 - k else k

theorem place_next (reverse : Bool) (m k : Nat) :
    (if reverse then place reverse m k - 1 else place reverse m k + 1) =
      place reverse m (k + 1) := by
  cases reverse with
  | false => rfl
  | true =>
      simp only [place, if_true]
      omega

/-- The loop goes on for as long as there is a byte left. -/
theorem place_inside (reverse : Bool) (m k : Nat) :
    (if reverse then 0 ≤ place reverse m k else place reverse m k < m) ↔ k < m := by
  cases reverse with
  | false =>
      simp only [place, Bool.false_eq_true, if_false]
      omega
  | true =>
      simp only [place, if_true]
      omega

/-- It is the `k`-th byte in the order of the digits. -/
theorem getElem?_place {reverse : Bool} {bytes : Bytes} {k : Nat} {b : UInt8}
    (h : (inOrder reverse bytes)[k]? = some b) :
    ∃ i : Nat, place reverse bytes.length k = i ∧ bytes[i]? = some b := by
  have hk : k < bytes.length := by
    have := (List.getElem?_eq_some_iff.mp h).1
    rwa [inOrder_length] at this
  cases reverse with
  | false => exact ⟨k, rfl, h⟩
  | true =>
      refine ⟨bytes.length - 1 - k, ?_, ?_⟩
      · simp only [place, if_true]
        omega
      · simp only [inOrder, if_true] at h
        rwa [List.getElem?_reverse hk] at h

theorem getElem?_inOrder {reverse : Bool} {bytes done todo : Bytes} {b : UInt8}
    (h : inOrder reverse bytes = done ++ b :: todo) :
    (inOrder reverse bytes)[done.length]? = some b := by
  rw [h]
  simp

theorem length_lt_of_inOrder {reverse : Bool} {bytes done todo : Bytes} {b : UInt8}
    (h : inOrder reverse bytes = done ++ b :: todo) : done.length < bytes.length := by
  have hget := (List.getElem?_eq_some_iff.mp (getElem?_inOrder h)).1
  rwa [inOrder_length] at hget

/-! ## Writing digits -/

/-- The byte of one pass. -/
theorem load_place {reverse : Bool} {bytes behind : Bytes} {k : Nat} {b : UInt8}
    (h : (inOrder reverse bytes)[k]? = some b) :
    load (bytes ++ behind) (place reverse bytes.length k) = .ok b := by
  obtain ⟨i, hi, hb⟩ := getElem?_place h
  rw [hi]
  exact load_eq_ok.mpr ((by rw [List.getElem?_append_left (List.getElem?_eq_some_iff.mp hb).1, hb]))

/-- The loop writes the digits of the bytes that are left. -/
theorem hexToStringLoop_eq (reverse : Bool) (behind : Bytes) {bytes : Bytes} {srclen : UInt16}
    (hlen : bytes.length = srclen.toNat) : ∀ (todo done : Bytes) (passes : Nat) (rest : Bytes),
    inOrder reverse bytes = done ++ todo → todo.length < passes →
    2 * todo.length ≤ rest.length →
    hexToStringLoop (bytes ++ behind) srclen reverse passes
        (place reverse bytes.length done.length) (2 * done.length) (digits done ++ rest) =
      .ok ((2 * bytes.length : Nat), digits (inOrder reverse bytes) ++ rest.drop (2 * todo.length))
  | [], done, passes + 1, rest, hsplit, _, _ => by
      rw [List.append_nil] at hsplit
      have hdone : done.length = bytes.length := by rw [← hsplit, inOrder_length]
      rw [hexToStringLoop, ← hlen, if_neg ((place_inside ..).not.mpr (by omega)), hsplit, hdone]
      rfl
  | b :: todo, done, passes + 1, high :: low :: rest, hsplit, hpasses, hrest => by
      simp only [List.length_cons] at hpasses hrest
      have hhigh : storeN (digits done ++ high :: low :: rest) (2 * done.length : Nat)
          [asciiNibble (b >>> 4)] = .ok (digits done ++ [asciiNibble (b >>> 4)] ++ low :: rest) :=
        storeN_next high _ (digits_length done)
      have hlow : storeN (digits done ++ [asciiNibble (b >>> 4)] ++ low :: rest)
          (2 * done.length + 1 : Nat) [asciiNibble (b &&& 0xF)] =
          .ok (digits done ++ [asciiNibble (b >>> 4)] ++ [asciiNibble (b &&& 0xF)] ++ rest) :=
        storeN_next low _ (by simp)
      have ih := hexToStringLoop_eq reverse behind hlen todo (done ++ [b]) passes rest
        (by rw [hsplit, List.append_assoc, List.singleton_append]) (by omega) (by omega)
      simp only [digits_append, digits_cons, digits_nil, List.length_append,
        List.length_singleton] at ih
      rw [hexToStringLoop, ← hlen, if_pos ((place_inside ..).mpr (length_lt_of_inOrder hsplit)),
        load_place (getElem?_inOrder hsplit), ok_bind, hhigh, ok_bind, hlow, ok_bind, place_next]
      simp only [List.append_assoc, List.cons_append, List.nil_append, List.length_cons,
        Nat.mul_add, Nat.mul_one, List.drop_succ_cons] at ih ⊢
      exact ih

/-- The digits of the first `srclen` bytes, over the beginning of the string. -/
theorem hexToString_eq (reverse : Bool) (behind : Bytes) {bytes str : Bytes} {srclen : UInt16}
    (hlen : bytes.length = srclen.toNat) (hstr : 2 * bytes.length ≤ str.length) :
    hexToString (bytes ++ behind) srclen str reverse = .ok ((2 * bytes.length : Nat),
      digits (inOrder reverse bytes) ++ str.drop (2 * bytes.length)) := by
  have hloop := hexToStringLoop_eq reverse behind hlen
    (inOrder reverse bytes) [] (srclen.toNat + 1) str rfl (by rw [inOrder_length]; omega)
    (by rw [inOrder_length]; exact hstr)
  rw [inOrder_length] at hloop
  have hstart : (if reverse then (srclen.toNat : Int) - 1 else 0) =
      place reverse bytes.length 0 := by
    cases reverse with
    | false => rfl
    | true =>
        simp only [place, if_true]
        omega
  rw [hexToString, hstart]
  exact hloop

/-- Without `reverse` the function is the one that writes the password. -/
theorem hexToString_forward {bytes str : Bytes} {srclen : UInt16}
    (hlen : bytes.length = srclen.toNat) (hstr : 2 * bytes.length ≤ str.length) :
    hexToString bytes srclen str false =
      .ok ((2 * bytes.length : Nat), Security.hexToString bytes str) := by
  have heq := hexToString_eq false [] hlen hstr
  rw [List.append_nil] at heq
  rw [heq, Security.hexToString]
  show _ = Except.ok (_, digits bytes ++ str.drop (digits bytes).length)
  rw [digits_length]
  rfl

/-! ## Reading digits -/

/-- The two digits of a byte are the ones at its place. -/
theorem pairAt_decodeHex : ∀ {src bytes : Bytes} {i : Nat} {b : UInt8} (front : Bytes),
    decodeHex src = some bytes → bytes[i]? = some b →
    pairAt (front ++ src) (front.length + 2 * i : Nat) = .ok b
  | [], bytes, i, b, front, hsrc, hb => by
      cases hsrc
      cases hb
  | [_], bytes, i, b, front, hsrc, _ => by cases hsrc
  | hi :: lo :: src, bytes, i, b, front, hsrc, hb => by
      obtain ⟨tail, htail, rfl⟩ := decodeHex_cons_eq_some hsrc
      cases i with
      | zero =>
          cases hb
          exact pairAt_behind rfl
      | succ i =>
          have ih := pairAt_decodeHex (front ++ [hi, lo]) htail hb
          have hplace : front.length + 2 * (i + 1) = front.length + 2 + 2 * i := by omega
          rw [List.append_assoc, List.length_append] at ih
          rw [hplace]
          exact ih

section Loop

variable {reverse : Bool} {src bytes : Bytes} {srclen destlen : UInt16}

/-- The loop goes on for as long as there is a byte left and no more than `destlen` are written. -/
theorem pair_inside (hsrc : decodeHex src = some bytes) (hlen : src.length = srclen.toNat)
    (k : Nat) :
    (if reverse then 0 ≤ 2 * place reverse bytes.length k
      else 2 * place reverse bytes.length k < srclen.toNat) ↔ k < bytes.length := by
  have heven := decodeHex_length hsrc
  rw [← place_inside reverse]
  cases reverse with
  | false =>
      simp only [Bool.false_eq_true, if_false]
      omega
  | true =>
      simp only [if_true]
      omega

/-- One pass decodes the next byte in the order of the digits. -/
theorem stringToHexLoop_pass (hsrc : decodeHex src = some bytes) (hlen : src.length = srclen.toNat)
    {done todo : Bytes} {b : UInt8} (hsplit : inOrder reverse bytes = done ++ b :: todo)
    (hroom : done.length ≤ destlen.toNat) (passes : Nat) (dest : Bytes) :
    stringToHexLoop src srclen destlen reverse (passes + 1)
        (2 * place reverse bytes.length done.length) done.length dest =
      storeN dest done.length [b] >>= fun dest => stringToHexLoop src srclen destlen reverse passes
        (2 * place reverse bytes.length (done.length + 1)) (done.length + 1) dest := by
  obtain ⟨i, hi, hb⟩ := getElem?_place (getElem?_inOrder hsplit)
  have hpair : pairAt src (2 * place reverse bytes.length done.length) = .ok b := by
    have h := pairAt_decodeHex [] hsrc hb
    rw [List.nil_append, List.length_nil, Nat.zero_add] at h
    rw [hi]
    exact h
  have hnext : (if reverse then 2 * place reverse bytes.length done.length - 2
      else 2 * place reverse bytes.length done.length + 2) =
      2 * place reverse bytes.length (done.length + 1) := by
    rw [← place_next]
    cases reverse with
    | false =>
        simp only [Bool.false_eq_true, if_false]
        omega
    | true =>
        simp only [if_true]
        omega
  rw [stringToHexLoop,
    if_pos ⟨(pair_inside hsrc hlen _).mpr (length_lt_of_inOrder hsplit), hroom⟩, hpair, ok_bind,
    hnext]

/-- With room for all the bytes the loop writes those that are left. -/
theorem stringToHexLoop_eq (reverse : Bool) (hsrc : decodeHex src = some bytes)
    (hlen : src.length = srclen.toNat) (hroom : bytes.length ≤ destlen.toNat) :
    ∀ (todo done : Bytes) (passes : Nat) (rest : Bytes),
    inOrder reverse bytes = done ++ todo → todo.length < passes → todo.length ≤ rest.length →
    stringToHexLoop src srclen destlen reverse passes
        (2 * place reverse bytes.length done.length) done.length (done ++ rest) =
      .ok ((bytes.length : Nat), inOrder reverse bytes ++ rest.drop todo.length)
  | [], done, passes + 1, rest, hsplit, _, _ => by
      rw [List.append_nil] at hsplit
      have hdone : done.length = bytes.length := by rw [← hsplit, inOrder_length]
      rw [stringToHexLoop, if_neg, hsplit, hdone]
      · rfl
      · exact fun h => Nat.lt_irrefl _ (hdone ▸ (pair_inside hsrc hlen _).mp h.1)
  | b :: todo, done, passes + 1, old :: rest, hsplit, hpasses, hrest => by
      have hdone := length_lt_of_inOrder hsplit
      have ih := stringToHexLoop_eq reverse hsrc hlen hroom todo (done ++ [b]) passes rest
        (by rw [hsplit, List.append_assoc, List.singleton_append]) (Nat.lt_of_succ_lt_succ hpasses)
        (Nat.le_of_succ_le_succ hrest)
      rw [List.length_append, List.length_singleton] at ih
      rw [stringToHexLoop_pass hsrc hlen hsplit (by omega), storeN_next old b rfl, ok_bind, ih]
      rfl

/-- Without the room the loop stores behind an object of `destlen` bytes. -/
theorem stringToHexLoop_overrun (reverse : Bool) (hsrc : decodeHex src = some bytes)
    (hlen : src.length = srclen.toNat) (hroom : destlen.toNat < bytes.length) :
    ∀ (todo done : Bytes) (passes : Nat) (rest : Bytes), inOrder reverse bytes = done ++ todo →
    todo.length < passes → done.length + rest.length = destlen.toNat →
    stringToHexLoop src srclen destlen reverse passes
      (2 * place reverse bytes.length done.length) done.length (done ++ rest) = .error .store
  | [], done, passes + 1, rest, hsplit, _, hdest => by
      rw [List.append_nil] at hsplit
      have hdone : done.length = bytes.length := by rw [← hsplit, inOrder_length]
      omega
  | b :: todo, done, passes + 1, [], hsplit, _, hdest => by
      have hfault : storeN (done ++ []) done.length [b] = .error .store := by
        rw [storeN, if_neg]
        rintro ⟨-, h⟩
        simp only [List.append_nil, Int.toNat_natCast, List.length_singleton] at h
        omega
      rw [stringToHexLoop_pass hsrc hlen hsplit (by omega), hfault]
      rfl
  | b :: todo, done, passes + 1, old :: rest, hsplit, hpasses, hdest => by
      rw [List.length_cons] at hdest
      have ih := stringToHexLoop_overrun reverse hsrc hlen hroom todo (done ++ [b]) passes rest
        (by rw [hsplit, List.append_assoc, List.singleton_append]) (Nat.lt_of_succ_lt_succ hpasses)
        (by rw [List.length_append, List.length_singleton]; omega)
      rw [List.length_append, List.length_singleton] at ih
      rw [stringToHexLoop_pass hsrc hlen hsplit (by omega), storeN_next old b rfl, ok_bind, ih]

end Loop

/-! ## The conversions -/

/-- The call returns `n` and leaves `bs` in front, whatever lies behind the object `dest`. -/
def Writes (src : Bytes) (srclen : UInt16) (dest : Bytes) (destlen : UInt16) (reverse : Bool)
    (n : Nat) (bs : Bytes) : Prop :=
  ∃ out, out.length = dest.length ∧ out.take n = bs ∧ ∀ behind,
    stringToHex src srclen (dest ++ behind) destlen reverse = .ok ((n : Int), out ++ behind)

/-- The digits of the bytes are decoded to the bytes again. -/
def RoundTrips (x str dest : Bytes) (destlen : UInt16) (reverse : Bool) : Prop :=
  ∃ str', hexToString x (UInt16.ofNat x.length) str reverse = .ok ((2 * x.length : Nat), str') ∧
    cString str' = digits (inOrder reverse x) ∧
    Writes (cString str') (UInt16.ofNat (2 * x.length)) dest destlen reverse x.length x

/-- No more bytes are written than there is room for: the first of those the string denotes. -/
def Bounded (src bytes dest : Bytes) (destlen : UInt16) (reverse : Bool) : Prop :=
  Writes src (UInt16.ofNat src.length) dest destlen reverse (min (src.length / 2) destlen.toNat)
    ((inOrder reverse bytes).take (min (src.length / 2) destlen.toNat))

section Conversion

variable {reverse : Bool} {src bytes dest : Bytes} {destlen : UInt16}

theorem ofNat_eq_length {n : Nat} (h : n < 65536) : n = (UInt16.ofNat n).toNat := by
  rw [UInt16.toNat_ofNat']
  omega

theorem start_eq (hsrc : decodeHex src = some bytes) (hlen : src.length < 65536) :
    (if reverse then ((UInt16.ofNat src.length).toNat : Int) - 2 else 0) =
      2 * place reverse bytes.length 0 := by
  have heven := decodeHex_length hsrc
  rw [← ofNat_eq_length hlen, place]
  cases reverse with
  | false => rfl
  | true =>
      simp only [if_true]
      omega

/-- A string that fits is decoded. -/
theorem writes_of_fits (reverse : Bool) (hsrc : decodeHex src = some bytes)
    (hdest : dest.length = destlen.toNat) (hlen : src.length < 65536) (htwo : 2 ≤ destlen.toNat)
    (hroom : bytes.length ≤ destlen.toNat) :
    Writes src (UInt16.ofNat src.length) dest destlen reverse bytes.length
      (inOrder reverse bytes) := by
  have heven := decodeHex_length hsrc
  match dest, (by omega : 2 ≤ dest.length), hdest with
  | d₀ :: d₁ :: dest, _, hdest =>
      refine ⟨inOrder reverse bytes ++ (0 :: 0 :: dest).drop bytes.length, ?_, ?_, ?_⟩
      · rw [List.length_append, inOrder_length, List.length_drop]
        simp only [List.length_cons] at hdest ⊢
        omega
      · rw [List.take_append_of_le_length (Nat.le_of_eq (inOrder_length ..).symm),
          List.take_of_length_le (Nat.le_of_eq (inOrder_length ..))]
      · intro behind
        have hloop := stringToHexLoop_eq reverse hsrc (ofNat_eq_length hlen) hroom
          (inOrder reverse bytes) [] ((UInt16.ofNat src.length).toNat + 1)
          (0 :: 0 :: dest ++ behind) rfl
          (by rw [inOrder_length, ← ofNat_eq_length hlen]; omega)
          (by simp only [List.length_append, List.length_cons, inOrder_length] at hdest ⊢; omega)
        rw [stringToHex, if_neg (not_not.mpr (ofNat_eq_length hlen)), start_eq hsrc hlen]
        rw [inOrder_length, List.drop_append_of_le_length] at hloop
        · rw [List.append_assoc]
          exact hloop
        · simp only [List.length_cons] at hdest ⊢
          omega

/-- A string that is decoded fits. -/
theorem fits_of_writes {n : Nat} {bs : Bytes} (hsrc : decodeHex src = some bytes)
    (hdest : dest.length = destlen.toNat)
    (h : Writes src (UInt16.ofNat src.length) dest destlen reverse n bs) :
    src.length < 65536 ∧ 2 ≤ destlen.toNat ∧ bytes.length ≤ destlen.toNat := by
  obtain ⟨out, -, -, hcall⟩ := h
  have hcall := hcall []
  rw [List.append_nil, stringToHex] at hcall
  split at hcall
  next =>
    have hn := congrArg Prod.fst (Except.ok.inj hcall)
    dsimp only at hn
    omega
  next hlen =>
    have hlen : src.length < 65536 := by
      have := (UInt16.ofNat src.length).toNat_lt
      omega
    obtain ⟨cleared, hclear, hloop⟩ := bind_eq_ok.mp hcall
    have hcleared := storeN_length hclear
    obtain ⟨-, htwo, -⟩ := storeN_eq_ok.mp hclear
    have htwo : 2 ≤ dest.length := by simpa using htwo
    refine ⟨hlen, by omega, Nat.le_of_not_lt fun hroom => ?_⟩
    have hfault := stringToHexLoop_overrun reverse hsrc (ofNat_eq_length hlen) hroom
      (inOrder reverse bytes) [] ((UInt16.ofNat src.length).toNat + 1) cleared rfl
      (by rw [inOrder_length, ← ofNat_eq_length hlen, decodeHex_length hsrc]; omega)
      (by rw [List.length_nil, Nat.zero_add, hcleared, hdest])
    rw [start_eq hsrc hlen] at hloop
    cases hfault.symm.trans hloop

end Conversion

/-- The conversions are inverse and bounded for as long as everything fits, but for a destination
of less than two bytes. -/
theorem hex_conversion_iff (x str src bytes dest : Bytes) (destlen : UInt16) (reverse : Bool)
    (hdest : dest.length = destlen.toNat) (hterm : str[2 * x.length]? = some 0)
    (hsrc : decodeHex src = some bytes) :
    (RoundTrips x str dest destlen reverse ↔
      2 * x.length < 65536 ∧ 2 ≤ destlen.toNat ∧ x.length ≤ destlen.toNat) ∧
    (Bounded src bytes dest destlen reverse ↔
      src.length < 65536 ∧ 2 ≤ destlen.toNat ∧ src.length / 2 ≤ destlen.toNat) := by
  obtain ⟨hstr, hzero⟩ := List.getElem?_eq_some_iff.mp hterm
  have hdrop : str.drop (2 * x.length) = 0 :: str.drop (2 * x.length + 1) := by
    rw [List.drop_eq_getElem_cons hstr, hzero]
  -- What the first call leaves for the second.
  have hfirst (hx : x.length < 65536) :
      hexToString x (UInt16.ofNat x.length) str reverse = .ok ((2 * x.length : Nat),
        digits (inOrder reverse x) ++ 0 :: str.drop (2 * x.length + 1)) := by
    have heq := hexToString_eq reverse [] (ofNat_eq_length hx)
      (Nat.le_of_lt hstr)
    rwa [List.append_nil, hdrop] at heq
  have hdecode : decodeHex (digits (inOrder reverse x)) = some (inOrder reverse x) :=
    decodeHex_digits _
  have hdigits : (digits (inOrder reverse x)).length = 2 * x.length := by
    rw [digits_length, inOrder_length]
  refine ⟨⟨?_, ?_⟩, ?_, ?_⟩
  · intro ⟨str', hcall, hcstring, hwrites⟩
    rw [hcstring, ← hdigits] at hwrites
    have hfits := fits_of_writes hdecode hdest hwrites
    rwa [hdigits, inOrder_length] at hfits
  · intro ⟨hlen, htwo, hroom⟩
    refine ⟨_, hfirst (by omega), cString_digits .., ?_⟩
    have hwrites := writes_of_fits reverse hdecode hdest (by rwa [hdigits]) htwo
      (by rwa [inOrder_length])
    rwa [hdigits, inOrder_length, inOrder_inOrder, ← cString_digits] at hwrites
  · intro hwrites
    have hfits := fits_of_writes hsrc hdest hwrites
    rwa [← Nat.mul_div_cancel_left bytes.length Nat.two_pos, ← decodeHex_length hsrc] at hfits
  · intro ⟨hlen, htwo, hroom⟩
    have heven := decodeHex_length hsrc
    have hmin : min (src.length / 2) destlen.toNat = bytes.length := by omega
    rw [Bounded, hmin, List.take_of_length_le (Nat.le_of_eq (inOrder_length ..))]
    exact writes_of_fits reverse hsrc hdest hlen htwo (by omega)

theorem hex_conversion_reversed :
    RoundTrips [0xAB, 0x01, 0x9F] (List.replicate 7 0) [1, 1, 1, 1] 4 true ∧
      Bounded [48, 49, 97, 70] [0x01, 0xAF] [1, 1, 1, 1] 4 true := by
  have h := hex_conversion_iff [0xAB, 0x01, 0x9F] (List.replicate 7 0) [48, 49, 97, 70]
    [0x01, 0xAF] [1, 1, 1, 1] 4 true (by decide) (by decide) (by decide)
  exact ⟨h.1.mpr (by decide), h.2.mpr (by decide)⟩

/-- Three bytes for two: the third one is stored behind the object. -/
theorem stringToHex_unbounded :
    ¬ Bounded [97, 97, 98, 98, 99, 99] [0xAA, 0xBB, 0xCC] [1, 1] 2 false := by
  intro ⟨out, _, _, hcall⟩
  have hfault : stringToHex [97, 97, 98, 98, 99, 99] 6 [1, 1] 2 false = .error .store := by decide
  cases hfault.symm.trans (hcall [])

end IotKit.Security.HexString
