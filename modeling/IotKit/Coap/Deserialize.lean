import IotKit.Coap.Message
import Mathlib.Tactic.Common

/-!
# Parsing of a datagram

`CoAPDeserialize.c` on an object that is the datagram.  A byte that is read outside it,
a token that does not fit and a seventeenth option are faults.  The parser comes through
exactly on the datagrams that are too short for a header and on those that are
`Complete`: header, token, at most sixteen options, marker and payload.
-/

namespace IotKit.Coap

open CMemory

/-! ## The functions -/

/-- `CoAPMsgOption` of a received message: the value is at an offset of the datagram. -/
structure ReceivedOption where
  num : Nat
  len : Nat
  val : Nat
deriving DecidableEq, Repr

/-- `CoAPMessage`, received.  `optnum` is the length of `options`, and the payload is at an
offset of the datagram. -/
structure Received where
  header : MsgHeader
  token : Bytes
  options : List ReceivedOption
  payload : Option Nat
  payloadlen : Nat
deriving DecidableEq, Repr

/-- The message before it is filled in: all zero. -/
def Received.zero : Received := ⟨⟨0, 0, 0, 0, 0⟩, [], [], none, 0⟩

/-- `CoAPDeserialize_Header`. -/
def coapDeserializeHeader (d : Bytes) : Checked MsgHeader := do
  let b0 ← load d 0
  let b1 ← load d 1
  let b2 ← load d 2
  let b3 ← load d 3
  .ok ⟨b0.toNat / 64, b0.toNat / 16 % 4, b0.toNat % 16, b1.toNat, b2.toNat * 256 + b3.toNat⟩

/-- `CoAPDeserialize_Token`. -/
def coapDeserializeToken (d : Bytes) (ptr tokenlen : Nat) : Checked Bytes := do
  let token ← loadN d ptr tokenlen
  if coapMsgMaxTokenLen < tokenlen then .error .store else .ok token

/-- A delta or a length, of which four bits are in the first byte of the option, and the
address after it. -/
def extended (d : Bytes) (nibble ptr : Nat) : Checked (Nat × Nat) :=
  if nibble = 13 then do
    let b ← load d ptr
    .ok (13 + b.toNat, ptr + 1)
  else if nibble = 14 then do
    let b ← load d ptr
    let c ← load d ((ptr + 1 : Nat))
    .ok (269 + (b.toNat * 256 + c.toNat), ptr + 2)
  else .ok (nibble, ptr)

/-- `CoAPDeserialize_Option`: the option and the number of bytes it takes. -/
def coapDeserializeOption (d : Bytes) (buf predeltas : Nat) : Checked (ReceivedOption × Nat) := do
  let b ← load d buf
  let (optdelta, ptr) ← extended d (b.toNat / 16) (buf + 1)
  let (optlen, ptr) ← extended d (b.toNat % 16) ptr
  let option : ReceivedOption := ⟨(predeltas + optdelta) % 65536, optlen % 65536, ptr⟩
  .ok (option, ptr - buf + option.len)

/-- The loop of `CoAPDeserialize_Options`, with `slots` entries of the table left.  `len` has
16 bits. -/
def optionsLoop (d : Bytes) (buf : Nat) (buflen : Int) (slots count optdeltas : Nat) :
    Checked (List ReceivedOption × Nat) :=
  if (count : Int) < buflen then do
    let b ← load d ((buf + count : Nat))
    if b = 0xFF then .ok ([], count)
    else
      match slots with
      | 0 => .error .index
      | slots + 1 => do
          let (option, len) ← coapDeserializeOption d (buf + count) optdeltas
          let (options, count) ←
            optionsLoop d buf buflen slots (count + len % 65536) option.num
          .ok (option :: options, count)
  else .ok ([], count)

/-- `CoAPDeserialize_Options`. -/
def coapDeserializeOptions (d : Bytes) (buf : Nat) (buflen : Int) :
    Checked (List ReceivedOption × Nat) :=
  optionsLoop d buf buflen coapMsgMaxOptionNum 0 0

/-- `CoAPDeserialize_Payload`. -/
def coapDeserializePayload (d : Bytes) (buf : Nat) (buflen : Int) :
    Checked (Option Nat × Nat) := do
  let b ← load d buf
  if b = 0xFF then .ok (some (buf + 1), ((buflen - 1) % 65536).toNat) else .ok (none, 0)

/-- `CoAPDeserialize_Message`. -/
def coapDeserializeMessage (d : Bytes) : Checked (Int × Received) :=
  if d.length < 4 then .ok (coapErrorInvalidLength, .zero)
  else do
    let header ← coapDeserializeHeader d
    let token ← coapDeserializeToken d 4 header.tokenlen
    let ptr := 4 + header.tokenlen
    let remlen := (d.length : Int) - ptr
    let (options, count) ← coapDeserializeOptions d ptr remlen
    let (payload, payloadlen) ← coapDeserializePayload d (ptr + count) (remlen - count)
    .ok (coapSuccess, ⟨header, token, options, payload, payloadlen⟩)

/-! ## Datagrams that are complete -/

/-- The bytes that follow for a delta or a length. -/
def extendedLen (nibble : Nat) : Nat := if nibble = 13 then 1 else if nibble = 14 then 2 else 0

def extendedValue (nibble : Nat) : Bytes → Nat
  | [b] => 13 + b.toNat
  | [b, c] => 269 + (b.toNat * 256 + c.toNat)
  | _ => nibble

/-- At most `n` options, the payload marker and the payload.  A length is that of the 16 bits
the code has for it. -/
inductive Body : Nat → Bytes → Prop
  | payload {n payload} : Body n (0xFF :: payload)
  | option {n b delta length value rest} : b ≠ 0xFF →
      delta.length = extendedLen (b.toNat / 16) → length.length = extendedLen (b.toNat % 16) →
      value.length = extendedValue (b.toNat % 16) length % 65536 → Body n rest →
      Body (n + 1) (b :: (delta ++ (length ++ (value ++ rest))))

/-- Header, token and body. -/
inductive Complete : Bytes → Prop
  | mk {b0 b1 b2 b3 : UInt8} {token rest : Bytes} : token.length = b0.toNat % 16 →
      token.length ≤ coapMsgMaxTokenLen → Body coapMsgMaxOptionNum rest →
      Complete (b0 :: b1 :: b2 :: b3 :: (token ++ rest))

/-! ## Reading at an address -/

variable {d : Bytes}

theorem load_eq_ok_drop {i : Nat} {b : UInt8} :
    load d i = .ok b ↔ ∃ tl, d.drop i = b :: tl := by
  rw [load_eq_ok, ← List.head?_drop, List.head?_eq_some_iff]

theorem drop_add {i : Nat} {bs tl : Bytes} (h : d.drop i = bs ++ tl) :
    d.drop (i + bs.length) = tl := by
  rw [← List.drop_drop, h, List.drop_left]

theorem drop_add_one {i : Nat} {b : UInt8} {tl : Bytes} (h : d.drop i = b :: tl) :
    d.drop (i + 1) = tl :=
  @drop_add d i [b] tl h

theorem lt_length_of_drop {i : Nat} {b : UInt8} {tl : Bytes} (h : d.drop i = b :: tl) :
    i < d.length := by
  by_contra hle
  rw [List.drop_eq_nil_of_le (Nat.le_of_not_lt hle)] at h
  cases h

theorem extended_eq_ok {nibble ptr v p : Nat} :
    extended d nibble ptr = .ok (v, p) ↔
      ∃ ext tl, d.drop ptr = ext ++ tl ∧ ext.length = extendedLen nibble ∧
        v = extendedValue nibble ext ∧ p = ptr + ext.length := by
  rw [extended, extendedLen]
  split
  next =>
    constructor
    · intro h
      obtain ⟨b, hb, h⟩ := bind_eq_ok.mp h
      obtain ⟨tl, htl⟩ := load_eq_ok_drop.mp hb
      cases h
      exact ⟨[b], tl, htl, rfl, rfl, rfl⟩
    · rintro ⟨ext, tl, hdrop, hlen, rfl, rfl⟩
      obtain ⟨b, rfl⟩ := List.length_eq_one_iff.mp hlen
      exact bind_eq_ok.mpr ⟨b, load_eq_ok_drop.mpr ⟨tl, hdrop⟩, rfl⟩
  next =>
    split
    next =>
      constructor
      · intro h
        obtain ⟨b, hb, h⟩ := bind_eq_ok.mp h
        obtain ⟨c, hc, h⟩ := bind_eq_ok.mp h
        obtain ⟨tl, htl⟩ := load_eq_ok_drop.mp hb
        obtain ⟨tl', htl'⟩ := load_eq_ok_drop.mp hc
        rw [drop_add_one htl] at htl'
        cases h
        exact ⟨[b, c], tl', by rw [htl, htl']; rfl, rfl, rfl, rfl⟩
      · rintro ⟨ext, tl, hdrop, hlen, rfl, rfl⟩
        obtain ⟨b, c, rfl⟩ := List.length_eq_two.mp hlen
        refine bind_eq_ok.mpr ⟨b, load_eq_ok_drop.mpr ⟨c :: tl, hdrop⟩, ?_⟩
        exact bind_eq_ok.mpr ⟨c, load_eq_ok_drop.mpr ⟨tl, drop_add_one hdrop⟩, rfl⟩
    next =>
      constructor
      · intro h
        cases h
        exact ⟨[], d.drop ptr, rfl, rfl, rfl, rfl⟩
      · rintro ⟨ext, tl, hdrop, hlen, rfl, rfl⟩
        obtain rfl := List.length_eq_zero_iff.mp hlen
        rfl

theorem coapDeserializeOption_eq_ok {buf predeltas len : Nat} {option : ReceivedOption} :
    coapDeserializeOption d buf predeltas = .ok (option, len) ↔
      ∃ b delta length tl, d.drop buf = b :: (delta ++ (length ++ tl)) ∧
        delta.length = extendedLen (b.toNat / 16) ∧ length.length = extendedLen (b.toNat % 16) ∧
        option = ⟨(predeltas + extendedValue (b.toNat / 16) delta) % 65536,
          extendedValue (b.toNat % 16) length % 65536, buf + 1 + delta.length + length.length⟩ ∧
        len = 1 + delta.length + length.length + option.len := by
  constructor
  · intro h
    obtain ⟨b, hb, h⟩ := bind_eq_ok.mp h
    obtain ⟨⟨optdelta, ptr⟩, hreadDelta, h⟩ := bind_eq_ok.mp h
    obtain ⟨⟨optlen, ptr'⟩, hreadLength, h⟩ := bind_eq_ok.mp h
    obtain ⟨tl, htl⟩ := load_eq_ok_drop.mp hb
    obtain ⟨delta, tl', hdrop, hdelta, rfl, rfl⟩ := extended_eq_ok.mp hreadDelta
    rw [drop_add_one htl] at hdrop
    subst hdrop
    obtain ⟨length, tl'', hdrop, hlength, rfl, rfl⟩ := extended_eq_ok.mp hreadLength
    rw [drop_add (drop_add_one htl)] at hdrop
    subst hdrop
    cases h
    refine ⟨b, delta, length, tl'', htl, hdelta, hlength, rfl, ?_⟩
    dsimp only
    omega
  · rintro ⟨b, delta, length, tl, hdrop, hdelta, hlength, rfl, rfl⟩
    have hnext := drop_add_one hdrop
    have h₁ : extended d (b.toNat / 16) (buf + 1) =
        .ok (extendedValue (b.toNat / 16) delta, buf + 1 + delta.length) :=
      extended_eq_ok.mpr ⟨delta, _, hnext, hdelta, rfl, rfl⟩
    have h₂ : extended d (b.toNat % 16) (buf + 1 + delta.length) =
        .ok (extendedValue (b.toNat % 16) length, buf + 1 + delta.length + length.length) :=
      extended_eq_ok.mpr ⟨length, tl, drop_add hnext, hlength, rfl, rfl⟩
    rw [coapDeserializeOption, load_eq_ok_drop.mpr ⟨_, hdrop⟩, ok_bind, h₁, ok_bind]
    dsimp only
    rw [h₂, ok_bind]
    dsimp only
    congr 2
    omega

/-! ## The options -/

/-- The value lies inside the datagram. -/
def ReceivedOption.Inside (d : Bytes) (o : ReceivedOption) : Prop := o.val + o.len ≤ d.length

theorem optionsLoop_of_body {n : Nat} {rest : Bytes} (hbody : Body n rest)
    (hle : d.length ≤ coapMsgMaxPduLen) (buf : Nat) : ∀ (count optdeltas : Nat),
      d.drop (buf + count) = rest →
      ∃ options count', optionsLoop d buf ((d.length : Int) - buf) n count optdeltas =
          .ok (options, count') ∧
        (∀ o ∈ options, o.Inside d) ∧ ∃ payload, d.drop (buf + count') = 0xFF :: payload := by
  induction hbody with
  | payload =>
      intro count optdeltas hdrop
      have hlt := lt_length_of_drop hdrop
      refine ⟨[], count, ?_, nofun, _, hdrop⟩
      rw [optionsLoop.eq_def, if_pos (by omega), load_eq_ok_drop.mpr ⟨_, hdrop⟩, ok_bind,
        if_pos rfl]
  | @option n b delta length value rest hb hdelta hlength hvalue _ ih =>
      intro count optdeltas hdrop
      have hlt := lt_length_of_drop hdrop
      have hlen : d.length - (buf + count) =
          1 + delta.length + length.length + value.length + rest.length := by
        rw [← List.length_drop, hdrop]
        simp only [List.length_cons, List.length_append]
        omega
      have hmax : d.length ≤ 1280 := hle
      let option : ReceivedOption :=
        ⟨(optdeltas + extendedValue (b.toNat / 16) delta) % 65536, value.length,
          buf + count + 1 + delta.length + length.length⟩
      let len := 1 + delta.length + length.length + value.length
      have hoption : coapDeserializeOption d (buf + count) optdeltas = .ok (option, len) :=
        coapDeserializeOption_eq_ok.mpr
          ⟨b, delta, length, value ++ rest, hdrop, hdelta, hlength, by rw [← hvalue], rfl⟩
      have hnext : d.drop (buf + (count + len % 65536)) = rest := by
        have hlen : len = (b :: (delta ++ (length ++ value))).length := by
          simp only [len, List.length_cons, List.length_append]
          omega
        rw [Nat.mod_eq_of_lt (by omega), ← Nat.add_assoc, hlen]
        refine drop_add ?_
        rw [hdrop]
        simp only [List.cons_append, List.append_assoc]
      obtain ⟨options, count', hloop, hinside, hend⟩ := ih _ option.num hnext
      refine ⟨option :: options, count', ?_, ?_, hend⟩
      · rw [optionsLoop.eq_def, if_pos (by omega), load_eq_ok_drop.mpr ⟨_, hdrop⟩, ok_bind,
          if_neg hb]
        dsimp only
        rw [hoption, ok_bind]
        dsimp only
        rw [hloop, ok_bind]
      · intro o ho
        cases ho with
        | head =>
            simp only [ReceivedOption.Inside, option]
            omega
        | tail _ ho => exact hinside o ho

theorem body_of_optionsLoop (hle : d.length ≤ coapMsgMaxPduLen) {buf n : Nat} :
    ∀ {count optdeltas count' : Nat} {options : List ReceivedOption},
      optionsLoop d buf ((d.length : Int) - buf) n count optdeltas = .ok (options, count') →
      (∀ o ∈ options, o.Inside d) → d.drop (buf + count') ≠ [] →
      Body n (d.drop (buf + count)) ∧ d[buf + count']? = some 0xFF := by
  induction n with
  | zero =>
      intro count optdeltas count' options h _ hend
      rw [optionsLoop.eq_def] at h
      split at h
      next =>
        obtain ⟨b, hb, h⟩ := bind_eq_ok.mp h
        split at h
        next hmarker =>
          cases h
          subst hmarker
          obtain ⟨tl, htl⟩ := load_eq_ok_drop.mp hb
          exact ⟨by rw [htl]; exact .payload, load_eq_ok.mp hb⟩
        next => cases h
      next hover =>
        cases h
        exact absurd (List.drop_eq_nil_of_le (by omega)) hend
  | succ n ih =>
      intro count optdeltas count' options h hinside hend
      rw [optionsLoop.eq_def] at h
      split at h
      next =>
        obtain ⟨b, hb, h⟩ := bind_eq_ok.mp h
        obtain ⟨tl, htl⟩ := load_eq_ok_drop.mp hb
        split at h
        next hmarker =>
          cases h
          subst hmarker
          exact ⟨by rw [htl]; exact .payload, load_eq_ok.mp hb⟩
        next hmarker =>
          obtain ⟨⟨option, len⟩, hoption, h⟩ := bind_eq_ok.mp h
          obtain ⟨⟨options', count''⟩, hloop, h⟩ := bind_eq_ok.mp h
          cases h
          obtain ⟨b', delta, length, rest, hdrop, hdelta, hlength, rfl, rfl⟩ :=
            coapDeserializeOption_eq_ok.mp hoption
          obtain ⟨rfl, rfl⟩ : b = b' ∧ tl = delta ++ (length ++ rest) := by
            simpa [htl] using hdrop
          have hmax : d.length ≤ 1280 := hle
          have hfits := hinside _ List.mem_cons_self
          have hlen : d.length - (buf + count) =
              1 + delta.length + length.length + rest.length := by
            rw [← List.length_drop, hdrop]
            simp only [List.length_cons, List.length_append]
            omega
          have hlt := lt_length_of_drop hdrop
          obtain ⟨hbody, hmarker'⟩ :=
            ih hloop (fun o ho => hinside o (List.mem_cons_of_mem _ ho)) hend
          refine ⟨?_, hmarker'⟩
          dsimp only [ReceivedOption.Inside] at hfits hbody
          generalize hvalue : extendedValue (b.toNat % 16) length % 65536 = vlen at hfits hbody
          have hvlen : vlen ≤ rest.length := by omega
          rw [Nat.mod_eq_of_lt (by omega)] at hbody
          have hrest : d.drop (buf + (count + (1 + delta.length + length.length + vlen))) =
              rest.drop vlen := by
            have hbefore : d.drop (buf + count + (b :: (delta ++ length)).length) = rest :=
              drop_add (by rw [hdrop]; simp)
            rw [← hbefore, List.drop_drop]
            congr 1
            simp only [List.length_cons, List.length_append]
            omega
          rw [hrest] at hbody
          rw [hdrop, ← List.take_append_drop vlen rest]
          exact .option hmarker hdelta hlength (by rw [List.length_take_of_le hvlen, hvalue]) hbody
      next hover =>
        cases h
        exact absurd (List.drop_eq_nil_of_le (by omega)) hend

/-! ## The message -/

/-- The header of a datagram that starts with these bytes. -/
def headerOf (b0 b1 b2 b3 : UInt8) : MsgHeader :=
  ⟨b0.toNat / 64, b0.toNat / 16 % 4, b0.toNat % 16, b1.toNat, b2.toNat * 256 + b3.toNat⟩

theorem coapDeserializeHeader_cons (b0 b1 b2 b3 : UInt8) (tl : Bytes) :
    coapDeserializeHeader (b0 :: b1 :: b2 :: b3 :: tl) = .ok (headerOf b0 b1 b2 b3) := rfl

theorem coapDeserializeToken_eq_ok {ptr tokenlen : Nat} {token : Bytes} :
    coapDeserializeToken d ptr tokenlen = .ok token ↔
      loadN d ptr tokenlen = .ok token ∧ tokenlen ≤ coapMsgMaxTokenLen := by
  rw [coapDeserializeToken]
  constructor
  · intro h
    obtain ⟨token', hload, h⟩ := bind_eq_ok.mp h
    split at h
    · cases h
    next hle =>
      cases h
      exact ⟨hload, Nat.le_of_not_lt hle⟩
  · rintro ⟨hload, hle⟩
    rw [hload, ok_bind, if_neg (Nat.not_lt.mpr hle)]

/-- Options and payload lie inside the datagram. -/
structure Received.Inside (d : Bytes) (m : Received) : Prop where
  options : ∀ o ∈ m.options, o.Inside d
  payload : ∀ p, m.payload = some p → p + m.payloadlen ≤ d.length

theorem coapDeserializeMessage_of_complete (hcomplete : Complete d)
    (hle : d.length ≤ coapMsgMaxPduLen) :
    ∃ m, coapDeserializeMessage d = .ok (coapSuccess, m) ∧ m.Inside d := by
  cases hcomplete with
  | @mk b0 b1 b2 b3 token rest htoken hmax hbody =>
      have hdrop : (b0 :: b1 :: b2 :: b3 :: (token ++ rest)).drop (4 + token.length) = rest := by
        rw [← List.drop_drop]
        simp
      have hread : coapDeserializeToken (b0 :: b1 :: b2 :: b3 :: (token ++ rest)) 4
          (headerOf b0 b1 b2 b3).tokenlen = .ok token := by
        rw [headerOf, ← htoken]
        refine coapDeserializeToken_eq_ok.mpr ⟨?_, hmax⟩
        rw [loadN_of_le (by simp only [List.length_cons, List.length_append]; omega)]
        simp
      obtain ⟨options, count, hloop, hinside, payload, hend⟩ :=
        optionsLoop_of_body hbody hle (4 + token.length) 0 0 hdrop
      have hlt := lt_length_of_drop hend
      let buflen : Int :=
        (b0 :: b1 :: b2 :: b3 :: (token ++ rest)).length - ↑(4 + token.length) - count
      have hpayload : 4 + token.length + count + 1 + ((buflen - 1) % 65536).toNat ≤
          (b0 :: b1 :: b2 :: b3 :: (token ++ rest)).length := by
        simp only [buflen]
        omega
      refine ⟨⟨headerOf b0 b1 b2 b3, token, options, some (4 + token.length + count + 1),
        ((buflen - 1) % 65536).toNat⟩, ?_, hinside, fun p hp => by cases hp; exact hpayload⟩
      rw [coapDeserializeMessage, if_neg (by simp), coapDeserializeHeader_cons, ok_bind]
      dsimp only
      rw [hread, ok_bind, show (headerOf b0 b1 b2 b3).tokenlen = token.length from htoken.symm,
        coapDeserializeOptions, hloop, ok_bind]
      dsimp only
      rw [coapDeserializePayload, load_eq_ok_drop.mpr ⟨_, hend⟩, ok_bind, if_pos rfl]
      rfl

theorem complete_of_coapDeserializeMessage (hle : d.length ≤ coapMsgMaxPduLen) {m : Received}
    (h : coapDeserializeMessage d = .ok (coapSuccess, m)) (hinside : m.Inside d) : Complete d := by
  rw [coapDeserializeMessage] at h
  split at h
  · cases h
  next hlen =>
    obtain ⟨b0, b1, b2, b3, tl, rfl⟩ : ∃ b0 b1 b2 b3 tl, d = b0 :: b1 :: b2 :: b3 :: tl := by
      match d, hlen with
      | [], hlen | [_], hlen | [_, _], hlen | [_, _, _], hlen => exact absurd (by simp) hlen
      | b0 :: b1 :: b2 :: b3 :: tl, _ => exact ⟨b0, b1, b2, b3, tl, rfl⟩
    rw [coapDeserializeHeader_cons, ok_bind] at h
    dsimp only at h
    obtain ⟨token, htoken, h⟩ := bind_eq_ok.mp h
    obtain ⟨⟨options, count⟩, hloop, h⟩ := bind_eq_ok.mp h
    obtain ⟨⟨payload, payloadlen⟩, hpayload, h⟩ := bind_eq_ok.mp h
    cases h
    obtain ⟨b, hb, -⟩ := bind_eq_ok.mp hpayload
    obtain ⟨rest, hend⟩ := load_eq_ok_drop.mp hb
    obtain ⟨hload, hmax⟩ := coapDeserializeToken_eq_ok.mp htoken
    have hlength := loadN_length hload
    obtain ⟨-, -, htake⟩ := loadN_eq_ok.mp hload
    obtain ⟨hbody, -⟩ := body_of_optionsLoop hle hloop hinside.options (by rw [hend]; nofun)
    replace htake : token = tl.take (b0.toNat % 16) := htake
    have hsplit : tl = token ++ tl.drop (b0.toNat % 16) := by
      rw [htake, List.take_append_drop]
    have hbody : Body coapMsgMaxOptionNum (tl.drop (b0.toNat % 16)) := by
      rw [Nat.add_zero, ← List.drop_drop] at hbody
      exact hbody
    rw [hsplit]
    exact .mk hlength (hlength ▸ hmax) hbody

/-- `CoAPMessage_handle` takes the message for an ACK or for a response. -/
def dispatched (header : MsgHeader) : Bool := coapAckMsg header || coapRespMsg header

/-- A datagram that fits the receive buffer. -/
structure Datagram where
  bytes : Bytes
  le : bytes.length ≤ coapMsgMaxPduLen

/-- The parser comes through with an error after which no handler runs, or with options and
a payload inside the datagram, exactly if the datagram is too short for a header or complete. -/
theorem deserialize_iff (d : Datagram) :
    (∃ ret m, coapDeserializeMessage d.bytes = .ok (ret, m) ∧
      if ret = coapSuccess then m.Inside d.bytes else dispatched m.header = false) ↔
    d.bytes.length < 4 ∨ Complete d.bytes := by
  constructor
  · rintro ⟨ret, m, h, hm⟩
    by_cases hlen : d.bytes.length < 4
    · exact Or.inl hlen
    · have hret : ret = coapSuccess := by
        rw [coapDeserializeMessage, if_neg hlen] at h
        obtain ⟨_, -, h⟩ := bind_eq_ok.mp h
        obtain ⟨_, -, h⟩ := bind_eq_ok.mp h
        obtain ⟨_, -, h⟩ := bind_eq_ok.mp h
        obtain ⟨_, -, h⟩ := bind_eq_ok.mp h
        cases h
        rfl
      subst hret
      rw [if_pos rfl] at hm
      exact Or.inr (complete_of_coapDeserializeMessage d.le h hm)
  · rintro (hlen | hcomplete)
    · exact ⟨coapErrorInvalidLength, .zero, if_pos hlen, rfl⟩
    · obtain ⟨m, h, hinside⟩ := coapDeserializeMessage_of_complete hcomplete d.le
      exact ⟨coapSuccess, m, h, by rwa [if_pos rfl]⟩

/-- A token of nine bytes does not fit. -/
theorem not_deserialize_token :
    ¬∀ d : Datagram, ∃ ret m, coapDeserializeMessage d.bytes = .ok (ret, m) ∧
      if ret = coapSuccess then m.Inside d.bytes else dispatched m.header = false := by
  intro hall
  obtain ⟨ret, m, h, -⟩ := hall ⟨[0x49, 0x45, 0, 1, 0, 0, 0, 0, 0, 0, 0, 0, 0, 0xFF], by decide⟩
  have hfault : coapDeserializeMessage [0x49, 0x45, 0, 1, 0, 0, 0, 0, 0, 0, 0, 0, 0, 0xFF] =
      .error .store := by decide
  rw [hfault] at h
  cases h

/-- An empty ACK has no payload marker, and the parser looks for one after its end. -/
example : coapDeserializeMessage [0x60, 0, 0, 1] = .error .load := by decide

end IotKit.Coap
