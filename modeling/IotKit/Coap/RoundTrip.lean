import IotKit.Coap.Datagram

/-!
# Reading back what was written

A message that was built with the functions of `CoAPMessage.c`, as `CoAPMessage_send` puts it in
its buffer and as `CoAPDeserialize_Message` reads it there.

An option is stored with the difference to the number before it, of which 8 bits are kept, so
that it is read back with its own number only if the one before it is below 256 (`follows_iff`).
A number of 256 is stored in one byte.  Otherwise what is written is read back, if it fits; the
reader finds what the writer put one option after the other (`decoded`).
-/

namespace IotKit.Coap

open CMemory

/-! ## Messages that are built -/

/-- A call of `CoAPStrOption_add` or of `CoAPUintOption_add`. -/
inductive OptionCall where
  | str (optnum : UInt16) (data : Bytes) (datalen : data.length < 2 ^ 16)
  | uint (optnum : UInt16) (data : UInt32)
deriving DecidableEq, Repr

namespace OptionCall

def optnum : OptionCall → Nat
  | .str optnum _ _ => optnum.toNat
  | .uint optnum _ => optnum.toNat

/-- The value that is stored. -/
def value : OptionCall → Bytes
  | .str _ data _ => data
  | .uint _ data => uintValue data.toNat

def add (message : Message) : OptionCall → Message
  | .str optnum data _ => coapStrOptionAdd message optnum.toNat data
  | .uint optnum data => coapUintOptionAdd message optnum.toNat data.toNat

/-- A big-endian number. -/
def bigEndian (bs : Bytes) : Nat := bs.foldl (fun n b => n * 256 + b.toNat) 0

/-- The value is what was added. -/
def Means : OptionCall → Bytes → Prop
  | .str _ data _, value => value = data
  | .uint _ data, value => bigEndian value = data.toNat

/-- The number is not 256. -/
def Fitting : OptionCall → Prop
  | .str _ _ _ => True
  | .uint _ data => data ≠ 256

instance (call : OptionCall) : Decidable call.Fitting := by
  cases call
  · exact inferInstanceAs (Decidable True)
  · exact inferInstanceAs (Decidable (_ ≠ _))

end OptionCall

/-- What a message is built from. -/
structure Draft where
  type : Nat
  code : UInt8
  msgid : UInt16
  token : Bytes
  calls : List OptionCall
  payload : Option Bytes
  typeLt : type < 4
  few : calls.length ≤ coapMsgMaxOptionNum
  ascending : calls.Pairwise fun call later => call.optnum ≤ later.optnum
  payloadlen : (payload.getD []).length < 2 ^ 16

namespace Draft

/-- The message without options and payload. -/
def start (d : Draft) : Message :=
  let message := coapMessageTypeSet coapMessageInit d.type
  let message := coapMessageCodeSet message d.code.toNat
  let message := coapMessageIdSet message d.msgid.toNat
  coapMessageTokenSet message d.token

/-- The message. -/
def message (d : Draft) : Message :=
  let message := d.calls.foldl OptionCall.add d.start
  match d.payload with
  | none => message
  | some payload => coapMessagePayloadSet message payload payload.length

end Draft

/-! ## Reading from a buffer -/

/-- `CoAPDeserialize_Message` of the first `buflen` bytes of a buffer. -/
def coapDeserializeBuffer (buf : Bytes) (buflen : Nat) : Checked (Int × Received) :=
  if buflen < 4 then .ok (coapErrorInvalidLength, .zero)
  else do
    let header ← coapDeserializeHeader buf
    let token ← coapDeserializeToken buf 4 header.tokenlen
    let ptr := 4 + header.tokenlen
    let remlen := (buflen : Int) - ptr
    let (options, count) ← coapDeserializeOptions buf ptr remlen
    let (payload, payloadlen) ← coapDeserializePayload buf (ptr + count) (remlen - count)
    .ok (coapSuccess, ⟨header, token, options, payload, payloadlen⟩)

/-- A buffer that is the datagram. -/
theorem coapDeserializeMessage_eq (d : Bytes) :
    coapDeserializeMessage d = coapDeserializeBuffer d d.length := rfl

/-! ## One option -/

theorem optionNibble_le (n : Nat) : optionNibble n ≤ 14 := by
  rw [optionNibble]
  split
  · decide
  split
  · decide
  · omega

theorem extendedLen_nibble (n : Nat) :
    (optionExtended n).length = extendedLen (optionNibble n) := by
  rw [optionExtended_length, extendedLen, optionNibble]
  split
  · rfl
  split
  · rfl
  · rw [if_neg (by omega), if_neg (by omega)]

theorem extendedValue_nibble {n : Nat} (h : n < 2 ^ 16) :
    extendedValue (optionNibble n) (optionExtended n) = n := by
  rw [optionExtended, optionNibble]
  split
  · simp only [extendedValue, UInt8.toNat_ofNat']
    omega
  split
  · simp only [extendedValue, UInt8.toNat_ofNat']
    omega
  · rfl

section Read

variable {d : Bytes} {option : MsgOption}

/-- The first byte of an option. -/
def firstByte (option : MsgOption) : UInt8 :=
  UInt8.ofNat (optionNibble option.num * 16 + optionNibble option.val.length)

theorem firstByte_toNat (option : MsgOption) :
    (firstByte option).toNat / 16 = optionNibble option.num ∧
      (firstByte option).toNat % 16 = optionNibble option.val.length := by
  have hnum := optionNibble_le option.num
  have hlen := optionNibble_le option.val.length
  rw [firstByte, UInt8.toNat_ofNat', Nat.mod_eq_of_lt (by omega)]
  omega

theorem firstByte_ne (option : MsgOption) : firstByte option ≠ 0xFF := by
  intro heq
  have hnum := optionNibble_le option.num
  rw [← (firstByte_toNat option).1, heq] at hnum
  exact absurd hnum (by decide)

/-- Where the value of an option at an address is. -/
def valueAt (buf : Nat) (option : MsgOption) : Nat :=
  buf + 1 + (optionExtended option.num).length + (optionExtended option.val.length).length

theorem serializeOption_length (option : MsgOption) :
    (coapSerializeOption option).length =
      1 + (optionExtended option.num).length + (optionExtended option.val.length).length +
        option.val.length := by
  rw [coapSerializeOption, List.length_cons, List.length_append, List.length_append]
  omega

theorem serializeOption_split {buf : Nat} {rest : Bytes}
    (hdrop : d.drop buf = coapSerializeOption option ++ rest) :
    d.drop buf = firstByte option :: (optionExtended option.num ++
      (optionExtended option.val.length ++ (option.val ++ rest))) := by
  rw [hdrop, coapSerializeOption, List.cons_append, List.append_assoc, List.append_assoc]
  rfl

/-- An option is read as it was written, with the number that follows from the one before. -/
theorem deserializeOption_serialized {buf predeltas : Nat} {rest : Bytes}
    (hdrop : d.drop buf = coapSerializeOption option ++ rest) (hnum : option.num < 2 ^ 16)
    (hlen : option.val.length < 2 ^ 16) :
    coapDeserializeOption d buf predeltas =
      .ok (⟨(predeltas + option.num) % 65536, option.val.length, valueAt buf option⟩,
        (coapSerializeOption option).length) := by
  obtain ⟨hdelta, hlength⟩ := firstByte_toNat option
  have hmod : option.val.length % 65536 = option.val.length := Nat.mod_eq_of_lt hlen
  refine coapDeserializeOption_eq_ok.mpr ⟨firstByte option, optionExtended option.num,
    optionExtended option.val.length, option.val ++ rest, serializeOption_split hdrop, ?_, ?_, ?_,
    serializeOption_length option⟩
  · rw [hdelta, extendedLen_nibble]
  · rw [hlength, extendedLen_nibble]
  · rw [hdelta, hlength, extendedValue_nibble hnum, extendedValue_nibble hlen, hmod,
      valueAt]

/-- Its value is there. -/
theorem load_value {buf : Nat} {rest : Bytes}
    (hdrop : d.drop buf = coapSerializeOption option ++ rest) :
    loadN d (valueAt buf option : Nat) option.val.length = .ok option.val := by
  have hsplit := serializeOption_split hdrop
  have hvalue : d.drop (valueAt buf option) = option.val ++ rest :=
    drop_add (drop_add (drop_add_one hsplit))
  have hle : valueAt buf option + option.val.length ≤ d.length := by
    have hlength := congrArg List.length hdrop
    rw [List.length_drop, List.length_append, serializeOption_length] at hlength
    rw [valueAt]
    omega
  rw [loadN_of_le hle, hvalue, List.take_left]

/-! ## All options -/

/-- What the reader makes of the options that start at an address. -/
def decoded : Nat → Nat → List MsgOption → List ReceivedOption
  | _, _, [] => []
  | buf, predeltas, option :: rest =>
      ⟨(predeltas + option.num) % 65536, option.val.length, valueAt buf option⟩ ::
        decoded (buf + (coapSerializeOption option).length) ((predeltas + option.num) % 65536) rest

/-- The options that were written one after the other are read one after the other, up to the
end of the message or to a marker. -/
theorem optionsLoop_serialized {options : List MsgOption} {rest : Bytes} {buf : Nat} {buflen : Int}
    {slots : Nat} (hsmall : ∀ option ∈ options, option.num < 2 ^ 16 ∧ option.val.length < 60000)
    (hslots : options.length ≤ slots) :
    ∀ {count : Nat} (optdeltas : Nat),
      d.drop (buf + count) = options.flatMap coapSerializeOption ++ rest →
      ((count + (options.flatMap coapSerializeOption).length : Nat) : Int) = buflen ∨
        ((count + (options.flatMap coapSerializeOption).length : Nat) : Int) < buflen ∧
          (∃ payload, rest = 0xFF :: payload) →
      optionsLoop d buf buflen slots count optdeltas =
        .ok (decoded (buf + count) optdeltas options,
          count + (options.flatMap coapSerializeOption).length) := by
  induction options generalizing slots with
  | nil =>
      intro count optdeltas hdrop hend
      rw [List.flatMap_nil, List.length_nil, Nat.add_zero] at hend
      rw [optionsLoop.eq_def]
      rcases hend with hend | ⟨hend, payload, rfl⟩
      · rw [if_neg (by omega)]
        rfl
      · rw [if_pos hend, load_eq_ok_drop.mpr ⟨payload, hdrop⟩, ok_bind, if_pos rfl]
        rfl
  | cons option options ih =>
      intro count optdeltas hdrop hend
      obtain ⟨hnum, hlen⟩ := hsmall option List.mem_cons_self
      rw [List.flatMap_cons, List.append_assoc] at hdrop
      rw [List.flatMap_cons, List.length_append] at hend ⊢
      have hlength := serializeOption_length option
      have hext := optionExtended_le option.num
      have hext' := optionExtended_le option.val.length
      obtain _ | slots := slots
      · exact absurd hslots (Nat.not_succ_le_zero _)
      have hmod : (coapSerializeOption option).length % 65536 =
          (coapSerializeOption option).length := Nat.mod_eq_of_lt (by omega)
      have hnext : d.drop (buf + (count + (coapSerializeOption option).length)) =
          options.flatMap coapSerializeOption ++ rest := by
        rw [← Nat.add_assoc]
        exact drop_add hdrop
      have hrest := ih (fun option hmem => hsmall option (List.mem_cons_of_mem _ hmem))
        (Nat.le_of_succ_le_succ hslots) ((optdeltas + option.num) % 65536) hnext
        (by rwa [Nat.add_assoc])
      rw [optionsLoop.eq_def, if_pos (by omega),
        load_eq_ok_drop.mpr ⟨_, serializeOption_split hdrop⟩, ok_bind, if_neg (firstByte_ne option)]
      dsimp only
      rw [deserializeOption_serialized hdrop hnum (by omega), ok_bind]
      dsimp only
      rw [hmod, hrest, ok_bind, decoded, Nat.add_assoc, Nat.add_assoc]

end Read

/-! ## The options that were added -/

/-- What is stored for the calls, where the last number ends in `optdelta`. -/
def stored : Nat → List OptionCall → List MsgOption
  | _, [] => []
  | optdelta, call :: rest =>
      ⟨(call.optnum + 65536 - optdelta) % 65536, call.value⟩ :: stored (call.optnum % 256) rest

/-- The message has more options and nothing else is changed. -/
structure Message.Extends (m : Message) (options : List MsgOption) (m' : Message) : Prop where
  options : m'.options = m.options ++ options
  header : m'.header = m.header
  token : m'.token = m.token
  payload : m'.payload = m.payload
  payloadlen : m'.payloadlen = m.payloadlen

theorem OptionCall.add_extends {m : Message} (call : OptionCall)
    (hroom : m.options.length < coapMsgMaxOptionNum) :
    m.Extends [⟨(call.optnum + 65536 - m.optdelta) % 65536, call.value⟩] (call.add m) ∧
      (call.add m).optdelta = call.optnum % 256 := by
  have hfull := Nat.not_le.mpr hroom
  cases call with
  | str optnum data datalen =>
      rw [OptionCall.add, coapStrOptionAdd, if_neg hfull]
      exact ⟨⟨rfl, rfl, rfl, rfl, rfl⟩, rfl⟩
  | uint optnum data =>
      rw [OptionCall.add, coapUintOptionAdd, if_neg hfull]
      dsimp only
      split
      · rw [coapStrOptionAdd, if_neg hfull]
        exact ⟨⟨rfl, rfl, rfl, rfl, rfl⟩, rfl⟩
      · rw [coapStrOptionAdd, if_neg hfull]
        exact ⟨⟨rfl, rfl, rfl, rfl, rfl⟩, rfl⟩

theorem foldl_extends {calls : List OptionCall} :
    ∀ {m : Message}, m.options.length + calls.length ≤ coapMsgMaxOptionNum →
      m.Extends (stored m.optdelta calls) (calls.foldl OptionCall.add m) := by
  induction calls with
  | nil => exact fun _ => ⟨(List.append_nil _).symm, rfl, rfl, rfl, rfl⟩
  | cons call rest ih =>
      intro m hroom
      rw [List.length_cons] at hroom
      obtain ⟨h, hdelta⟩ := call.add_extends (m := m) (by omega)
      have hrest := ih (m := call.add m) (by
        rw [h.options, List.length_append, List.length_singleton]
        omega)
      rw [hdelta] at hrest
      refine ⟨?_, hrest.header.trans h.header, hrest.token.trans h.token,
        hrest.payload.trans h.payload, hrest.payloadlen.trans h.payloadlen⟩
      rw [List.foldl_cons, hrest.options, h.options, List.append_assoc]
      rfl

/-- What a message is made of. -/
theorem Draft.message_parts (d : Draft) :
    d.message.header = ⟨1, d.type, d.message.token.length, d.code.toNat, d.msgid.toNat⟩ ∧
      d.message.token.length ≤ coapMsgMaxTokenLen ∧ d.message.options = stored 0 d.calls ∧
      d.message.payload = d.payload ∧ d.message.payloadlen = (d.payload.getD []).length := by
  have hstart : d.start.header = ⟨1, d.type, d.start.token.length, d.code.toNat, d.msgid.toNat⟩ ∧
      d.start.token.length ≤ coapMsgMaxTokenLen ∧ d.start.options = [] ∧ d.start.optdelta = 0 ∧
      d.start.payload = none ∧ d.start.payloadlen = 0 := by
    rw [Draft.start, coapMessageTokenSet]
    split
    · exact ⟨rfl, Nat.zero_le _, rfl, rfl, rfl, rfl⟩
    next hle => exact ⟨rfl, Nat.not_lt.mp hle, rfl, rfl, rfl, rfl⟩
  obtain ⟨hheader, htoken, hoptions, hdelta, hpayload, hpayloadlen⟩ := hstart
  have hall := @foldl_extends d.calls d.start (by
    rw [hoptions, List.length_nil, Nat.zero_add]
    exact d.few)
  rw [hdelta] at hall
  rw [Draft.message]
  cases hp : d.payload with
  | none =>
      dsimp only
      rw [hall.header, hall.token, hall.options, hall.payload, hall.payloadlen, hoptions, hpayload,
        hpayloadlen]
      exact ⟨hheader, htoken, rfl, rfl, rfl⟩
  | some payload =>
      dsimp only
      rw [coapMessagePayloadSet]
      dsimp only
      rw [hall.header, hall.token, hall.options, hoptions]
      exact ⟨hheader, htoken, rfl, rfl, rfl⟩

/-! ## What is read back -/

/-- An option is read with the number and the value that were added. -/
def Reads (buf : Bytes) (option : ReceivedOption) (call : OptionCall) : Prop :=
  option.num = call.optnum ∧
    ∃ value, loadN buf option.val option.len = .ok value ∧ call.Means value

/-- The numbers that another follows are below 256, from the one before the options on, and no
value is 256. -/
def Follows : Nat → List OptionCall → Prop
  | _, [] => True
  | before, call :: rest => before < 256 ∧ call.Fitting ∧ Follows call.optnum rest

theorem follows_iff {before : Nat} {calls : List OptionCall} :
    Follows before calls ↔ (calls ≠ [] → before < 256) ∧
      (∀ call ∈ calls.dropLast, call.optnum < 256) ∧ ∀ call ∈ calls, call.Fitting := by
  induction calls generalizing before with
  | nil => exact ⟨fun _ => ⟨nofun, nofun, nofun⟩, fun _ => trivial⟩
  | cons call rest ih =>
      rw [Follows, ih]
      cases rest with
      | nil =>
          rw [List.forall_mem_singleton]
          exact ⟨fun h => ⟨fun _ => h.1, nofun, h.2.1⟩,
            fun h => ⟨h.1 nofun, h.2.2, nofun, nofun, nofun⟩⟩
      | cons next rest =>
          rw [List.dropLast_cons_cons, List.forall_mem_cons (l := next :: rest),
            List.forall_mem_cons (l := (next :: rest).dropLast)]
          exact ⟨fun h => ⟨fun _ => h.1, ⟨h.2.2.1 nofun, h.2.2.2.1⟩, h.2.1, h.2.2.2.2⟩,
            fun h => ⟨h.1 nofun, h.2.2.1, fun _ => h.2.1.1, h.2.1.2, h.2.2.2⟩⟩

theorem OptionCall.optnum_lt (call : OptionCall) : call.optnum < 2 ^ 16 := by
  cases call with
  | str optnum data datalen => exact optnum.toNat_lt
  | uint optnum data => exact optnum.toNat_lt

theorem OptionCall.means_value (call : OptionCall) : call.Means call.value ↔ call.Fitting := by
  cases call with
  | str optnum data datalen => exact ⟨fun _ => trivial, fun _ => rfl⟩
  | uint optnum data =>
      have hlt := data.toNat_lt
      have hne : data ≠ 256 ↔ data.toNat ≠ 256 := by
        rw [ne_eq, ← UInt32.toNat_inj]
        rfl
      rw [OptionCall.Means, OptionCall.Fitting, OptionCall.value, uintValue, hne]
      split
      next h => simp only [bigEndian, List.foldl_nil]; omega
      split
      next h =>
        simp only [bigEndian, List.foldl_cons, List.foldl_nil, UInt8.toNat_ofNat']
        omega
      split
      next h =>
        simp only [bigEndian, List.foldl_cons, List.foldl_nil, UInt8.toNat_ofNat']
        omega
      next h =>
        simp only [bigEndian, List.foldl_cons, List.foldl_nil, UInt8.toNat_ofNat']
        omega

/-- The options are read as they were added if the numbers follow each other. -/
theorem decoded_reads {d rest : Bytes} {calls : List OptionCall} :
    ∀ {buf before : Nat},
      d.drop buf = (stored (before % 256) calls).flatMap coapSerializeOption ++ rest →
      (∀ call ∈ calls, before ≤ call.optnum) →
      calls.Pairwise (fun call later => call.optnum ≤ later.optnum) →
      (List.Forall₂ (Reads d) (decoded buf before (stored (before % 256) calls)) calls ↔
        Follows before calls) := by
  induction calls with
  | nil => exact fun _ _ _ => ⟨fun _ => trivial, fun _ => .nil⟩
  | cons call calls ih =>
      intro buf before hdrop hbefore hascending
      obtain ⟨hlater, hascending⟩ := List.pairwise_cons.mp hascending
      have hle := hbefore call List.mem_cons_self
      have hlt := call.optnum_lt
      rw [stored, List.flatMap_cons, List.append_assoc] at hdrop
      have hvalue := load_value hdrop
      have hnum : (before + (call.optnum + 65536 - before % 256) % 65536) % 65536 = call.optnum ↔
          before < 256 := by
        omega
      rw [stored, decoded, List.forall₂_cons, Follows, Reads, ← call.means_value, and_assoc]
      dsimp only at hvalue ⊢
      rw [hnum, hvalue]
      refine and_congr_right fun hsmall => and_congr ?_ ?_
      · exact ⟨fun ⟨value, hload, hmeans⟩ => by cases hload; exact hmeans,
          fun hmeans => ⟨_, rfl, hmeans⟩⟩
      · rw [hnum.mpr hsmall]
        exact ih (drop_add hdrop) hlater hascending

/-! ## The payload -/

/-- The payload is read. -/
def PayloadRead (buf : Bytes) (r : Received) (payload : Bytes) : Prop :=
  r.payloadlen = payload.length ∧
    match r.payload with
    | none => payload = []
    | some off => loadN buf off r.payloadlen = .ok payload

section Read

variable {d zeros payload : Bytes} {ptr : Nat}

/-- The marker and the payload up to the end of the message, or the zeros after its end. -/
theorem deserializePayload_written (hdrop : d.drop ptr = payloadBytes payload ++ zeros)
    (hzero : payload = [] → ∃ more, zeros = 0 :: more) (hlen : payload.length < 2 ^ 16) :
    ∃ off len, coapDeserializePayload d ptr (payloadBytes payload).length = .ok (off, len) ∧
      len = payload.length ∧
        match (off : Option Nat) with
        | none => payload = []
        | some off => loadN d off len = .ok payload := by
  rw [coapDeserializePayload]
  cases payload with
  | nil =>
      obtain ⟨more, rfl⟩ := hzero rfl
      rw [load_eq_ok_drop.mpr ⟨more, hdrop⟩, ok_bind, if_neg (by decide)]
      exact ⟨none, 0, rfl, rfl, rfl⟩
  | cons b bs =>
      have hcons : d.drop ptr = 0xFF :: (b :: bs ++ zeros) := hdrop
      have hmod :
          (((payloadBytes (b :: bs)).length - 1 : Int) % 65536).toNat = (b :: bs).length := by
        have hpos : 0 < (b :: bs).length := Nat.succ_pos _
        rw [payloadBytes_length, if_pos hpos]
        omega
      have hnext := drop_add_one hcons
      have hle : ptr + 1 + (b :: bs).length ≤ d.length := by
        have hlength := congrArg List.length hcons
        rw [List.length_drop, List.length_cons, List.length_append] at hlength
        omega
      rw [load_eq_ok_drop.mpr ⟨_, hcons⟩, ok_bind, if_pos rfl, hmod]
      refine ⟨some (ptr + 1), _, rfl, rfl, ?_⟩
      dsimp only
      rw [loadN_of_le hle, hnext, List.take_left]

end Read

/-! ## The draft -/

namespace Draft

/-- The message is read from a buffer as it was built. -/
structure Recovered (d : Draft) (buf : Bytes) (r : Received) : Prop where
  header : r.header = d.message.header
  token : r.token = d.message.token
  options : List.Forall₂ (Reads buf) r.options d.calls
  payload : PayloadRead buf r (d.payload.getD [])

section Fits

variable {d : Draft}

theorem sized (d : Draft) : d.message.Sized := by
  obtain ⟨hheader, -, -, hpayload, hpayloadlen⟩ := d.message_parts
  constructor
  · rw [hheader]
  · rw [hpayload, hpayloadlen]

theorem stored_num {calls : List OptionCall} {optdelta : Nat} :
    ∀ option ∈ stored optdelta calls, option.num < 2 ^ 16 := by
  induction calls generalizing optdelta with
  | nil => nofun
  | cons call rest ih =>
      rw [stored, List.forall_mem_cons]
      exact ⟨Nat.mod_lt _ (by decide), ih⟩

theorem stored_length {calls : List OptionCall} {optdelta : Nat} :
    (stored optdelta calls).length = calls.length := by
  induction calls generalizing optdelta with
  | nil => rfl
  | cons call rest ih => rw [stored, List.length_cons, List.length_cons, ih]

theorem value_le {options : List MsgOption} :
    ∀ option ∈ options, option.val.length ≤ (options.flatMap coapSerializeOption).length := by
  induction options with
  | nil => nofun
  | cons option rest ih =>
      rw [List.forall_mem_cons, List.flatMap_cons, List.length_append]
      refine ⟨?_, fun other hmem => Nat.le_trans (ih other hmem) (Nat.le_add_left _ _)⟩
      rw [serializeOption_length]
      omega

/-- The bytes of the options. -/
def optionBytes (d : Draft) : Bytes := (stored 0 d.calls).flatMap coapSerializeOption

/-- The bytes from the payload to the end of the buffer. -/
def payloadOn (d : Draft) : Bytes :=
  payloadBytes (d.payload.getD []) ++
    List.replicate (coapMsgMaxPduLen - d.message.datagram.length) 0

/-- The parts of the buffer. -/
theorem sendbuf_parts (d : Draft) :
    d.message.sendbuf =
      coapSerializeHeader d.message.header ++
        (d.message.token ++ (d.optionBytes ++ d.payloadOn)) := by
  obtain ⟨-, -, hoptions, hpayload, -⟩ := d.message_parts
  simp only [Message.sendbuf, Message.datagram, Message.head, coapSerializeOptions, hoptions,
    hpayload, optionBytes, payloadOn, List.append_assoc]

theorem drop_token (d : Draft) :
    d.message.sendbuf.drop 4 = d.message.token ++ (d.optionBytes ++ d.payloadOn) := by
  have hheaderlen : (coapSerializeHeader d.message.header).length = 4 := rfl
  rw [d.sendbuf_parts]
  exact List.drop_left' hheaderlen

theorem drop_options (d : Draft) :
    d.message.sendbuf.drop (4 + d.message.token.length) = d.optionBytes ++ d.payloadOn :=
  drop_add d.drop_token

theorem head_length (d : Draft) :
    d.message.head.length = 4 + d.message.token.length + d.optionBytes.length := by
  obtain ⟨-, -, hoptions, -⟩ := d.message_parts
  have hheaderlen : (coapSerializeHeader d.message.header).length = 4 := rfl
  rw [Message.head, List.length_append, List.length_append, hheaderlen, coapSerializeOptions,
    hoptions, Nat.add_assoc, optionBytes]

theorem datagram_length (d : Draft) :
    d.message.datagram.length =
      d.message.head.length + (payloadBytes (d.payload.getD [])).length := by
  obtain ⟨-, -, -, hpayload, -⟩ := d.message_parts
  rw [Message.datagram, List.length_append, hpayload]

/-- The header is read as it was written. -/
theorem deserialize_header (d : Draft) :
    coapDeserializeHeader d.message.sendbuf = .ok d.message.header := by
  obtain ⟨hheader, htoken, -⟩ := d.message_parts
  have htype := d.typeLt
  have hcode := d.code.toNat_lt
  have hmsgid := d.msgid.toNat_lt
  rw [coapMsgMaxTokenLen] at htoken
  rw [d.sendbuf_parts, hheader, coapSerializeHeader]
  refine (coapDeserializeHeader_cons _ _ _ _ _).trans ?_
  rw [headerOf]
  simp only [UInt8.toNat_ofNat']
  congr 2
  · omega
  · omega
  · omega
  · omega
  · omega

theorem deserialize_token (d : Draft) :
    coapDeserializeToken d.message.sendbuf 4 d.message.header.tokenlen = .ok d.message.token := by
  obtain ⟨-, htoken, -⟩ := d.message_parts
  have hle : 4 + d.message.token.length ≤ d.message.sendbuf.length := by
    have hdatagram := d.datagram_length
    have hhead := d.head_length
    rw [Message.sendbuf, List.length_append]
    omega
  rw [d.sized.tokenlen]
  refine coapDeserializeToken_eq_ok.mpr ⟨?_, htoken⟩
  rw [loadN_of_le hle, d.drop_token, List.take_left]

/-- All options are read, up to the marker or to the end of the message. -/
theorem deserialize_options (hfits : d.message.Fits) :
    coapDeserializeOptions d.message.sendbuf (4 + d.message.token.length)
        ((d.message.datagram.length : Int) - (4 + d.message.token.length : Nat)) =
      .ok (decoded (4 + d.message.token.length) 0 (stored 0 d.calls), d.optionBytes.length) := by
  have hlength : d.message.head.length + d.message.payloadlen + 1 ≤ coapMsgMaxPduLen := hfits
  have hhead := d.head_length
  have hsmall : ∀ option ∈ stored 0 d.calls,
      option.num < 2 ^ 16 ∧ option.val.length < 60000 := fun option hmem => by
    have hvalue : option.val.length ≤ d.optionBytes.length := value_le option hmem
    rw [coapMsgMaxPduLen] at hlength
    exact ⟨stored_num option hmem, by omega⟩
  have hend : ((0 + d.optionBytes.length : Nat) : Int) =
        (d.message.datagram.length : Int) - (4 + d.message.token.length : Nat) ∨
      ((0 + d.optionBytes.length : Nat) : Int) <
        (d.message.datagram.length : Int) - (4 + d.message.token.length : Nat) ∧
        ∃ payload, d.payloadOn = 0xFF :: payload := by
    have hdatagram := d.datagram_length
    rw [payloadBytes_length] at hdatagram
    cases hbytes : d.payload.getD [] with
    | nil =>
        rw [hbytes, List.length_nil, if_neg (Nat.lt_irrefl 0)] at hdatagram
        exact .inl (by omega)
    | cons b bs =>
        have hpos : 0 < (b :: bs).length := Nat.succ_pos _
        rw [hbytes, if_pos hpos] at hdatagram
        exact .inr ⟨by omega, _, by rw [payloadOn, hbytes]; rfl⟩
  have hslots := Nat.le_trans (Nat.le_of_eq (@stored_length d.calls 0)) d.few
  have hloop := @optionsLoop_serialized _ _ _ (4 + d.message.token.length) _ _ hsmall hslots 0 0
    d.drop_options hend
  rw [Nat.zero_add] at hloop
  exact hloop

theorem deserialize_payload (hfits : d.message.Fits) :
    ∃ off len, coapDeserializePayload d.message.sendbuf
        (4 + d.message.token.length + d.optionBytes.length)
        (payloadBytes (d.payload.getD [])).length = .ok (off, len) ∧
      len = (d.payload.getD []).length ∧
        match (off : Option Nat) with
        | none => d.payload.getD [] = []
        | some off => loadN d.message.sendbuf off len = .ok (d.payload.getD []) := by
  refine deserializePayload_written (drop_add d.drop_options) (fun hnil => ?_) d.payloadlen
  -- the byte after a message without a payload is in the buffer
  have hlength : d.message.head.length + d.message.payloadlen + 1 ≤ coapMsgMaxPduLen := hfits
  have hdatagram := d.datagram_length
  rw [hnil, payloadBytes_length, List.length_nil, if_neg (Nat.lt_irrefl 0)] at hdatagram
  have hroom : coapMsgMaxPduLen - d.message.datagram.length ≠ 0 := by omega
  obtain ⟨more, hmore⟩ := Nat.exists_eq_succ_of_ne_zero hroom
  exact ⟨_, by rw [hmore, List.replicate_succ]⟩

theorem deserialize_sendbuf (hfits : d.message.Fits) :
    ∃ r, coapDeserializeBuffer d.message.sendbuf d.message.datagram.length =
        .ok (coapSuccess, r) ∧
      r.header = d.message.header ∧ r.token = d.message.token ∧
      r.options = decoded (4 + d.message.token.length) 0 (stored 0 d.calls) ∧
      PayloadRead d.message.sendbuf r (d.payload.getD []) := by
  have hdatagram := d.datagram_length
  have hhead := d.head_length
  obtain ⟨off, len, hpay, hpaylen, hpayload⟩ := deserialize_payload hfits
  have hlast : (d.message.datagram.length : Int) - (4 + d.message.token.length : Nat) -
      (d.optionBytes.length : Nat) = (payloadBytes (d.payload.getD [])).length := by
    omega
  refine ⟨⟨d.message.header, d.message.token, _, off, len⟩, ?_, rfl, rfl, rfl, hpaylen, hpayload⟩
  rw [coapDeserializeBuffer, if_neg (by omega), d.deserialize_header, ok_bind]
  dsimp only
  rw [d.deserialize_token, ok_bind, d.sized.tokenlen, deserialize_options hfits, ok_bind]
  dsimp only
  rw [hlast, hpay, ok_bind]

/-- A message that fits is read as it was built if its options are. -/
theorem recovered_iff (hfits : d.message.Fits) :
    (∃ r, coapDeserializeBuffer d.message.sendbuf d.message.datagram.length =
        .ok (coapSuccess, r) ∧ d.Recovered d.message.sendbuf r) ↔
      (∀ call ∈ d.calls.dropLast, call.optnum < 256) ∧ ∀ call ∈ d.calls, call.Fitting := by
  obtain ⟨r, hread, hheader, htoken, hoptions, hpayload⟩ := deserialize_sendbuf hfits
  have hreads : List.Forall₂ (Reads d.message.sendbuf) r.options d.calls ↔
      Follows 0 d.calls := by
    rw [hoptions]
    exact decoded_reads d.drop_options (fun _ _ => Nat.zero_le _) d.ascending
  have hfollows : Follows 0 d.calls ↔
      (∀ call ∈ d.calls.dropLast, call.optnum < 256) ∧ ∀ call ∈ d.calls, call.Fitting := by
    rw [follows_iff, and_iff_right fun _ => (by decide : 0 < 256)]
  rw [← hfollows, ← hreads]
  constructor
  · rintro ⟨r', hread', hrecovered⟩
    cases hread.symm.trans hread'
    exact hrecovered.options
  · exact fun hall => ⟨r, hread, hheader, htoken, hall, hpayload⟩

end Fits

/-- The message is refused for its length, or it is in the buffer with its length and is read from
it as it was built. -/
def Inverted (d : Draft) (context : Context) (id : Nat) (write : Bool) (alloc : Allocation) :
    Prop :=
  ∃ sent, coapMessageSend context d.message id write alloc = .ok sent ∧
    (sent.ret = coapErrorDataSize ∨
      ∃ sendbuf msglen, coapSerializeMessage d.message coapMsgMaxPduLen = .ok (sendbuf, msglen) ∧
        msglen = d.message.datagram.length ∧ coapSerializeMessageLength d.message = msglen ∧
        msglen ≤ coapMsgMaxPduLen ∧
        ∃ r, coapDeserializeBuffer sendbuf msglen = .ok (coapSuccess, r) ∧ d.Recovered sendbuf r)

/-- The length that is tested is over the limit in 16 bits, or the message and a marker fit, each
number that another follows is below 256, and no number of 256 is added. -/
def Invertible (d : Draft) : Prop :=
  coapMsgMaxPduLen < d.message.countedLength % 65536 ∨
    d.message.Fits ∧ (∀ call ∈ d.calls.dropLast, call.optnum < 256) ∧
      ∀ call ∈ d.calls, call.Fitting

instance (d : Draft) : Decidable d.Invertible :=
  inferInstanceAs (Decidable (_ ∨ _ ∧ (∀ _ ∈ _, _) ∧ ∀ _ ∈ _, _))

section Send

variable {d : Draft} {context : Context} {id : Nat} {write : Bool} {alloc : Allocation}

/-- A message whose length is in order is not refused for it. -/
theorem send_ret {m : Message} (hshort : ¬coapMsgMaxPduLen < coapSerializeMessageLength m)
    {sent : Sent} (h : coapMessageSend context m id write alloc = .ok sent) :
    sent.ret ≠ coapErrorDataSize := by
  rcases coapMessageSend_cases h with ⟨hlong, -⟩ | ⟨-, out, -, hret, -⟩
  · exact absurd hlong hshort
  · rw [hret]
    cases write
    · decide
    · decide

/-- A message that fits. -/
theorem inverted_fits (hfits : d.message.Fits) :
    d.Inverted context id write alloc ↔
      (∀ call ∈ d.calls.dropLast, call.optnum < 256) ∧ ∀ call ∈ d.calls, call.Fitting := by
  have hle := d.sized.datagram_le hfits
  have hlength : coapSerializeMessageLength d.message = d.message.datagram.length := by
    rw [d.sized.messageLength, d.message.countedLength_of_lt hfits.head_lt, Nat.mod_eq_of_lt]
    rw [coapMsgMaxPduLen] at hle
    omega
  have hshort := d.sized.not_long hfits
  have hserialized := d.sized.serialized hfits
  rw [← recovered_iff hfits]
  constructor
  · rintro ⟨sent, hsent, hinverted⟩
    obtain ⟨sendbuf, msglen, hout, -, -, -, hr⟩ := hinverted.resolve_left (send_ret hshort hsent)
    cases hserialized.symm.trans hout
    exact hr
  · intro hr
    obtain ⟨sent, hsent, -⟩ := coapMessageSend_of_serialized hshort hserialized
    exact ⟨sent, hsent, .inr ⟨_, _, hserialized, rfl, hlength, hle, hr⟩⟩

end Send

/-- A message that was built is refused for its length or written and read back as it was built,
exactly under these conditions on its options and its length. -/
theorem inverted_iff (d : Draft) (context : Context) (id : Nat) (write : Bool)
    (alloc : Allocation) : d.Inverted context id write alloc ↔ d.Invertible := by
  have hmod := d.sized.messageLength
  rw [Invertible, ← hmod]
  by_cases hlong : coapMsgMaxPduLen < coapSerializeMessageLength d.message
  · refine ⟨fun _ => .inl hlong, fun _ => ⟨⟨coapErrorDataSize, none, context⟩, ?_, .inl rfl⟩⟩
    rw [coapMessageSend, if_pos hlong]
  · rw [or_iff_right hlong]
    by_cases hfits : d.message.Fits
    · rw [inverted_fits hfits, and_iff_right hfits]
    · refine ⟨?_, fun h => absurd h.1 hfits⟩
      rintro ⟨sent, hsent, hinverted⟩
      obtain ⟨sendbuf, msglen, hout, hlen, -⟩ := hinverted.resolve_left (send_ret hlong hsent)
      exact absurd hlen (Nat.ne_of_lt (d.sized.cut hfits hout))

/-- A confirmable request with a content format of 256. -/
def format256 : Draft where
  type := 0
  code := 1
  msgid := 1
  token := []
  calls := [.uint 12 256]
  payload := none
  typeLt := by decide
  few := by decide
  ascending := by decide
  payloadlen := by decide

/-- The value is read as 0. -/
theorem format256_not_inverted :
    ¬format256.Inverted (coapContextCreate 10) 0 true ⟨true, true⟩ := by
  rw [inverted_fits (by decide : format256.message.Fits)]
  rintro ⟨-, hfitting⟩
  exact hfitting (.uint 12 256) List.mem_cons_self rfl

end Draft

end IotKit.Coap
