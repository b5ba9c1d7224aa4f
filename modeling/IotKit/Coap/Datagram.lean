import IotKit.Coap.Client

/-!
# Datagrams of requests

Which messages `CoAPMessage_send` hands to the network as they are.  The length that it
tests has 16 bits, so that a message may pass the test and still not fit.  It is then cut off
in front of its payload.
-/

namespace IotKit.Coap

open CMemory

/-- A message up to its payload. -/
def Message.head (m : Message) : Bytes :=
  coapSerializeHeader m.header ++ (m.token ++ coapSerializeOptions m)

/-- The marker and the payload after it. -/
def payloadBytes (payload : Bytes) : Bytes := if payload = [] then [] else 0xFF :: payload

/-- The whole message. -/
def Message.datagram (m : Message) : Bytes := m.head ++ payloadBytes (m.payload.getD [])

/-- The lengths in the message are those of its token and its payload. -/
structure Message.Formed (m : Message) (bytes : Bytes) : Prop where
  tokenlen : m.header.tokenlen = m.token.length
  payload : m.payload = some bytes
  payloadlen : m.payloadlen = bytes.length

/-- The lengths are those of the token and of the payload, which may be missing. -/
structure Message.Sized (m : Message) : Prop where
  tokenlen : m.header.tokenlen = m.token.length
  payloadlen : m.payloadlen = (m.payload.getD []).length

/-- The length of the option is 0 in 16 bits. -/
def MsgOption.Vanishes (option : MsgOption) : Prop :=
  (coapSerializeOption option).length % 65536 = 0

instance (option : MsgOption) : Decidable option.Vanishes := inferInstanceAs (Decidable (_ = _))

/-- What the options count for in the length that is tested. -/
def Message.countedOptions (m : Message) : Nat :=
  if ∃ option ∈ m.options, option.Vanishes then 0 else (coapSerializeOptions m).length

/-- The length that is tested, before it is cut to 16 bits. -/
def Message.countedLength (m : Message) : Nat :=
  4 + m.token.length + m.countedOptions + (payloadBytes (m.payload.getD [])).length

/-- The message fits into a datagram, and so does a marker in any case. -/
def Message.Fits (m : Message) : Prop := m.head.length + m.payloadlen + 1 ≤ coapMsgMaxPduLen

instance (m : Message) : Decidable m.Fits := inferInstanceAs (Decidable (_ ≤ _))

/-- The buffer that a message was written to. -/
def Message.sendbuf (m : Message) : Bytes :=
  m.datagram ++ List.replicate (coapMsgMaxPduLen - m.datagram.length) 0

variable {m : Message} {payload : Bytes}

theorem Message.Formed.sized (h : m.Formed payload) : m.Sized where
  tokenlen := h.tokenlen
  payloadlen := by rw [h.payload, h.payloadlen, Option.getD_some]

/-! ## Lengths -/

theorem payloadBytes_length (payload : Bytes) :
    (payloadBytes payload).length = if 0 < payload.length then payload.length + 1 else 0 := by
  cases payload with
  | nil => rfl
  | cons b bs => rfl

theorem optionExtended_length (n : Nat) :
    (optionExtended n).length = if 269 ≤ n then 2 else if 13 ≤ n then 1 else 0 := by
  rw [optionExtended]
  split
  · rfl
  split
  · rfl
  · rfl

theorem optionExtended_le (n : Nat) : (optionExtended n).length ≤ 2 := by
  rw [optionExtended_length]
  split
  · exact Nat.le_refl _
  split
  · decide
  · decide

theorem coapSerializeOptionLen_eq (option : MsgOption) :
    coapSerializeOptionLen option = (coapSerializeOption option).length % 65536 := by
  rw [coapSerializeOptionLen, coapSerializeOption, List.length_cons, List.length_append,
    List.length_append, optionExtended_length, optionExtended_length]
  congr 1
  omega

theorem MsgOption.vanishes_iff (option : MsgOption) :
    option.Vanishes ↔ ¬0 < coapSerializeOptionLen option := by
  rw [MsgOption.Vanishes, ← coapSerializeOptionLen_eq, Nat.pos_iff_ne_zero, ne_eq, not_not]

/-- One option whose length is 0 makes the sum 0. -/
theorem optionsLenLoop_eq {options : List MsgOption} :
    ∀ {count : Nat}, count < 65536 → optionsLenLoop options count =
      if ∃ option ∈ options, option.Vanishes then 0
      else (count + (options.flatMap coapSerializeOption).length) % 65536 := by
  induction options with
  | nil =>
      intro count hcount
      rw [optionsLenLoop, if_neg (by rintro ⟨option, hmem, -⟩; cases hmem)]
      exact (Nat.mod_eq_of_lt hcount).symm
  | cons option options ih =>
      intro count hcount
      have hexists : (∃ other ∈ option :: options, other.Vanishes) ↔
          ¬0 < coapSerializeOptionLen option ∨ ∃ other ∈ options, other.Vanishes := by
        rw [← option.vanishes_iff, List.exists_mem_cons_iff]
      rw [optionsLenLoop]
      split
      next hpos =>
        rw [ih (Nat.mod_lt _ (by decide)), List.flatMap_cons, List.length_append]
        have hrest := hexists.trans (or_iff_right (not_not.mpr hpos))
        split
        next hvanish => rw [if_pos (hrest.mpr hvanish)]
        next hvanish =>
          rw [if_neg fun h => hvanish (hrest.mp h), coapSerializeOptionLen_eq]
          omega
      next hzero => rw [if_pos (hexists.mpr (.inl hzero))]

theorem coapSerializeOptionsLen_eq (m : Message) :
    coapSerializeOptionsLen m = m.countedOptions % 65536 := by
  rw [coapSerializeOptionsLen, optionsLenLoop_eq (by decide), Message.countedOptions,
    coapSerializeOptions, Nat.zero_add]
  split
  · rfl
  · rfl

/-- Options that together have less than 65536 bytes all count. -/
theorem Message.countedOptions_of_lt (h : (coapSerializeOptions m).length < 65536) :
    m.countedOptions = (coapSerializeOptions m).length := by
  refine if_neg ?_
  rintro ⟨option, hmem, hvanish⟩
  have hle : (coapSerializeOption option).length ≤ (coapSerializeOptions m).length := by
    obtain ⟨before, after, hsplit⟩ := List.append_of_mem hmem
    rw [coapSerializeOptions, hsplit, List.flatMap_append, List.flatMap_cons, List.length_append,
      List.length_append]
    omega
  have hpos : 0 < (coapSerializeOption option).length := Nat.succ_pos _
  rw [MsgOption.Vanishes, Nat.mod_eq_of_lt (Nat.lt_of_le_of_lt hle h)] at hvanish
  exact absurd hvanish (Nat.ne_of_gt hpos)

theorem Message.Sized.datagram_length (h : m.Sized) :
    m.datagram.length = m.head.length + if 0 < m.payloadlen then m.payloadlen + 1 else 0 := by
  rw [Message.datagram, List.length_append, payloadBytes_length, h.payloadlen]

theorem Message.Sized.datagram_le (h : m.Sized) (hfits : m.Fits) :
    m.datagram.length ≤ coapMsgMaxPduLen := by
  have hlength : m.head.length + m.payloadlen + 1 ≤ coapMsgMaxPduLen := hfits
  rw [h.datagram_length]
  split
  · omega
  · omega

/-- The length that is tested. -/
theorem Message.Sized.messageLength (h : m.Sized) :
    coapSerializeMessageLength m = m.countedLength % 65536 := by
  rw [coapSerializeMessageLength, coapSerializeOptionsLen_eq, Message.countedLength,
    payloadBytes_length, ← h.payloadlen, h.tokenlen]
  omega

/-- Where the message up to its payload is below 65536 bytes, the length of the datagram is
tested. -/
theorem Message.countedLength_of_lt (h : m.head.length < 65536) :
    m.countedLength = m.datagram.length := by
  have hheader : (coapSerializeHeader m.header).length = 4 := rfl
  have hhead := h
  rw [Message.head, List.length_append, List.length_append, hheader] at hhead
  rw [Message.countedLength, Message.countedOptions_of_lt (by omega), Message.datagram,
    Message.head, List.length_append, List.length_append, List.length_append, hheader]
  omega

theorem Message.Fits.head_lt (h : m.Fits) : m.head.length < 65536 := by
  have hlength : m.head.length + m.payloadlen + 1 ≤ coapMsgMaxPduLen := h
  rw [coapMsgMaxPduLen] at hlength
  omega

/-- A message that fits passes the test. -/
theorem Message.Sized.not_long (h : m.Sized) (hfits : m.Fits) :
    ¬coapMsgMaxPduLen < coapSerializeMessageLength m := by
  rw [h.messageLength, m.countedLength_of_lt hfits.head_lt]
  exact Nat.not_lt.mpr (Nat.le_trans (Nat.mod_le _ _) (h.datagram_le hfits))

/-! ## Writing -/

theorem Message.sendbuf_take (m : Message) : m.sendbuf.take m.datagram.length = m.datagram := by
  rw [Message.sendbuf, List.take_left]

/-- A message that fits is written as it is. -/
theorem Message.Sized.serialized (h : m.Sized) (hfits : m.Fits) :
    coapSerializeMessage m coapMsgMaxPduLen = .ok (m.sendbuf, m.datagram.length) := by
  have hlength : m.head.length + m.payloadlen + 1 ≤ coapMsgMaxPduLen := hfits
  have hhead : ¬coapMsgMaxPduLen < m.head.length := by omega
  have hroom : ¬coapMsgMaxPduLen - m.head.length < m.payloadlen + 1 := by omega
  rw [coapSerializeMessage]
  dsimp only
  rw [← Message.head, if_neg hhead, if_neg hroom, Message.sendbuf, Message.datagram,
    List.length_append, Nat.sub_add_eq, List.append_assoc]
  cases hpayload : m.payload with
  | none => rfl
  | some payload =>
      have hpart : (if 0 < m.payloadlen then 0xFF :: payload else []) = payloadBytes payload := by
        rw [h.payloadlen, hpayload]
        cases payload with
        | nil => rfl
        | cons b bs => rfl
      dsimp only
      rw [hpart, Option.getD_some]

/-- A message that does not fit loses a byte. -/
theorem Message.Sized.cut (h : m.Sized) (hfits : ¬m.Fits) {buf : Bytes} {msglen : Nat}
    (hout : coapSerializeMessage m coapMsgMaxPduLen = .ok (buf, msglen)) :
    msglen < m.datagram.length := by
  have hlength : ¬m.head.length + m.payloadlen + 1 ≤ coapMsgMaxPduLen := hfits
  rw [coapSerializeMessage] at hout
  dsimp only at hout
  rw [← Message.head] at hout
  split at hout
  · cases hout
  next hhead =>
    rw [if_pos (by omega)] at hout
    cases hout
    have hpos : 0 < m.head.length := Nat.succ_pos _
    rw [h.datagram_length]
    omega

/-! ## Sending -/

section Send

variable {context : Context} {id : Nat} {write : Bool} {alloc : Allocation}

/-- What becomes of a message that was serialized. -/
theorem coapMessageSend_of_serialized {out : Bytes × Nat}
    (hshort : ¬coapMsgMaxPduLen < coapSerializeMessageLength m)
    (hout : coapSerializeMessage m coapMsgMaxPduLen = .ok out) :
    ∃ sent, coapMessageSend context m id write alloc = .ok sent ∧
      sent.ret = (if write then coapSuccess else coapErrorWriteFailed) ∧
      sent.written = if write then some (out.1.take out.2) else none := by
  rw [coapMessageSend, if_neg hshort, hout, ok_bind]
  dsimp only
  cases write with
  | false => exact ⟨_, rfl, rfl, rfl⟩
  | true =>
      rw [if_neg (by decide)]
      split
      · exact ⟨_, rfl, rfl, rfl⟩
      · exact ⟨_, rfl, rfl, rfl⟩

/-- What was sent, or refused for its length. -/
theorem coapMessageSend_cases {sent : Sent}
    (hsent : coapMessageSend context m id write alloc = .ok sent) :
    coapMsgMaxPduLen < coapSerializeMessageLength m ∧ sent.ret = coapErrorDataSize ∧
        sent.written = none ∨
      ¬coapMsgMaxPduLen < coapSerializeMessageLength m ∧
        ∃ out, coapSerializeMessage m coapMsgMaxPduLen = .ok out ∧
          sent.ret = (if write then coapSuccess else coapErrorWriteFailed) ∧
          sent.written = if write then some (out.1.take out.2) else none := by
  by_cases hlong : coapMsgMaxPduLen < coapSerializeMessageLength m
  · rw [coapMessageSend, if_pos hlong] at hsent
    cases hsent
    exact .inl ⟨hlong, rfl, rfl⟩
  · obtain ⟨out, hout⟩ := coapMessageSend_serialized hsent (Nat.not_lt.mp hlong)
    obtain ⟨sent', hsent', hret, hwritten⟩ := coapMessageSend_of_serialized hlong hout
    cases hsent.symm.trans hsent'
    exact .inr ⟨hlong, out, hout, hret, hwritten⟩

/-- A message that fits, and what becomes of it. -/
theorem Message.Sized.send_fits (h : m.Sized) (hfits : m.Fits) (context : Context) (id : Nat)
    (write : Bool) (alloc : Allocation) :
    ∃ sent, coapMessageSend context m id write alloc = .ok sent ∧
      (write = true → sent.ret = coapSuccess ∧ sent.written = some m.datagram) := by
  obtain ⟨sent, hsent, hret, hwritten⟩ :=
    coapMessageSend_of_serialized (h.not_long hfits) (h.serialized hfits)
  refine ⟨sent, hsent, fun hwrite => ?_⟩
  rw [hret, hwritten, if_pos hwrite, if_pos hwrite]
  dsimp only
  rw [m.sendbuf_take]
  exact ⟨rfl, rfl⟩

/-- What is written whole fits. -/
theorem Message.Sized.fits_of_written (h : m.Sized) {sent : Sent}
    (hsent : coapMessageSend context m id write alloc = .ok sent)
    (hwritten : sent.written = some m.datagram) : m.Fits ∧ write = true := by
  rcases coapMessageSend_cases hsent with ⟨-, -, hnone⟩ | ⟨-, out, hout, -, hsome⟩
  · cases hnone.symm.trans hwritten
  cases write with
  | false => cases hsome.symm.trans hwritten
  | true =>
      refine ⟨Decidable.byContradiction fun hnot => ?_, rfl⟩
      have hcut := h.cut hnot hout
      have hlengths := congrArg List.length (Option.some.inj (hsome.symm.trans hwritten))
      rw [List.length_take] at hlengths
      omega

end Send

/-! ## Requests -/

/-- Short texts are split without a fault. -/
theorem segmentsLoop_ok {separator : UInt8} {optnum : Nat} {rest : Bytes} :
    ∀ {segment : Bytes} (m : Message), segment.length + rest.length < coapMsgMaxPathLen →
      ∃ m', segmentsLoop separator optnum segment rest m = .ok m' := by
  induction rest with
  | nil => exact fun m _ => ⟨m, rfl⟩
  | cons c rest ih =>
      intro segment m hlength
      rw [List.length_cons] at hlength
      have hadd : ∃ m₁, (if c = separator ∧ segment ≠ [] then segmentAdd m optnum segment
          else .ok m) = .ok m₁ := by
        split
        · rw [segmentAdd, if_neg (by omega), if_neg (by omega)]
          exact ⟨_, rfl⟩
        · exact ⟨_, rfl⟩
      obtain ⟨m₁, hadd⟩ := hadd
      rw [segmentsLoop, hadd, ok_bind]
      refine ih _ ?_
      split
      · rw [List.length_nil]
        omega
      · rw [List.length_append, List.length_singleton]
        omega

theorem segmentsOption_ok {separator : UInt8} {optnum : Nat} {text : Bytes} (m : Message)
    (hlength : text.length < coapMsgMaxPathLen) :
    ∃ m', segmentsOption separator optnum (some text) m = .ok m' := by
  have hmax : text.length ≤ iotxUriMaxLen := Nat.le_trans (Nat.le_of_lt hlength) (by decide)
  rw [segmentsOption, if_neg (Nat.not_lt.mpr hmax)]
  exact segmentsLoop_ok m (by rw [List.length_nil, Nat.zero_add]; exact hlength)

/-- A request with a short path and a short query is made, and it is well formed. -/
theorem clientMessage_formed (client : CoapClient) {p : IotxMessage} {url query payload : Bytes}
    (hurl : p.url = some url) (hquery : p.querystr = some query)
    (hpayload : p.payload = some payload) (hu : url.length < coapMsgMaxPathLen)
    (hq : query.length < coapMsgMaxPathLen) :
    ∃ m client', clientMessage false client p = .ok (m, client') ∧ m.Formed payload := by
  have hfill : ∀ m : Message, ∃ m', fillMessage p m = .ok m' ∧ m'.payload = some payload ∧
      m'.payloadlen = payload.length := by
    intro m
    obtain ⟨m₁, hpath⟩ := segmentsOption_ok m hu
    obtain ⟨m₂, hqueries⟩ := segmentsOption_ok
      (coapUintOptionAdd m₁ coapOptionContentFormat (if p.cbor then 60 else 50)) hq
    rw [fillMessage, iotxPath2Option, hurl, hpath, ok_bind]
    dsimp only
    rw [iotxQuerystr2Option, hquery, hqueries, ok_bind, hpayload]
    exact ⟨_, rfl, rfl, rfl⟩
  obtain ⟨m', hm', hpay, hlen⟩ := hfill _
  have hmessage : clientMessage false client p = .ok (m', _) := bind_eq_ok.mpr ⟨m', hm', rfl⟩
  obtain ⟨hheader, htoken, -⟩ := clientMessage_eq_ok hmessage
  exact ⟨m', _, hmessage, by rw [hheader, htoken]; rfl, hpay, hlen⟩

end IotKit.Coap
