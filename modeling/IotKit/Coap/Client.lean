import IotKit.Coap.Context

/-!
# The CoAP client

`iotx_coap_client.c`: requests are built from a URL, a query and a payload, with a token and
a message id of their own.
-/

namespace IotKit.Coap

open CMemory

/-- `IOTX_URI_MAX_LEN`. -/
def iotxUriMaxLen : Nat := 135
/-- `COAP_MSG_MAX_PATH_LEN`. -/
def coapMsgMaxPathLen : Nat := 128
/-- `IOTX_COAP_INIT_TOKEN`. -/
def iotxCoapInitToken : Nat := 0x01020304
/-- `IOTX_LIST_MAX_ITEM`. -/
def iotxListMaxItem : Nat := 10

/-- `iotx_message_t`.  The URL and the query may be NULL, and so may the payload, whose length
is `payload_len`. -/
structure IotxMessage where
  payload : Option Bytes
  url : Option Bytes
  querystr : Option Bytes
  method : Nat
  cbor : Bool
  respCallback : Option Nat
deriving DecidableEq, Repr

/-- The fields of `iotx_coap_t` that the client needs to send, and how many requests it has
sent. -/
structure CoapClient where
  coapToken : Nat
  context : Context
  sends : Nat
deriving DecidableEq, Repr

/-- `IOT_CoAP_Init`. -/
def iotCoapInit : CoapClient := ⟨iotxCoapInitToken, coapContextCreate iotxListMaxItem, 0⟩

/-- The bytes of `iotx_get_coap_token`. -/
def tokenBytes (value : Nat) : Bytes :=
  [UInt8.ofNat value, UInt8.ofNat (value / 256), UInt8.ofNat (value / 65536),
    UInt8.ofNat (value / 16777216)]

/-- `iotx_get_coap_token`. -/
def iotxGetCoapToken (client : CoapClient) : Bytes × CoapClient :=
  (tokenBytes client.coapToken, { client with coapToken := (client.coapToken + 1) % 2 ^ 32 })

/-! ## Options -/

/-- A segment before a separator: it is copied to a buffer and measured there. -/
def segmentAdd (message : Message) (optnum : Nat) (segment : Bytes) : Checked Message :=
  if coapMsgMaxPathLen < segment.length then .error .store
  else if coapMsgMaxPathLen = segment.length then .error .load
  else .ok (coapStrOptionAdd message optnum segment)

/-- The loop of `iotx_path_2_option` and of `iotx_querystr_2_option`: `segment` has been
read since the last separator.  The last segment is cut to the buffer. -/
def segmentsLoop (separator : UInt8) (optnum : Nat) :
    (segment rest : Bytes) → Message → Checked Message
  | _, [], message => .ok message
  | segment, c :: rest, message => do
      let message ←
        (if c = separator ∧ segment ≠ [] then segmentAdd message optnum segment
        else .ok message)
      let segment := if c = separator then [] else segment ++ [c]
      let message :=
        if rest = [] ∧ segment ≠ [] then
          coapStrOptionAdd message optnum (segment.take (coapMsgMaxPathLen - 1))
        else message
      segmentsLoop separator optnum segment rest message

/-- `iotx_path_2_option` and `iotx_querystr_2_option`.  Their callers do not look at the
result. -/
def segmentsOption (separator : UInt8) (optnum : Nat) (text : Option Bytes) (message : Message) :
    Checked Message :=
  match text with
  | none => .ok message
  | some text =>
      if iotxUriMaxLen < text.length then .ok message
      else segmentsLoop separator optnum [] text message

def iotxPath2Option (uri : Option Bytes) (message : Message) : Checked Message :=
  segmentsOption 47 coapOptionUriPath uri message

def iotxQuerystr2Option (querystr : Option Bytes) (message : Message) : Checked Message :=
  segmentsOption 38 coapOptionUriQuery querystr message

/-! ## Requests -/

/-- The options and the payload of a request. -/
def fillMessage (p : IotxMessage) (message : Message) : Checked Message := do
  let message ← iotxPath2Option p.url message
  let message := coapUintOptionAdd message coapOptionContentFormat (if p.cbor then 60 else 50)
  let message ← iotxQuerystr2Option p.querystr message
  let message := coapUintOptionAdd message coapOptionAccept 42
  match p.payload with
  | none => .ok message
  | some payload => .ok (coapMessagePayloadSet message payload payload.length)

/-- What `IOT_CoAP_Client_Send` and `IOT_CoAP_Client_Observe_Send` do before they send. -/
def clientMessage (observe : Bool) (client : CoapClient) (p : IotxMessage) :
    Checked (Message × CoapClient) := do
  let message := coapMessageTypeSet coapMessageInit coapMessageTypeCon
  let message := coapMessageCodeSet message p.method
  let (msgid, context) := coapMessageIdGen client.context
  let message := coapMessageIdSet message msgid
  let (token, client) := iotxGetCoapToken { client with context }
  let message := coapMessageTokenSet message token
  let message := coapMessageHandlerSet message p.respCallback
  let message := if observe then coapUintOptionAdd message coapOptionObserve 0 else message
  let message ← fillMessage p message
  .ok (message, client)

/-- The two functions differ in one option. -/
def clientSend (observe : Bool) (client : CoapClient) (p : IotxMessage) (write : Bool)
    (alloc : Allocation) : Checked (Sent × CoapClient) := do
  let (message, client) ← clientMessage observe client p
  let sent ← coapMessageSend client.context message client.sends write alloc
  .ok (sent, { client with context := sent.context, sends := client.sends + 1 })

/-- `IOT_CoAP_Client_Send`. -/
def iotCoapClientSend (client : CoapClient) (p : IotxMessage) (write : Bool)
    (alloc : Allocation) : Checked (Sent × CoapClient) :=
  clientSend false client p write alloc

/-- `IOT_CoAP_Client_Observe_Send`. -/
def iotCoapClientObserveSend (client : CoapClient) (p : IotxMessage) (write : Bool)
    (alloc : Allocation) : Checked (Sent × CoapClient) :=
  clientSend true client p write alloc

/-! ## What a request is made of -/

/-- The fields that options and payload leave alone. -/
structure Message.SameRequest (m m' : Message) : Prop where
  header : m'.header = m.header
  token : m'.token = m.token
  observer : m'.observer = m.observer
  handler : m'.handler = m.handler

theorem Message.SameRequest.refl (m : Message) : m.SameRequest m := ⟨rfl, rfl, rfl, rfl⟩

theorem Message.SameRequest.trans {m m' m'' : Message} (h : m.SameRequest m')
    (h' : m'.SameRequest m'') : m.SameRequest m'' :=
  ⟨h'.header.trans h.header, h'.token.trans h.token, h'.observer.trans h.observer,
    h'.handler.trans h.handler⟩

theorem coapStrOptionAdd_same (m : Message) (optnum : Nat) (data : Bytes) :
    m.SameRequest (coapStrOptionAdd m optnum data) := by
  rw [coapStrOptionAdd]
  split
  · exact .refl m
  · exact ⟨rfl, rfl, rfl, rfl⟩

theorem coapUintOptionAdd_same (m : Message) {optnum : Nat} (hnum : optnum ≠ coapOptionObserve)
    (data : Nat) : m.SameRequest (coapUintOptionAdd m optnum data) := by
  rw [coapUintOptionAdd]
  split
  · exact .refl m
  · exact coapStrOptionAdd_same m optnum _

theorem segmentsLoop_same {separator : UInt8} {optnum : Nat} {rest : Bytes} :
    ∀ {segment : Bytes} {m m' : Message},
      segmentsLoop separator optnum segment rest m = .ok m' → m.SameRequest m' := by
  induction rest with
  | nil =>
      intro segment m m' h
      cases h
      exact .refl m
  | cons c rest ih =>
      intro segment m m' h
      obtain ⟨m₁, hsegment, h⟩ := bind_eq_ok.mp h
      have h₁ : m.SameRequest m₁ := by
        split at hsegment
        · rw [segmentAdd] at hsegment
          split at hsegment
          · cases hsegment
          split at hsegment
          · cases hsegment
          · cases hsegment
            exact coapStrOptionAdd_same m optnum segment
        · cases hsegment
          exact .refl m
      have h₂ : ∀ last : Bytes, m₁.SameRequest
          (if rest = [] ∧ last ≠ [] then
            coapStrOptionAdd m₁ optnum (last.take (coapMsgMaxPathLen - 1))
          else m₁) := by
        intro last
        split
        · exact coapStrOptionAdd_same m₁ optnum _
        · exact .refl m₁
      exact h₁.trans ((h₂ _).trans (ih h))

theorem segmentsOption_same {separator : UInt8} {optnum : Nat} {text : Option Bytes}
    {m m' : Message} (h : segmentsOption separator optnum text m = .ok m') : m.SameRequest m' := by
  cases text with
  | none =>
      cases h
      exact .refl m
  | some text =>
      rw [segmentsOption] at h
      split at h
      · cases h
        exact .refl m
      · exact segmentsLoop_same h

theorem fillMessage_same {p : IotxMessage} {m m' : Message} (h : fillMessage p m = .ok m') :
    m.SameRequest m' := by
  obtain ⟨m₁, hpath, h⟩ := bind_eq_ok.mp h
  obtain ⟨m₂, hquery, h⟩ := bind_eq_ok.mp h
  have h₁ := segmentsOption_same hpath
  have h₂ := (coapUintOptionAdd_same m₁ (by decide) _).trans (segmentsOption_same hquery)
  have h₃ := coapUintOptionAdd_same m₂ (show coapOptionAccept ≠ coapOptionObserve by decide) 42
  refine (h₁.trans h₂).trans (h₃.trans ?_)
  cases hpayload : p.payload with
  | none =>
      rw [hpayload] at h
      cases h
      exact .refl _
  | some payload =>
      rw [hpayload] at h
      cases h
      exact ⟨rfl, rfl, rfl, rfl⟩

/-- The request with the next id and the next token. -/
theorem clientMessage_eq_ok {observe : Bool} {client client' : CoapClient} {p : IotxMessage}
    {m : Message} (h : clientMessage observe client p = .ok (m, client')) :
    m.header = ⟨1, coapMessageTypeCon, 4, p.method, (coapMessageIdGen client.context).1⟩ ∧
      m.token = tokenBytes client.coapToken ∧
      m.observer = (if observe then coapRegisteredObserve else coapDeregisterObserve) ∧
      m.handler = p.respCallback ∧
      client' = ⟨(client.coapToken + 1) % 2 ^ 32, (coapMessageIdGen client.context).2,
        client.sends⟩ := by
  obtain ⟨m', hfill, h⟩ := bind_eq_ok.mp h
  cases h
  have hsame := fillMessage_same hfill
  cases observe with
  | false => exact ⟨hsame.header, hsame.token, hsame.observer, hsame.handler, rfl⟩
  | true => exact ⟨hsame.header, hsame.token, hsame.observer, hsame.handler, rfl⟩

end IotKit.Coap
