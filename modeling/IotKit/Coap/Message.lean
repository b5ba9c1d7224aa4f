import IotKit.Config
import IotKit.Lib.Memory

/-!
# CoAP messages

The data types of `CoAPExport.h` and the functions of `CoAPMessage.c` that fill in a
message before it is sent.  Allocation of an option's value succeeds.
-/

namespace IotKit.Coap

open CMemory

/-! ## Return codes and limits -/

def coapSuccess : Int := 0
def coapErrorInvalidLength : Int := 259
def coapErrorDataSize : Int := 260
def coapErrorWriteFailed : Int := 265

/-- `COAP_MSG_MAX_TOKEN_LEN`. -/
def coapMsgMaxTokenLen : Nat := 8
/-- `COAP_MSG_MAX_OPTION_NUM`. -/
def coapMsgMaxOptionNum : Nat := 16
/-- `COAP_MSG_MAX_PDU_LEN`. -/
def coapMsgMaxPduLen : Nat := 1280

def coapOptionObserve : Nat := 6
def coapOptionUriPath : Nat := 11
def coapOptionContentFormat : Nat := 12
def coapOptionUriQuery : Nat := 15
def coapOptionAccept : Nat := 17

/-- `COAP_REGISTERED_OBSERVE`. -/
def coapRegisteredObserve : Nat := 0
/-- `COAP_DEREGISTER_OBSERVE`. -/
def coapDeregisterObserve : Nat := 1

/-! ## Messages -/

def coapMessageTypeCon : Nat := 0
def coapMessageTypeNon : Nat := 1
def coapMessageTypeAck : Nat := 2
def coapMessageTypeRst : Nat := 3

def coapMsgCodeEmptyMessage : Nat := 0
def coapMsgCode205Content : Nat := 0x45

/-- `CoAPMsgHeader`. -/
structure MsgHeader where
  version : Nat
  type : Nat
  tokenlen : Nat
  code : Nat
  msgid : Nat
deriving DecidableEq, Repr

/-- `COAPAckMsg`. -/
def coapAckMsg (header : MsgHeader) : Bool :=
  header.code = coapMsgCodeEmptyMessage ∧ header.type = coapMessageTypeAck

/-- `CoAPRespMsg`. -/
def coapRespMsg (header : MsgHeader) : Bool := 0x40 ≤ header.code ∧ header.code < 0xc0

/-- `CoAPCONRespMsg`. -/
def coapConRespMsg (header : MsgHeader) : Bool :=
  header.code = coapMsgCode205Content ∧ header.type = coapMessageTypeCon

/-- `CoAPReqMsg`. -/
def coapReqMsg (header : MsgHeader) : Bool := 1 ≤ header.code ∧ header.code < 32

/-- `CoAPMsgOption` of a message to send. -/
structure MsgOption where
  num : Nat
  val : Bytes
deriving DecidableEq, Repr

/-- `CoAPMessage`, to send.  `optnum` is the length of `options`. -/
structure Message where
  header : MsgHeader
  token : Bytes
  options : List MsgOption
  optdelta : Nat
  payload : Option Bytes
  payloadlen : Nat
  observer : Nat
  handler : Option Nat
deriving DecidableEq, Repr

/-- `CoAPMessage_init`. -/
def coapMessageInit : Message :=
  { header := ⟨1, coapMessageTypeAck, 0, coapMsgCodeEmptyMessage, 0⟩
    token := []
    options := []
    optdelta := 0
    payload := none
    payloadlen := 0
    observer := 1
    handler := none }

/-- `CoAPMessageId_set`. -/
def coapMessageIdSet (message : Message) (msgid : Nat) : Message :=
  { message with header := { message.header with msgid := msgid } }

/-- `CoAPMessageType_set`, with one of the four types. -/
def coapMessageTypeSet (message : Message) (type : Nat) : Message :=
  { message with header := { message.header with type := type } }

/-- `CoAPMessageCode_set`. -/
def coapMessageCodeSet (message : Message) (code : Nat) : Message :=
  { message with header := { message.header with code := code } }

/-- `CoAPMessageToken_set`. -/
def coapMessageTokenSet (message : Message) (token : Bytes) : Message :=
  if coapMsgMaxTokenLen < token.length then message
  else { message with token := token, header := { message.header with tokenlen := token.length } }

/-- `CoAPMessageHandler_set`. -/
def coapMessageHandlerSet (message : Message) (handler : Option Nat) : Message :=
  { message with handler := handler }

/-- `CoAPMessagePayload_set`, with a payload that is not NULL. -/
def coapMessagePayloadSet (message : Message) (payload : Bytes) (payloadlen : Nat) : Message :=
  { message with payload := some payload, payloadlen := payloadlen }

/-- `CoAPStrOption_add`.  An option is stored with the difference to the one before, which
is kept in 8 bits. -/
def coapStrOptionAdd (message : Message) (optnum : Nat) (data : Bytes) : Message :=
  if coapMsgMaxOptionNum ≤ message.options.length then message
  else
    { message with
      options := message.options ++ [⟨(optnum + 65536 - message.optdelta) % 65536, data⟩]
      optdelta := optnum % 256 }

/-- The value that `CoAPUintOption_add` stores. -/
def uintValue (data : Nat) : Bytes :=
  if data = 0 then []
  else if data ≤ 256 then [UInt8.ofNat data]
  else if data ≤ 65535 then [UInt8.ofNat (data / 256), UInt8.ofNat data]
  else
    [UInt8.ofNat (data / 16777216), UInt8.ofNat (data / 65536), UInt8.ofNat (data / 256),
      UInt8.ofNat data]

/-- `CoAPUintOption_add`. -/
def coapUintOptionAdd (message : Message) (optnum data : Nat) : Message :=
  if coapMsgMaxOptionNum ≤ message.options.length then message
  else
    let message :=
      if optnum = coapOptionObserve then
        { message with
          observer := if data = 0 then coapRegisteredObserve else coapDeregisterObserve }
      else message
    coapStrOptionAdd message optnum (uintValue data)

end IotKit.Coap
