import IotKit.Coap.Message

/-!
# Writing a datagram

`CoAPSerialize.c`.  The lengths have 16 bits, and only the payload is checked against what
is left of the buffer: where it does not fit, its length of -1 takes a byte off the message.
-/

namespace IotKit.Coap

open CMemory

/-- `CoAPSerialize_Header`. -/
def coapSerializeHeader (header : MsgHeader) : Bytes :=
  [UInt8.ofNat (header.version % 4 * 64 + header.type % 4 * 16 + header.tokenlen % 16),
    UInt8.ofNat header.code, UInt8.ofNat (header.msgid / 256), UInt8.ofNat header.msgid]

/-- Four bits of the first byte of an option. -/
def optionNibble (n : Nat) : Nat := if 269 ≤ n then 14 else if 13 ≤ n then 13 else n

/-- What follows for a delta or a length. -/
def optionExtended (n : Nat) : Bytes :=
  if 269 ≤ n then [UInt8.ofNat ((n - 269) / 256), UInt8.ofNat (n - 269)]
  else if 13 ≤ n then [UInt8.ofNat (n - 13)]
  else []

/-- `CoAPSerialize_Option`. -/
def coapSerializeOption (option : MsgOption) : Bytes :=
  UInt8.ofNat (optionNibble option.num * 16 + optionNibble option.val.length) ::
    (optionExtended option.num ++ (optionExtended option.val.length ++ option.val))

/-- `CoAPSerialize_Options`.  Its `return 0` is for an option of 65536 bytes, which has been
written over the end of the buffer before. -/
def coapSerializeOptions (msg : Message) : Bytes := msg.options.flatMap coapSerializeOption

/-- `CoAPSerialize_OptionLen`. -/
def coapSerializeOptionLen (option : MsgOption) : Nat :=
  (1 + (if 269 ≤ option.num then 2 else if 13 ≤ option.num then 1 else 0) +
    (if 269 ≤ option.val.length then 2 else if 13 ≤ option.val.length then 1 else 0) +
    option.val.length) % 65536

/-- The loop of `CoAPSerialize_OptionsLen`.  Where the length of an option is 0 in 16 bits, the
options before it and after it count for nothing either. -/
def optionsLenLoop : List MsgOption → Nat → Nat
  | [], count => count
  | option :: options, count =>
      let len := coapSerializeOptionLen option
      if 0 < len then optionsLenLoop options ((count + len) % 65536) else 0

/-- `CoAPSerialize_OptionsLen`. -/
def coapSerializeOptionsLen (msg : Message) : Nat := optionsLenLoop msg.options 0

/-- `CoAPSerialize_MessageLength`. -/
def coapSerializeMessageLength (msg : Message) : Nat :=
  (4 + msg.header.tokenlen + coapSerializeOptionsLen msg +
    if 0 < msg.payloadlen then msg.payloadlen + 1 else 0) % 65536

/-- `CoAPSerialize_Message`, into a cleared buffer: the buffer and the length. -/
def coapSerializeMessage (msg : Message) (buflen : Nat) : Checked (Bytes × Nat) := do
  let buf := coapSerializeHeader msg.header ++ (msg.token ++ coapSerializeOptions msg)
  if buflen < buf.length then .error .store
  else if buflen - buf.length < msg.payloadlen + 1 then
    .ok (buf ++ List.replicate (buflen - buf.length) 0, buf.length - 1)
  else
    let payload :=
      match msg.payload with
      | some payload => if 0 < msg.payloadlen then 0xFF :: payload else []
      | none => []
    .ok (buf ++ (payload ++ List.replicate (buflen - buf.length - payload.length) 0),
      buf.length + payload.length)

end IotKit.Coap
