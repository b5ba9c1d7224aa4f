import IotKit.Datapoint.Store

/-!
# The upload frame

`intoyunFormDataPointBinary` writes a datapoint as its id, its type, a length and
the data.  An id or a length below 128 takes one byte and otherwise two, the
first with its highest bit set.  A number takes one, two or four bytes and an
enumeration always one.

A frame is the byte 0x31 and the records of the datapoints, written to a buffer
of the caller's.  `Upload` keeps the datapoints of a frame next to its bytes, so
that one can say which values it carried.
-/

namespace IotKit.Datapoint

open CMemory

/-- An id or a length. -/
def formVar (n : Nat) : Bytes :=
  if n < 0x80 then [UInt8.ofNat n]
  else [UInt8.ofNat (0x80 + n / 256 % 128), UInt8.ofNat n]

/-- The length and the bytes of an `int32_t`, whose bits are those of `u`. -/
def formInt (value : Int32) : Bytes :=
  let u := value.toUInt32.toNat
  if 65536 ≤ u then
    [4, UInt8.ofNat (u / 16777216), UInt8.ofNat (u / 65536), UInt8.ofNat (u / 256), UInt8.ofNat u]
  else if 256 ≤ u then [2, UInt8.ofNat (u / 256), UInt8.ofNat u]
  else [1, UInt8.ofNat u]

/-- The number that a datapoint of type number is sent as. -/
def formNumber [Platform] (p : PropertyConf) : Int32 :=
  if p.resolution = 0 then p.numberIntValue
  else
    let offset := Platform.round (p.numberDoubleValue - p.minValue)
    int32OfDouble (Platform.round (offset * pow 10 p.resolution))

/-- A length in 16 bits and as many bytes. -/
def formBytes (bs : Bytes) : Bytes :=
  formVar (bs.length % 65536) ++ bs.take (bs.length % 65536)

/-- `intoyunFormDataPointBinary`: the bytes it writes. -/
def intoyunFormDataPointBinary [Platform] (p : PropertyConf) : Bytes :=
  formVar p.dpID.toNat ++
    match p.dataType with
    | .bool => [0, 1, if p.boolValue then 1 else 0]
    | .num => 1 :: formInt (formNumber p)
    | .enum => [2, 1, UInt8.ofNat p.enumValue.toUInt32.toNat]
    | .string => 3 :: formBytes p.stringValue
    | .binary => 4 :: formBytes p.binaryValue

/-- A frame that was handed to `IOT_Comm_SendData`, and the datapoints in it. -/
structure Upload where
  frame : Bytes
  contents : List PropertyConf

/-- The frame of some datapoints in a buffer of `len` bytes. -/
def formFrame [Platform] (len : UInt16) (contents : List PropertyConf) : Checked Upload :=
  let frame := 0x31 :: contents.flatMap intoyunFormDataPointBinary
  if frame.length ≤ len.toNat then .ok ⟨frame, contents⟩ else .error .store

/-- `intoyunFormSingleDatapoint`. -/
def intoyunFormSingleDatapoint [Platform] (p : PropertyConf) (len : UInt16) : Checked Upload :=
  formFrame len [p]

/-- Whether `intoyunFormAllDatapoint` takes a datapoint at all: it is not for the
cloud to write only, and not one of the system's. -/
def PropertyConf.Uploadable (p : PropertyConf) : Prop :=
  p.permission ≠ .downOnly ∧ p.dpID ≤ 0x3F00

instance (p : PropertyConf) : Decidable p.Uploadable := inferInstanceAs (Decidable (_ ∧ _))

/-- `intoyunFormAllDatapoint`. -/
def intoyunFormAllDatapoint [Platform] (s : Store) (len : UInt16) (type : Bool) :
    Checked Upload :=
  formFrame len (s.properties.filter fun p => p.Uploadable ∧ (type ∨ p.change))

/-! ## Sending -/

/-- `intoyunTransmitData`, where `IOT_Comm_SendData` returns `result`. -/
def intoyunTransmitData (result : Int) : Int := if result = 0 then 1 else 0

/-- `intoyunSendSingleDatapoint`. -/
def intoyunSendSingleDatapoint [Platform] (p : PropertyConf) (result : Int) :
    Checked (Int × List Upload) := do
  let upload ← intoyunFormSingleDatapoint p 256
  .ok (intoyunTransmitData result, [upload])

/-- `IOT_DataPoint_SendAll`. -/
def iotDataPointSendAll [Platform] (s : Store) (result : Int) :
    Checked (Int × Store × List Upload) :=
  if s.properties.length = 0 then .ok (-1, s, [])
  else do
    let upload ← intoyunFormAllDatapoint s 512 true
    .ok (intoyunTransmitData result, clearPropertyChangeFlag s, [upload])

end IotKit.Datapoint
