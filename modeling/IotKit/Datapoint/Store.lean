import IotKit.Config
import IotKit.Lib.KeyTable
import IotKit.Lib.Memory
import Mathlib.Algebra.Order.Field.Rat

/-!
# The datapoints

The table `properties` of `iotx_datapoint_api.c`, the functions that define and
write datapoints, and the transmit mode.  A `Store` has distinct ids and at most
`CONFIG_PROPERTIES_MAX` entries.

A double is the rational number it denotes, and an operation rounds its exact result
as the `Platform` does; where a result needs arithmetic to be exact it is about an
`ExactPlatform`.  The conversion of a double that does not fit `int32_t` is left to the
platform too, and 32-bit signed arithmetic wraps.  A C string is the list of its characters before
the terminator.  Allocations succeed, and what `HAL_Malloc` returns is not
cleared: the fields that a definition does not set are those of `fresh`.
-/

namespace IotKit.Datapoint

open CMemory

/-! ## Numbers -/

class Platform where
  /-- `(int32_t)x` for a double outside the range. -/
  int32OutOfRange : ℚ → Int32
  /-- The double that an operation returns, where `x` is its exact result. -/
  round : ℚ → ℚ

/-- A platform that does not round. -/
class ExactPlatform extends Platform where
  round_eq : ∀ x, round x = x

@[reducible] def zeroPlatform : Platform := ⟨fun _ => 0, id⟩

@[reducible] def zeroExactPlatform : ExactPlatform := { zeroPlatform with round_eq := fun _ => rfl }

/-- `(int32_t)x`: truncation. -/
def int32OfDouble [Platform] (x : ℚ) : Int32 :=
  let n := x.num.tdiv x.den
  if -2 ^ 31 ≤ n ∧ n < 2 ^ 31 then Int32.ofInt n else Platform.int32OutOfRange x

/-- The loop of `_pow`, `n` times. -/
def powLoop [Platform] (base : ℚ) : Nat → ℚ
  | 0 => 1
  | n + 1 => Platform.round (powLoop base n * base)

/-- `_pow`. -/
def pow [Platform] (base : ℚ) (exponent : Int) : ℚ := powLoop base exponent.toNat

theorem pow_exact [ExactPlatform] (base : ℚ) (exponent : Int) :
    pow base exponent = base ^ exponent.toNat := by
  rw [pow]
  induction exponent.toNat with
  | zero => rw [powLoop, pow_zero]
  | succ n ih => rw [powLoop, ExactPlatform.round_eq, ih, pow_succ]

/-! ## Datapoints -/

/-- `data_type_t`. -/
inductive DataType where
  | bool
  | num
  | enum
  | string
  | binary
deriving DecidableEq, Repr

/-- The type with the number. -/
def DataType.ofCode (code : UInt8) : Option DataType :=
  if code = 0 then some .bool
  else if code = 1 then some .num
  else if code = 2 then some .enum
  else if code = 3 then some .string
  else if code = 4 then some .binary
  else none

/-- `dp_permission_t`. -/
inductive Permission where
  | upOnly
  | downOnly
  | upDown
deriving DecidableEq, Repr

/-- `read_datapoint_result_t`. -/
inductive ReadResult where
  | old
  | new
  | none
deriving DecidableEq, Repr

/-- `property_conf`.  The length of `binaryValue` is that of the list. -/
structure PropertyConf where
  dpID : UInt16
  dataType : DataType
  permission : Permission
  change : Bool
  readFlag : ReadResult
  minValue : ℚ
  maxValue : ℚ
  resolution : Int
  boolValue : Bool
  numberIntValue : Int32
  numberDoubleValue : ℚ
  enumValue : Int32
  stringValue : Bytes
  binaryValue : Bytes
deriving DecidableEq

/-- The fields that a definition sets for good. -/
structure Definition where
  dpID : UInt16
  dataType : DataType
  permission : Permission
  minValue : ℚ
  maxValue : ℚ
  resolution : Int
deriving DecidableEq

def PropertyConf.definition (p : PropertyConf) : Definition :=
  ⟨p.dpID, p.dataType, p.permission, p.minValue, p.maxValue, p.resolution⟩

/-- The value of a datapoint, and what a write is given. -/
inductive Value where
  | bool (value : Bool)
  | int (value : Int32)
  | double (value : ℚ)
  | enum (value : Int32)
  | string (value : Bytes)
  | binary (value : Bytes)
deriving DecidableEq

/-- The value field that the type of the datapoint selects. -/
def PropertyConf.value (p : PropertyConf) : Value :=
  match p.dataType with
  | .bool => .bool p.boolValue
  | .num => if p.resolution = 0 then .int p.numberIntValue else .double p.numberDoubleValue
  | .enum => .enum p.enumValue
  | .string => .string p.stringValue
  | .binary => .binary p.binaryValue

theorem PropertyConf.value_bool {p : PropertyConf} (h : p.dataType = .bool) :
    p.value = .bool p.boolValue := by
  rw [PropertyConf.value, h]

theorem PropertyConf.value_int {p : PropertyConf} (h : p.dataType = .num)
    (hres : p.resolution = 0) :
    p.value = .int p.numberIntValue := by
  rw [PropertyConf.value, h]
  exact if_pos hres

theorem PropertyConf.value_double {p : PropertyConf} (h : p.dataType = .num)
    (hres : p.resolution ≠ 0) :
    p.value = .double p.numberDoubleValue := by
  rw [PropertyConf.value, h]
  exact if_neg hres

theorem PropertyConf.value_enum {p : PropertyConf} (h : p.dataType = .enum) :
    p.value = .enum p.enumValue := by
  rw [PropertyConf.value, h]

theorem PropertyConf.value_string {p : PropertyConf} (h : p.dataType = .string) :
    p.value = .string p.stringValue := by
  rw [PropertyConf.value, h]

theorem PropertyConf.value_binary {p : PropertyConf} (h : p.dataType = .binary) :
    p.value = .binary p.binaryValue := by
  rw [PropertyConf.value, h]

/-- `properties` up to `properties_count`. -/
structure Store where
  properties : List PropertyConf
  fits : properties.length ≤ configPropertiesMax
  distinct : (properties.map PropertyConf.dpID).Nodup

def Store.empty : Store := ⟨[], Nat.zero_le _, List.nodup_nil⟩

/-- `getPropertyIndex`, which returns `-1` for `none`. -/
def getPropertyIndex (s : Store) (dpID : UInt16) : Option Nat :=
  KeyTable.indexOf PropertyConf.dpID dpID s.properties

/-- The datapoint with the id. -/
def Store.property (s : Store) (dpID : UInt16) : Option PropertyConf :=
  KeyTable.entry PropertyConf.dpID dpID s.properties

theorem Store.property_eq_some {s : Store} {dpID : UInt16} {p : PropertyConf} :
    s.property dpID = some p ↔ p ∈ s.properties ∧ p.dpID = dpID :=
  KeyTable.entry_eq_some s.distinct

/-- `properties[index]` changed by `f`. -/
def Store.modify (s : Store) (index : Nat) (f : PropertyConf → PropertyConf)
    (hf : ∀ p, (f p).dpID = p.dpID) : Store where
  properties := s.properties.modify index f
  fits := by
    rw [List.length_modify]
    exact s.fits
  distinct := by
    rw [KeyTable.map_key_modify hf]
    exact s.distinct

/-- Every datapoint changed by `f`. -/
def Store.map (s : Store) (f : PropertyConf → PropertyConf) (hf : ∀ p, (f p).dpID = p.dpID) :
    Store where
  properties := s.properties.map f
  fits := by
    rw [List.length_map]
    exact s.fits
  distinct := by
    rw [List.map_map, show PropertyConf.dpID ∘ f = PropertyConf.dpID from funext hf]
    exact s.distinct

theorem Store.property_map {s : Store} {f : PropertyConf → PropertyConf}
    {hf : ∀ p, (f p).dpID = p.dpID} (dpID : UInt16) :
    (s.map f hf).property dpID = (s.property dpID).map f :=
  KeyTable.entry_map hf

/-! ## Definitions -/

/-- `setDatapointValueInit` on the memory `fresh`. -/
def setDatapointValueInit (fresh : PropertyConf) (dpID : UInt16) (dataType : DataType)
    (permission : Permission) : PropertyConf :=
  { fresh with dpID, dataType, permission, readFlag := .old }

/-- The common part of the `Define` functions: an id that is not there yet gets the
next entry. -/
def define (s : Store) (p : PropertyConf) : Checked Store :=
  match h : getPropertyIndex s p.dpID with
  | some _ => .ok s
  | none =>
      if hroom : s.properties.length < configPropertiesMax then
        .ok
          { properties := s.properties ++ [p]
            fits := by rw [List.length_append]; exact hroom
            distinct := by
              rw [List.map_append, List.nodup_append]
              refine ⟨s.distinct, List.nodup_singleton _, ?_⟩
              rintro a ha _ hb rfl
              obtain ⟨q, hq, rfl⟩ := List.mem_map.mp ha
              exact KeyTable.indexOf_eq_none.mp h q hq (List.mem_singleton.mp hb) }
      else .error .index

/-- `IOT_DataPoint_DefineBool`. -/
def iotDataPointDefineBool (s : Store) (fresh : PropertyConf) (dpID : UInt16)
    (permission : Permission) (value : Bool) : Checked Store :=
  define s { setDatapointValueInit fresh dpID .bool permission with boolValue := value }

/-- `IOT_DataPoint_DefineNumber`.  The clamped `defaultValue` is not used. -/
def iotDataPointDefineNumber [Platform] (s : Store) (fresh : PropertyConf) (dpID : UInt16)
    (permission : Permission) (minValue maxValue : ℚ) (resolution : Int) (value : ℚ) :
    Checked Store :=
  let p := { setDatapointValueInit fresh dpID .num permission with minValue, maxValue, resolution }
  define s
    (if resolution = 0 then { p with numberIntValue := int32OfDouble value }
      else { p with numberDoubleValue := value })

/-- `IOT_DataPoint_DefineEnum`. -/
def iotDataPointDefineEnum (s : Store) (fresh : PropertyConf) (dpID : UInt16)
    (permission : Permission) (value : Int32) : Checked Store :=
  define s
    { setDatapointValueInit fresh dpID .enum permission with
      enumValue := if value < 0 then 0 else value }

/-- `IOT_DataPoint_DefineString`.  The source does not use `maxLen`. -/
def iotDataPointDefineString (s : Store) (fresh : PropertyConf) (dpID : UInt16)
    (permission : Permission) (value : Bytes) : Checked Store :=
  define s { setDatapointValueInit fresh dpID .string permission with stringValue := value }

/-- `IOT_DataPoint_DefineBinary`.  The loop over the value counts in a `uint8_t`. -/
def iotDataPointDefineBinary (s : Store) (fresh : PropertyConf) (dpID : UInt16)
    (permission : Permission) (value : Bytes) : Checked Store := do
  let s' ← define s
    { setDatapointValueInit fresh dpID .binary permission with binaryValue := value }
  if getPropertyIndex s dpID = none ∧ 256 ≤ value.length then .error .diverge else .ok s'

/-! ## Writes -/

/-- What one of the six write functions does with the value it is given: the
datapoints it is for, the test whether the value is there already, and the store.
A store keeps the definition. -/
structure Setter where
  accepts : PropertyConf → Bool
  same : PropertyConf → Bool
  put : PropertyConf → PropertyConf
  keeps : ∀ p, (put p).definition = p.definition

/-- The common body of the write functions.  `type` is true for a write of the
user and false for one of the cloud. -/
def Setter.write (w : Setter) (type : Bool) (p : PropertyConf) : PropertyConf :=
  let readFlag : ReadResult := if type then .old else .new
  if w.accepts p then
    if w.same p then { p with change := !type, readFlag }
    else { w.put p with change := true, readFlag }
  else p

/-- `d` of `writeDatapointNumberDouble`: the value brought between the bounds. -/
def clamp (lo hi x : ℚ) : ℚ := if x < lo then lo else if hi < x then hi else x

/-- `tmp` of `writeDatapointNumberInt32`. -/
def clampInt32 [Platform] (p : PropertyConf) (value : Int32) : Int32 :=
  if (value.toInt : ℚ) < p.minValue then int32OfDouble p.minValue
  else if p.maxValue < value.toInt then int32OfDouble p.maxValue
  else value

def boolSetter (value : Bool) : Setter where
  accepts p := p.dataType = .bool
  same p := p.boolValue = value
  put p := { p with boolValue := value }
  keeps _ := rfl

/-- The test compares the value before it is clamped. -/
def numberInt32Setter [Platform] (value : Int32) : Setter where
  accepts p := p.dataType = .num ∧ p.resolution = 0
  same p := p.numberIntValue = value
  put p := { p with numberIntValue := clampInt32 p value }
  keeps _ := rfl

/-- The test compares the clamped value, and the store cuts it to the decimal
places of the datapoint. -/
def numberDoubleSetter [Platform] (value : ℚ) : Setter where
  accepts p := p.dataType = .num ∧ p.resolution ≠ 0
  same p := p.numberDoubleValue = clamp p.minValue p.maxValue value
  put p :=
    let d := clamp p.minValue p.maxValue value
    let tmp := int32OfDouble (Platform.round (d * pow 10 p.resolution))
    { p with numberDoubleValue := Platform.round (tmp.toInt / pow 10 p.resolution) }
  keeps _ := rfl

def enumSetter (value : Int32) : Setter where
  accepts p := p.dataType = .enum
  same p := p.enumValue = value
  put p := { p with enumValue := value }
  keeps _ := rfl

def stringSetter (value : Bytes) : Setter where
  accepts p := p.dataType = .string
  same p := p.stringValue = value
  put p := { p with stringValue := value }
  keeps _ := rfl

def binarySetter (value : Bytes) : Setter where
  accepts p := p.dataType = .binary
  same p := p.binaryValue = value
  put p := { p with binaryValue := value }
  keeps _ := rfl

theorem Setter.write_definition (w : Setter) (type : Bool) (p : PropertyConf) :
    (w.write type p).definition = p.definition := by
  rw [Setter.write]
  split
  · split
    · rfl
    · exact w.keeps p
  · rfl

theorem Setter.write_dpID (w : Setter) (type : Bool) (p : PropertyConf) :
    (w.write type p).dpID = p.dpID :=
  congrArg Definition.dpID (w.write_definition type p)

theorem Setter.write_value {w : Setter} {type : Bool} {q : PropertyConf} (haccepts : w.accepts q) :
    (w.write type q).value = if w.same q then q.value else (w.put q).value := by
  rw [Setter.write]
  dsimp only
  rw [if_pos haccepts]
  split
  · rfl
  · rfl

theorem Setter.write_value_eq {w : Setter} {type : Bool} {q : PropertyConf} {v : Value}
    (haccepts : w.accepts q) (hsame : w.same q → q.value = v) (hput : (w.put q).value = v) :
    (w.write type q).value = v := by
  rw [Setter.write_value haccepts]
  split
  next h => exact hsame h
  next => exact hput

/-- `properties[getPropertyIndex(dpID)]` written. -/
def writeDatapoint (s : Store) (dpID : UInt16) (w : Setter) (type : Bool) : Store :=
  match getPropertyIndex s dpID with
  | none => s
  | some index => s.modify index (w.write type) (w.write_dpID type)

/-- `writeDatapointBool`. -/
def writeDatapointBool (s : Store) (dpID : UInt16) (value type : Bool) : Store :=
  writeDatapoint s dpID (boolSetter value) type

/-- `writeDatapointNumberInt32`. -/
def writeDatapointNumberInt32 [Platform] (s : Store) (dpID : UInt16) (value : Int32)
    (type : Bool) : Store :=
  writeDatapoint s dpID (numberInt32Setter value) type

/-- `writeDatapointNumberDouble`. -/
def writeDatapointNumberDouble [Platform] (s : Store) (dpID : UInt16) (value : ℚ)
    (type : Bool) : Store :=
  writeDatapoint s dpID (numberDoubleSetter value) type

/-- `writeDatapointEnum`. -/
def writeDatapointEnum (s : Store) (dpID : UInt16) (value : Int32) (type : Bool) : Store :=
  writeDatapoint s dpID (enumSetter value) type

/-- `writeDatapointString`. -/
def writeDatapointString (s : Store) (dpID : UInt16) (value : Bytes) (type : Bool) : Store :=
  writeDatapoint s dpID (stringSetter value) type

/-- `writeDatapointBinary`. -/
def writeDatapointBinary (s : Store) (dpID : UInt16) (value : Bytes) (type : Bool) : Store :=
  writeDatapoint s dpID (binarySetter value) type

/-- A write changes the datapoint with the id and no other. -/
theorem writeDatapoint_properties {s : Store} {dpID : UInt16} {w : Setter} {type : Bool} :
    (writeDatapoint s dpID w type).properties =
      s.properties.map (fun p => if p.dpID = dpID then w.write type p else p) := by
  rw [writeDatapoint]
  split
  next h => exact (KeyTable.map_eq_self (KeyTable.indexOf_eq_none.mp h)).symm
  next index h => exact KeyTable.modify_indexOf s.distinct h

theorem property_writeDatapoint {s : Store} {dpID id : UInt16} {w : Setter} {type : Bool} :
    (writeDatapoint s dpID w type).property id =
      (s.property id).map fun p => if p.dpID = dpID then w.write type p else p := by
  rw [Store.property, writeDatapoint_properties]
  refine KeyTable.entry_map fun p => ?_
  split
  · exact w.write_dpID type p
  · rfl

theorem property_writeDatapoint_self {s : Store} {dpID : UInt16} {w : Setter} {type : Bool} :
    (writeDatapoint s dpID w type).property dpID = (s.property dpID).map (w.write type) := by
  rw [property_writeDatapoint]
  cases hp : s.property dpID with
  | none => rfl
  | some p => rw [Option.map_some, Option.map_some, if_pos (Store.property_eq_some.mp hp).2]

theorem property_writeDatapoint_of_ne {s : Store} {dpID id : UInt16} {w : Setter} {type : Bool}
    (h : id ≠ dpID) : (writeDatapoint s dpID w type).property id = s.property id := by
  rw [property_writeDatapoint]
  cases hp : s.property id with
  | none => rfl
  | some p =>
      rw [Option.map_some, if_neg fun hid => h ((Store.property_eq_some.mp hp).2.symm.trans hid)]

/-! ## Reads and flags -/

/-- `IOT_DataPoint_ReadBool`: the result and the store.  The value goes to the
caller. -/
def iotDataPointReadBool (s : Store) (dpID : UInt16) (value : Bool) :
    ReadResult × Bool × Store :=
  match getPropertyIndex s dpID with
  | none => (.none, value, s)
  | some index =>
      match s.properties[index]? with
      | none => (.none, value, s)
      | some p =>
          (p.readFlag, p.boolValue, s.modify index ({ · with readFlag := .old }) fun _ => rfl)

theorem iotDataPointReadBool_of_none {s : Store} {dpID : UInt16} {value : Bool}
    (h : s.property dpID = none) : iotDataPointReadBool s dpID value = (.none, value, s) := by
  have hindex : getPropertyIndex s dpID = none :=
    KeyTable.indexOf_eq_none.mpr (KeyTable.entry_eq_none.mp h)
  rw [iotDataPointReadBool, hindex]

/-- A read changes the read flag and nothing else. -/
theorem iotDataPointReadBool_properties {s : Store} {dpID : UInt16} {value : Bool} :
    (iotDataPointReadBool s dpID value).2.2.properties =
      s.properties.map (fun p => if p.dpID = dpID then { p with readFlag := .old } else p) := by
  rw [iotDataPointReadBool]
  split
  next h => exact (KeyTable.map_eq_self (KeyTable.indexOf_eq_none.mp h)).symm
  next index h =>
    split
    next hnone =>
      exact absurd (KeyTable.indexOf_lt h) (Nat.not_lt.mpr (List.getElem?_eq_none_iff.mp hnone))
    next => exact KeyTable.modify_indexOf s.distinct h

/-- `isPropertyChanged`. -/
def isPropertyChanged (s : Store) : Bool := s.properties.any PropertyConf.change

/-- `clearPropertyChangeFlag`. -/
def clearPropertyChangeFlag (s : Store) : Store := s.map ({ · with change := false }) fun _ => rfl

end IotKit.Datapoint
