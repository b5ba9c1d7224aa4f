import IotKit.Datapoint.Parse

/-!
# Writing and sending

The functions an application calls.  `Write` only stores.  `Send` stores and, in
manual mode, uploads the one datapoint.  All datapoints are uploaded by
`SendAllDatapointManual` in manual mode and by `SendDatapointAutomatic`, which
runs on every yield, in automatic mode.

Every function that may call `IOT_Comm_SendData` takes the `result` of the call
and returns the frames it handed over.
-/

namespace IotKit.Datapoint

open CMemory

/-- `dp_transmit_mode_t`. -/
inductive TransmitMode where
  | manual
  | automatic
deriving DecidableEq, Repr

/-- `datapoint_control_t`. -/
structure Control where
  transmitMode : TransmitMode
  transmitLapse : Nat
  runtime : Int
deriving DecidableEq, Repr

/-- `g_datapoint_control` at the start. -/
def Control.initial : Control := ⟨.automatic, configAutomaticInterval, 0⟩

/-- `IOT_DataPoint_Control`. -/
def iotDataPointControl (c : Control) (mode : TransmitMode) (lapse : Nat) : Control :=
  let c := { c with transmitMode := mode }
  if c.transmitMode = .automatic then
    { c with transmitLapse := if lapse < configAutomaticInterval then configAutomaticInterval
                              else lapse }
  else c

/-! ## Writes -/

/-- The write function for a value. -/
def Value.setter [Platform] : Value → Setter
  | .bool value => boolSetter value
  | .int value => numberInt32Setter value
  | .double value => numberDoubleSetter value
  | .enum value => enumSetter value
  | .string value => stringSetter value
  | .binary value => binarySetter value

/-- `IOT_DataPoint_WriteBool`. -/
def iotDataPointWriteBool (s : Store) (dpID : UInt16) (value : Bool) : Store :=
  writeDatapointBool s dpID value true

/-- `IOT_DataPoint_WriteNumberInt32`. -/
def iotDataPointWriteNumberInt32 [Platform] (s : Store) (dpID : UInt16) (value : Int32) : Store :=
  writeDatapointNumberInt32 s dpID value true

/-- `IOT_DataPoint_WriteNumberDouble`. -/
def iotDataPointWriteNumberDouble [Platform] (s : Store) (dpID : UInt16) (value : ℚ) : Store :=
  writeDatapointNumberDouble s dpID value true

/-- `IOT_DataPoint_WriteEnum`. -/
def iotDataPointWriteEnum (s : Store) (dpID : UInt16) (value : Int32) : Store :=
  writeDatapointEnum s dpID value true

/-- `IOT_DataPoint_WriteString`. -/
def iotDataPointWriteString (s : Store) (dpID : UInt16) (value : Bytes) : Store :=
  writeDatapointString s dpID value true

/-- `IOT_DataPoint_WriteBinary`. -/
def iotDataPointWriteBinary (s : Store) (dpID : UInt16) (value : Bytes) : Store :=
  writeDatapointBinary s dpID value true

/-- The `Write` function for a value. -/
def iotDataPointWrite [Platform] (s : Store) (dpID : UInt16) : Value → Store
  | .bool value => iotDataPointWriteBool s dpID value
  | .int value => iotDataPointWriteNumberInt32 s dpID value
  | .double value => iotDataPointWriteNumberDouble s dpID value
  | .enum value => iotDataPointWriteEnum s dpID value
  | .string value => iotDataPointWriteString s dpID value
  | .binary value => iotDataPointWriteBinary s dpID value

theorem iotDataPointWrite_eq [Platform] (s : Store) (dpID : UInt16) (value : Value) :
    iotDataPointWrite s dpID value = writeDatapoint s dpID value.setter true := by
  cases value with
  | bool => rfl
  | int => rfl
  | double => rfl
  | enum => rfl
  | string => rfl
  | binary => rfl

/-! ## Sends -/

/-- The return value of a call, the store after it and the frames it handed over. -/
structure Sent where
  rc : Int
  store : Store
  uploads : List Upload

/-- The common body of the `Send` functions, where `written` is the store after the
write. -/
def sendDatapoint [Platform] (s : Store) (c : Control) (dpID : UInt16) (written : Store)
    (result : Int) : Checked Sent :=
  match getPropertyIndex s dpID with
  | none => .ok ⟨-1, s, []⟩
  | some index =>
      if c.transmitMode = .automatic then .ok ⟨-1, written, []⟩
      else
        match written.properties[index]? with
        | none => .error .index
        | some p =>
            if p.permission = .downOnly then .ok ⟨-1, written, []⟩
            else do
              let (rc, uploads) ← intoyunSendSingleDatapoint p result
              .ok ⟨rc, written, uploads⟩

/-- `IOT_DataPoint_SendBool`. -/
def iotDataPointSendBool [Platform] (s : Store) (c : Control) (dpID : UInt16) (value : Bool)
    (result : Int) : Checked Sent :=
  sendDatapoint s c dpID (writeDatapointBool s dpID value true) result

/-- `IOT_DataPoint_SendNumberInt32`. -/
def iotDataPointSendNumberInt32 [Platform] (s : Store) (c : Control) (dpID : UInt16)
    (value : Int32) (result : Int) : Checked Sent :=
  sendDatapoint s c dpID (writeDatapointNumberInt32 s dpID value true) result

/-- `IOT_DataPoint_SendNumberDouble`. -/
def iotDataPointSendNumberDouble [Platform] (s : Store) (c : Control) (dpID : UInt16)
    (value : ℚ) (result : Int) : Checked Sent :=
  sendDatapoint s c dpID (writeDatapointNumberDouble s dpID value true) result

/-- `IOT_DataPoint_SendEnum`. -/
def iotDataPointSendEnum [Platform] (s : Store) (c : Control) (dpID : UInt16) (value : Int32)
    (result : Int) : Checked Sent :=
  sendDatapoint s c dpID (writeDatapointEnum s dpID value true) result

/-- `IOT_DataPoint_SendString`. -/
def iotDataPointSendString [Platform] (s : Store) (c : Control) (dpID : UInt16) (value : Bytes)
    (result : Int) : Checked Sent :=
  sendDatapoint s c dpID (writeDatapointString s dpID value true) result

/-- `IOT_DataPoint_SendBinary`. -/
def iotDataPointSendBinary [Platform] (s : Store) (c : Control) (dpID : UInt16) (value : Bytes)
    (result : Int) : Checked Sent :=
  sendDatapoint s c dpID (writeDatapointBinary s dpID value true) result

/-- The `Send` function for a value. -/
def iotDataPointSend [Platform] (s : Store) (c : Control) (dpID : UInt16) (value : Value)
    (result : Int) : Checked Sent :=
  match value with
  | .bool value => iotDataPointSendBool s c dpID value result
  | .int value => iotDataPointSendNumberInt32 s c dpID value result
  | .double value => iotDataPointSendNumberDouble s c dpID value result
  | .enum value => iotDataPointSendEnum s c dpID value result
  | .string value => iotDataPointSendString s c dpID value result
  | .binary value => iotDataPointSendBinary s c dpID value result

theorem iotDataPointSend_eq [Platform] (s : Store) (c : Control) (dpID : UInt16) (value : Value)
    (result : Int) :
    iotDataPointSend s c dpID value result =
      sendDatapoint s c dpID (writeDatapoint s dpID value.setter true) result := by
  cases value with
  | bool => rfl
  | int => rfl
  | double => rfl
  | enum => rfl
  | string => rfl
  | binary => rfl

/-- `IOT_DataPoint_SendAllDatapointManual`. -/
def iotDataPointSendAllDatapointManual [Platform] (s : Store) (c : Control) (result : Int) :
    Checked Sent :=
  if s.properties.length = 0 then .ok ⟨-1, s, []⟩
  else if c.transmitMode = .automatic then .ok ⟨-1, s, []⟩
  else do
    let (rc, s, uploads) ← iotDataPointSendAll (clearPropertyChangeFlag s) result
    .ok ⟨rc, s, uploads⟩

/-- Whether the period has passed, at the time `now` in milliseconds.  The product
and the comparison are in `uint32_t`. -/
def lapsed (c : Control) (now : Nat) : Bool :=
  let elapsed := Int32.ofInt (now - c.runtime)
  let elapsed := if elapsed < 0 then Int32.ofInt (0xFFFFFFFF - c.runtime + now) else elapsed
  c.transmitLapse * 1000 % 2 ^ 32 ≤ elapsed.toUInt32.toNat

/-- `IOT_DataPoint_SendDatapointAutomatic`, where `HAL_UptimeMs` returns `now` and
then `now'`. -/
def iotDataPointSendDatapointAutomatic [Platform] (s : Store) (c : Control) (now now' : Nat)
    (result : Int) : Checked (Sent × Control) :=
  if s.properties.length = 0 then .ok (⟨-1, s, []⟩, c)
  else if c.transmitMode = .manual then .ok (⟨-1, s, []⟩, c)
  else if isPropertyChanged s || lapsed c now then do
    let (rc, s, uploads) ← iotDataPointSendAll (clearPropertyChangeFlag s) result
    .ok (⟨rc, s, uploads⟩, { c with runtime := now' })
  else .ok (⟨-1, s, []⟩, c)

section Cases

variable [Platform] {s : Store} {c c' : Control} {result : Int} {r : Sent}

/-- What the manual upload does. -/
theorem manual_cases (h : iotDataPointSendAllDatapointManual s c result = .ok r) :
    r = ⟨-1, s, []⟩ ∨ s.properties.length ≠ 0 ∧ c.transmitMode = .manual ∧
      iotDataPointSendAll (clearPropertyChangeFlag s) result =
        .ok (r.rc, r.store, r.uploads) := by
  rw [iotDataPointSendAllDatapointManual] at h
  split at h
  next =>
    cases h
    exact Or.inl rfl
  next hsome =>
    split at h
    next =>
      cases h
      exact Or.inl rfl
    next hmode =>
      obtain ⟨⟨rc, s', uploads⟩, hall, h⟩ := bind_eq_ok.mp h
      cases h
      refine Or.inr ⟨hsome, ?_, hall⟩
      cases hc : c.transmitMode with
      | manual => rfl
      | automatic => exact absurd hc hmode

/-- What the automatic upload does. -/
theorem automatic_cases {now now' : Nat}
    (h : iotDataPointSendDatapointAutomatic s c now now' result = .ok (r, c')) :
    r = ⟨-1, s, []⟩ ∧ c' = c ∨
      s.properties.length ≠ 0 ∧ c.transmitMode = .automatic ∧
        (isPropertyChanged s || lapsed c now) = true ∧
        iotDataPointSendAll (clearPropertyChangeFlag s) result =
          .ok (r.rc, r.store, r.uploads) ∧ c' = { c with runtime := now' } := by
  rw [iotDataPointSendDatapointAutomatic] at h
  split at h
  next =>
    cases h
    exact Or.inl ⟨rfl, rfl⟩
  next hsome =>
    split at h
    next =>
      cases h
      exact Or.inl ⟨rfl, rfl⟩
    next hmode =>
      split at h
      next hdue =>
        obtain ⟨⟨rc, s', uploads⟩, hall, h⟩ := bind_eq_ok.mp h
        cases h
        refine Or.inr ⟨hsome, ?_, hdue, hall, rfl⟩
        cases hc : c.transmitMode with
        | manual => exact absurd hc hmode
        | automatic => rfl
      next =>
        cases h
        exact Or.inl ⟨rfl, rfl⟩

end Cases

end IotKit.Datapoint
