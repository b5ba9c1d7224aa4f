import IotKit.Datapoint.Codec
import IotKit.Lib.Reader

/-!
# The downlink parser

`IOT_DataPoint_ParseReceiveDatapoints`: a frame of records, each written to the
datapoint it names.  After the records, a new value of the datapoint 0x7F80
restarts the system and one of 0x7F81 uploads all datapoints.

The cursor `payload + index` is what remains of the payload, so `index < len` is
that something remains.  The callers pass a 16-bit length and `index` does not
wrap.  `Applied` notes each record that was written to a datapoint: the length it
declares and how many bytes the frame has from its data on.
-/

namespace IotKit.Datapoint

open CMemory

structure Applied where
  dpID : UInt16
  declared : Nat
  room : Nat
deriving DecidableEq, Repr

/-- The declared data lie inside the frame. -/
def Applied.Inside (a : Applied) : Prop := a.declared ≤ a.room

instance (a : Applied) : Decidable a.Inside := inferInstanceAs (Decidable (_ ≤ _))

/-- Whether a write function writes to the datapoint with the id. -/
def Store.accepts (s : Store) (dpID : UInt16) (w : Setter) : Bool :=
  (s.property dpID).any w.accepts

/-- What one pass of the `switch` has read: the write it makes, if any, the declared
length, the bytes that the frame has from the data on and those after the record. -/
structure Record where
  setter : Option Setter
  declared : Nat
  room : Nat
  rest : Bytes

/-- `case DATA_TYPE_BOOL`. -/
def parseBool (input : Bytes) : Checked Record := do
  let (dataLength, data) ← next input
  let (value, rest) ← next data
  .ok ⟨boolSetter (value ≠ 0), dataLength.toNat, data.length, rest⟩

/-- The bytes of an integer that are read for a length. -/
def intWidth (dataLength : UInt8) : Nat :=
  if dataLength = 2 then 2 else if dataLength = 3 then 3 else if dataLength = 4 then 4 else 1

/-- The bytes shifted into an `int32_t`. -/
def ofIntBytes (bs : Bytes) : Int32 :=
  Int32.ofNat (bs.foldl (fun value b => 256 * value + b.toNat) 0)

/-- `properties[id]`, where `id` is the index narrowed to 8 bits. -/
def propertyAt (s : Store) (dpID : UInt16) : Checked PropertyConf :=
  let id := match getPropertyIndex s dpID with
    | some index => index % 256
    | none => 255
  match s.properties[id]? with
  | some p => .ok p
  | none => .error .index

theorem propertyAt_eq_ok {s : Store} {dpID : UInt16} {p : PropertyConf} :
    propertyAt s dpID = .ok p ↔ s.property dpID = some p := by
  have hnone : (.error .index : Checked PropertyConf) = .ok p ↔ none = some p :=
    iff_of_false (fun h => by cases h) fun h => by cases h
  rw [propertyAt, Store.property]
  cases hindex : getPropertyIndex s dpID with
  | none =>
      have hlast : s.properties[255]? = none :=
        List.getElem?_eq_none (Nat.le_trans s.fits (by decide))
      rw [KeyTable.entry_eq_none.mpr (KeyTable.indexOf_eq_none.mp hindex)]
      dsimp only
      rw [hlast]
      exact hnone
  | some index =>
      have hlt : index < 256 :=
        Nat.lt_of_lt_of_le (KeyTable.indexOf_lt hindex) (Nat.le_trans s.fits (by decide))
      dsimp only
      rw [Nat.mod_eq_of_lt hlt, KeyTable.getElem?_indexOf hindex]
      cases KeyTable.entry PropertyConf.dpID dpID s.properties with
      | none => exact hnone
      | some q =>
          exact ⟨fun h => congrArg some (Except.ok.inj h),
            fun h => congrArg _ (Option.some.inj h)⟩

/-- `dValue` of `case DATA_TYPE_NUM`. -/
def numberDouble [Platform] (minValue : ℚ) (resolution : Int) (value : Int32) : ℚ :=
  Platform.round (Platform.round (value.toInt / pow 10 resolution) + minValue)

/-- What `case DATA_TYPE_NUM` writes to a datapoint. -/
def numberSetter [Platform] (p : PropertyConf) (value : Int32) : Setter :=
  if p.resolution = 0 then numberInt32Setter (value + int32OfDouble p.minValue)
  else numberDoubleSetter (numberDouble p.minValue p.resolution value)

/-- `case DATA_TYPE_NUM`. -/
def parseNum [Platform] (s : Store) (dpID : UInt16) (input : Bytes) : Checked Record := do
  let (dataLength, data) ← next input
  let (value, rest) ← nextN (intWidth dataLength) data
  let p ← propertyAt s dpID
  .ok ⟨numberSetter p (ofIntBytes value), dataLength.toNat, data.length, rest⟩

/-- `case DATA_TYPE_ENUM`. -/
def parseEnum (input : Bytes) : Checked Record := do
  let (dataLength, data) ← next input
  let (value, rest) ← nextN (intWidth dataLength) data
  .ok ⟨enumSetter (ofIntBytes value), dataLength.toNat, data.length, rest⟩

/-- `case DATA_TYPE_STRING`.  The bytes are copied before the id is looked up, and
the copy is read up to its first zero. -/
def parseString (input : Bytes) : Checked Record := do
  let (dataLength, data) ← readVar input
  let (str, rest) ← nextN dataLength data
  .ok ⟨stringSetter (str.takeWhile (· ≠ 0)), dataLength, data.length, rest⟩

/-- `case DATA_TYPE_BINARY`.  The bytes are only read by a write that compares or
stores them. -/
def parseBinary (s : Store) (dpID : UInt16) (input : Bytes) : Checked Record := do
  let (dataLength, data) ← readVar input
  if s.accepts dpID (binarySetter []) then do
    let (value, rest) ← nextN dataLength data
    .ok ⟨binarySetter value, dataLength, data.length, rest⟩
  else .ok ⟨none, dataLength, data.length, data.drop dataLength⟩

/-- The `switch`.  A record of an unknown type ends after its type. -/
def parseData [Platform] (s : Store) (dpID : UInt16) (dataType : UInt8) (input : Bytes) :
    Checked Record :=
  match DataType.ofCode dataType with
  | some .bool => parseBool input
  | some .num => parseNum s dpID input
  | some .enum => parseEnum input
  | some .string => parseString input
  | some .binary => parseBinary s dpID input
  | none => .ok ⟨none, 0, input.length, input⟩

/-- The store after a pass of the loop, what it wrote and what remains. -/
structure Parsed where
  store : Store
  applied : List Applied
  rest : Bytes

/-- The write of a record. -/
def applyRecord (s : Store) (dpID : UInt16) (r : Record) : Parsed :=
  match r.setter with
  | none => ⟨s, [], r.rest⟩
  | some w =>
      ⟨writeDatapoint s dpID w false,
        if s.accepts dpID w then [⟨dpID, r.declared, r.room⟩] else [], r.rest⟩

theorem applyRecord_rest (s : Store) (dpID : UInt16) (r : Record) :
    (applyRecord s dpID r).rest = r.rest := by
  rw [applyRecord]
  split
  · rfl
  · rfl

/-- The body of the loop. -/
def parseRecord [Platform] (s : Store) (input : Bytes) : Checked Parsed := do
  let (dpID, input) ← readVar input
  let (dataType, input) ← next input
  let r ← parseData s (UInt16.ofNat dpID) dataType input
  .ok (applyRecord s (UInt16.ofNat dpID) r)

/-- The loop, for at most `fuel` records. -/
def parseLoop [Platform] : Nat → Store → Bytes → Checked (Store × List Applied)
  | _, s, [] => .ok (s, [])
  | 0, _, _ :: _ => .error .diverge
  | fuel + 1, s, b :: input => do
      let r ← parseRecord s (b :: input)
      let (s, applied) ← parseLoop fuel r.store r.rest
      .ok (s, r.applied ++ applied)

theorem parseLoop_nil [Platform] (fuel : Nat) (s : Store) : parseLoop fuel s [] = .ok (s, []) := by
  cases fuel with
  | zero => rfl
  | succ fuel => rfl

theorem parseLoop_of_ne_nil [Platform] {fuel : Nat} {s : Store} {input : Bytes}
    (h : input ≠ []) :
    parseLoop (fuel + 1) s input = parseRecord s input >>= fun r =>
      parseLoop fuel r.store r.rest >>= fun r' => .ok (r'.1, r.applied ++ r'.2) := by
  cases input with
  | nil => exact absurd rfl h
  | cons b input => rfl

/-- What the writes of the cloud preserve, the loop preserves. -/
theorem parseLoop_invariant [Platform] (Inv : Store → Prop)
    (hwrite : ∀ s dpID w, Inv s → Inv (writeDatapoint s dpID w false)) {fuel : Nat} {s s' : Store}
    {input : Bytes} {applied : List Applied} (h : parseLoop fuel s input = .ok (s', applied))
    (hinv : Inv s) : Inv s' := by
  induction fuel generalizing s input applied with
  | zero =>
      cases input with
      | nil =>
          cases h
          exact hinv
      | cons b input => cases h
  | succ fuel ih =>
      cases input with
      | nil =>
          cases h
          exact hinv
      | cons b input =>
          obtain ⟨r, hr, h⟩ := bind_eq_ok.mp h
          obtain ⟨⟨s'', applied'⟩, hloop, h⟩ := bind_eq_ok.mp h
          cases h
          refine ih hloop ?_
          obtain ⟨_, _, hr⟩ := bind_eq_ok.mp hr
          obtain ⟨_, _, hr⟩ := bind_eq_ok.mp hr
          obtain ⟨record, _, hr⟩ := bind_eq_ok.mp hr
          cases hr
          rw [applyRecord]
          split
          · exact hinv
          · exact hwrite s _ _ hinv

/-- The test before the loop: the bytes after 0x31, or nothing where the function
returns.  It reads the first byte before it tests the length. -/
def frameBody : Option Bytes → Checked (Option Bytes)
  | none => .ok none
  | some payload => do
      let (b, body) ← next payload
      .ok (if b ≠ 0x31 ∨ payload.length = 0 then none else some body)

/-- `IOT_DataPoint_ParseReceiveDatapoints` up to the end of the loop, which is all
that reads the payload. -/
def parseDatapoints [Platform] (s : Store) (payload : Option Bytes) :
    Checked (Option (Store × List Applied)) := do
  match ← frameBody payload with
  | none => .ok none
  | some body => do
      let r ← parseLoop body.length s body
      .ok (some r)

theorem parseDatapoints_cons [Platform] {s : Store} {b : UInt8} {body : Bytes} :
    parseDatapoints s (some (b :: body)) =
      if b = 0x31 then parseLoop body.length s body >>= fun r => .ok (some r) else .ok none := by
  rw [parseDatapoints, frameBody, next_cons, ok_bind, ok_bind]
  by_cases hb : b = 0x31
  · rw [if_pos hb, if_neg (by simp [hb])]
  · rw [if_neg hb, if_pos (Or.inl hb)]

def dpidDefaultBoolReset : UInt16 := 0x7F80
def dpidDefaultBoolGetalldatapoint : UInt16 := 0x7F81

structure Received where
  store : Store
  uploads : List Upload
  rebooted : Bool

/-- The end of `IOT_DataPoint_ParseReceiveDatapoints`. -/
def parseEnd [Platform] (s : Store) (result : Int) : Checked Received := do
  let (reset, _, s) := iotDataPointReadBool s dpidDefaultBoolReset false
  if reset = .new then .ok ⟨s, [], true⟩
  else do
    let (getAll, _, s) := iotDataPointReadBool s dpidDefaultBoolGetalldatapoint false
    if getAll = .new then do
      let (_, s, uploads) ← iotDataPointSendAll s result
      .ok ⟨s, uploads, false⟩
    else .ok ⟨s, [], false⟩

/-- `IOT_DataPoint_ParseReceiveDatapoints`, where `IOT_Comm_SendData` would return
`result`. -/
def iotDataPointParseReceiveDatapoints [Platform] (s : Store) (payload : Option Bytes)
    (result : Int) : Checked Received := do
  match ← parseDatapoints s payload with
  | none => .ok ⟨s, [], false⟩
  | some (s, _) => parseEnd s result

/-- What the end of the parser does: the first datapoint of the system is read and is new, or
the second is read too, and what has not been uploaded is where it is new. -/
theorem parseEnd_cases [Platform] {s : Store} {result : Int} {r : Received}
    (h : parseEnd s result = .ok r) :
    ∃ reset v s₁, iotDataPointReadBool s dpidDefaultBoolReset false = (reset, v, s₁) ∧
      (reset = .new ∧ r = ⟨s₁, [], true⟩ ∨ reset ≠ .new ∧ ∃ getAll v' s₂,
        iotDataPointReadBool s₁ dpidDefaultBoolGetalldatapoint false = (getAll, v', s₂) ∧
          (getAll = .new ∧
              (∃ rc, iotDataPointSendAll s₂ result = .ok (rc, r.store, r.uploads)) ∨
            getAll ≠ .new ∧ r = ⟨s₂, [], false⟩)) := by
  refine ⟨_, _, _, rfl, ?_⟩
  simp only [parseEnd] at h
  split at h
  next hreset =>
    cases h
    exact Or.inl ⟨hreset, rfl⟩
  next hreset =>
    refine Or.inr ⟨hreset, _, _, _, rfl, ?_⟩
    split at h
    next hget =>
      obtain ⟨⟨rc, s', uploads⟩, hsend, h⟩ := bind_eq_ok.mp h
      cases h
      exact Or.inl ⟨hget, rc, hsend⟩
    next hget =>
      cases h
      exact Or.inr ⟨hget, rfl⟩

end IotKit.Datapoint
