import IotKit.Datapoint.Store

/-!
# The definitions as one

The five `Define` functions have a common effect: an id that is not in the table gets
an entry, and one that is leaves the table as it is (`exec_cases`).
-/

namespace IotKit.Datapoint

open CMemory

/-- A call of one of the `Define` functions.  `fresh` is the memory that the entry
gets. -/
inductive Define where
  | bool (fresh : PropertyConf) (dpID : UInt16) (permission : Permission) (value : Bool)
  | number (fresh : PropertyConf) (dpID : UInt16) (permission : Permission)
      (minValue maxValue : ℚ) (resolution : Int) (value : ℚ)
  | enum (fresh : PropertyConf) (dpID : UInt16) (permission : Permission) (value : Int32)
  | string (fresh : PropertyConf) (dpID : UInt16) (permission : Permission) (value : Bytes)
  | binary (fresh : PropertyConf) (dpID : UInt16) (permission : Permission) (value : Bytes)

namespace Define

variable [Platform]

/-- The loop over the value of a binary never ends. -/
def Endless : Define → Prop
  | .binary _ _ _ value => 256 ≤ value.length
  | _ => False

/-- The call. -/
def exec (s : Store) : Define → Checked Store
  | .bool fresh dpID permission value => iotDataPointDefineBool s fresh dpID permission value
  | .number fresh dpID permission minValue maxValue resolution value =>
      iotDataPointDefineNumber s fresh dpID permission minValue maxValue resolution value
  | .enum fresh dpID permission value => iotDataPointDefineEnum s fresh dpID permission value
  | .string fresh dpID permission value => iotDataPointDefineString s fresh dpID permission value
  | .binary fresh dpID permission value => iotDataPointDefineBinary s fresh dpID permission value

/-- The entry that the call makes. -/
def property : Define → PropertyConf
  | .bool fresh dpID permission value =>
      { setDatapointValueInit fresh dpID .bool permission with boolValue := value }
  | .number fresh dpID permission minValue maxValue resolution value =>
      let p :=
        { setDatapointValueInit fresh dpID .num permission with minValue, maxValue, resolution }
      if resolution = 0 then { p with numberIntValue := int32OfDouble value }
      else { p with numberDoubleValue := value }
  | .enum fresh dpID permission value =>
      { setDatapointValueInit fresh dpID .enum permission with
        enumValue := if value < 0 then 0 else value }
  | .string fresh dpID permission value =>
      { setDatapointValueInit fresh dpID .string permission with stringValue := value }
  | .binary fresh dpID permission value =>
      { setDatapointValueInit fresh dpID .binary permission with binaryValue := value }

/-- The id that a definition is for. -/
def dpID : Define → UInt16
  | .bool _ dpID _ _ => dpID
  | .number _ dpID _ _ _ _ _ => dpID
  | .enum _ dpID _ _ => dpID
  | .string _ dpID _ _ => dpID
  | .binary _ dpID _ _ => dpID

/-- The entry of a number: the resolution decides which of the two values is stored. -/
theorem property_number {fresh : PropertyConf} {dpID : UInt16} {permission : Permission}
    {minValue maxValue value : ℚ} {resolution : Int} :
    (number fresh dpID permission minValue maxValue resolution value).property =
      { setDatapointValueInit fresh dpID .num permission with
        minValue, maxValue, resolution
        numberIntValue := if resolution = 0 then int32OfDouble value else fresh.numberIntValue
        numberDoubleValue := if resolution = 0 then fresh.numberDoubleValue else value } := by
  rw [property]
  dsimp only
  split
  next => rfl
  next => rfl

theorem dpID_property (d : Define) : d.property.dpID = d.dpID := by
  cases d with
  | number => rw [property_number]; rfl
  | _ => rfl

end Define

/-- An id that is there is left. -/
theorem define_of_some {s : Store} {p q : PropertyConf} (h : s.property p.dpID = some q) :
    define s p = .ok s := by
  rw [define]
  split
  next => rfl
  next hindex =>
    rw [Store.property, KeyTable.entry_eq_none.mpr (KeyTable.indexOf_eq_none.mp hindex)] at h
    cases h

/-- A new id gets an entry where there is room. -/
theorem define_of_none {s : Store} {p : PropertyConf} (h : s.property p.dpID = none)
    (hroom : s.properties.length < configPropertiesMax) :
    ∃ s', define s p = .ok s' ∧ s'.properties = s.properties ++ [p] := by
  have hnone : getPropertyIndex s p.dpID = none :=
    KeyTable.indexOf_eq_none.mpr (KeyTable.entry_eq_none.mp h)
  rw [define]
  split
  next index hindex =>
    rw [hnone] at hindex
    cases hindex
  next =>
    rw [dif_pos hroom]
    exact ⟨_, rfl, rfl⟩

/-- The common part adds the entry where its id is new. -/
theorem define_cases {s s' : Store} {p : PropertyConf} (h : define s p = .ok s') :
    (∃ q, s.property p.dpID = some q) ∧ s' = s ∨
      s.property p.dpID = none ∧ s'.properties = s.properties ++ [p] := by
  rw [define] at h
  split at h
  next index hindex =>
    cases h
    refine Or.inl ⟨?_, rfl⟩
    rw [Store.property, ← KeyTable.getElem?_indexOf hindex]
    exact ⟨_, List.getElem?_eq_getElem (KeyTable.indexOf_lt hindex)⟩
  next hindex =>
    split at h
    next =>
      cases h
      exact Or.inr ⟨KeyTable.entry_eq_none.mpr (KeyTable.indexOf_eq_none.mp hindex), rfl⟩
    next => cases h

namespace Define

variable [Platform] {s s' : Store} {d : Define}

theorem exec_define (h : d.exec s = .ok s') : define s d.property = .ok s' := by
  cases d with
  | bool => exact h
  | number => exact h
  | enum => exact h
  | string => exact h
  | binary fresh dpID permission value =>
      obtain ⟨t, hdefine, h⟩ := bind_eq_ok.mp h
      split at h
      · cases h
      · cases h
        exact hdefine

/-- The call returns where the common part does and the loop of a binary ends. -/
theorem exec_of_define (d : Define) (h : define s d.property = .ok s')
    (hends : s.property d.property.dpID = none → ¬ d.Endless) : d.exec s = .ok s' := by
  cases d with
  | bool => exact h
  | number => exact h
  | enum => exact h
  | string => exact h
  | binary fresh dpID permission value =>
      refine bind_eq_ok.mpr ⟨s', h, if_neg ?_⟩
      intro ⟨hindex, hlong⟩
      exact hends (KeyTable.entry_eq_none.mpr (KeyTable.indexOf_eq_none.mp hindex)) hlong

/-- What a definition does to the table. -/
theorem exec_cases (h : d.exec s = .ok s') :
    (∃ q, s.property d.property.dpID = some q) ∧ s' = s ∨
      s.property d.property.dpID = none ∧ s'.properties = s.properties ++ [d.property] :=
  define_cases (exec_define h)

end Define

end IotKit.Datapoint
