import IotKit.Datapoint.Define
import IotKit.Datapoint.Delivery

/-!
# The table as an array

`properties` is an array of `CONFIG_PROPERTIES_MAX` pointers, and what `HAL_Malloc`
returns is not cleared.  Here the table is that array, and a field is `none` until it is
assigned.  A `Store` is what a table denotes (`Describes`), as long as every definition
finds room and returns.

No definition assigns `change`, so a table is well formed only while it is empty, and
apart from `change` exactly in the runs whose definitions fit (`formed_iff`).
-/

namespace IotKit.Datapoint

open CMemory Runs

/-- `property_conf` in memory. -/
structure Entry where
  dpID : Option UInt16
  dataType : Option DataType
  permission : Option Permission
  change : Option Bool
  readFlag : Option ReadResult
  minValue : Option ℚ
  maxValue : Option ℚ
  resolution : Option Int
  boolValue : Option Bool
  numberIntValue : Option Int32
  numberDoubleValue : Option ℚ
  enumValue : Option Int32
  stringValue : Option Bytes
  binaryValue : Option Bytes
deriving DecidableEq

/-- What `HAL_Malloc` returns. -/
def Entry.malloc : Entry :=
  ⟨none, none, none, none, none, none, none, none, none, none, none, none, none, none⟩

/-- `properties` and `properties_count`. -/
structure Table where
  properties : List (Option Entry)
  propertiesCount : Nat
deriving DecidableEq

namespace Table

def empty : Table := ⟨List.replicate configPropertiesMax none, 0⟩

/-! ## The source -/

/-- The loop of `getPropertyIndex`, with so many passes to go. -/
def indexLoop (properties : List (Option Entry)) (dpID : UInt16) :
    Nat → Nat → Checked (Option Nat)
  | 0, _ => .ok none
  | n + 1, index =>
      match properties[index]? with
      | some (some e) =>
          if e.dpID = some dpID then .ok (some index) else indexLoop properties dpID n (index + 1)
      | _ => .error .load

/-- `getPropertyIndex`. -/
def getPropertyIndex (t : Table) (dpID : UInt16) : Checked (Option Nat) :=
  indexLoop t.properties dpID t.propertiesCount 0

/-- `properties[index] = e`. -/
def assign (t : Table) (index : Nat) (e : Entry) : Checked Table :=
  if index < t.properties.length then
    .ok { t with properties := t.properties.set index (some e) }
  else .error .index

/-- Assignments to fields of `*properties[index]`. -/
def update (t : Table) (index : Nat) (f : Entry → Checked Entry) : Checked Table :=
  match t.properties[index]? with
  | some (some e) => do
      let e ← f e
      .ok { t with properties := t.properties.set index (some e) }
  | _ => .error .index

/-- The fields that `setDatapointValueInit` assigns. -/
def valueInit (dpID : UInt16) (dataType : DataType) (permission : Permission) (e : Entry) :
    Entry :=
  { e with
    dpID := some dpID, dataType := some dataType, permission := some permission,
    readFlag := some .old }

/-- `setDatapointValueInit`. -/
def setDatapointValueInit (t : Table) (count : Nat) (dpID : UInt16) (dataType : DataType)
    (permission : Permission) : Checked Table := do
  let t ← t.assign count Entry.malloc
  t.update count fun e => .ok (valueInit dpID dataType permission e)

/-- The common body of the `Define` functions, where `fill` assigns the fields of the
type. -/
def define (t : Table) (dpID : UInt16) (dataType : DataType) (permission : Permission)
    (fill : Entry → Checked Entry) : Checked Table := do
  match ← t.getPropertyIndex dpID with
  | some _ => .ok t
  | none => do
      let t ← setDatapointValueInit t t.propertiesCount dpID dataType permission
      let t ← t.update t.propertiesCount fill
      .ok { t with propertiesCount := t.propertiesCount + 1 }

/-- `IOT_DataPoint_DefineBool`. -/
def iotDataPointDefineBool (t : Table) (dpID : UInt16) (permission : Permission)
    (value : Bool) : Checked Table :=
  define t dpID .bool permission fun e => .ok { e with boolValue := some value }

/-- The fields of a number. -/
def fillNumber [Platform] (minValue maxValue : ℚ) (resolution : Int) (value : ℚ) (e : Entry) :
    Entry :=
  let e :=
    if resolution = 0 then { e with numberIntValue := some (int32OfDouble value) }
    else { e with numberDoubleValue := some value }
  { e with
    minValue := some minValue, maxValue := some maxValue, resolution := some resolution }

/-- `IOT_DataPoint_DefineNumber`. -/
def iotDataPointDefineNumber [Platform] (t : Table) (dpID : UInt16) (permission : Permission)
    (minValue maxValue : ℚ) (resolution : Int) (value : ℚ) : Checked Table :=
  define t dpID .num permission fun e => .ok (fillNumber minValue maxValue resolution value e)

/-- `IOT_DataPoint_DefineEnum`. -/
def iotDataPointDefineEnum (t : Table) (dpID : UInt16) (permission : Permission)
    (value : Int32) : Checked Table :=
  define t dpID .enum permission fun e =>
    .ok { e with enumValue := some (if value < 0 then 0 else value) }

/-- `IOT_DataPoint_DefineString`. -/
def iotDataPointDefineString (t : Table) (dpID : UInt16) (permission : Permission)
    (value : Bytes) : Checked Table :=
  define t dpID .string permission fun e => .ok { e with stringValue := some value }

/-- The loop of `IOT_DataPoint_DefineBinary`, which counts in a `uint8_t`, and the
fields. -/
def fillBinary (value : Bytes) (e : Entry) : Checked Entry :=
  if 256 ≤ value.length then .error .diverge else .ok { e with binaryValue := some value }

/-- `IOT_DataPoint_DefineBinary`. -/
def iotDataPointDefineBinary (t : Table) (dpID : UInt16) (permission : Permission)
    (value : Bytes) : Checked Table :=
  define t dpID .binary permission (fillBinary value)

/-- The call. -/
def exec [Platform] (t : Table) : Define → Checked Table
  | .bool _ dpID permission value => iotDataPointDefineBool t dpID permission value
  | .number _ dpID permission minValue maxValue resolution value =>
      iotDataPointDefineNumber t dpID permission minValue maxValue resolution value
  | .enum _ dpID permission value => iotDataPointDefineEnum t dpID permission value
  | .string _ dpID permission value => iotDataPointDefineString t dpID permission value
  | .binary _ dpID permission value => iotDataPointDefineBinary t dpID permission value

end Table

/-! ## Well-formed tables -/

/-- The fields that the functions of the entry's type use, but for `change`. -/
def Entry.FieldsSet (e : Entry) : Prop :=
  e.dpID.isSome ∧ e.permission.isSome ∧ e.readFlag.isSome ∧
    match e.dataType with
    | none => False
    | some .bool => e.boolValue.isSome
    | some .num => e.minValue.isSome ∧ e.maxValue.isSome ∧
        ∃ resolution, e.resolution = some resolution ∧
          if resolution = 0 then e.numberIntValue.isSome else e.numberDoubleValue.isSome
    | some .enum => e.enumValue.isSome
    | some .string => e.stringValue.isSome
    | some .binary => e.binaryValue.isSome

/-- All of them. -/
def Entry.Initialised (e : Entry) : Prop := e.FieldsSet ∧ e.change.isSome

namespace Table

/-- An entry of the table has the id. -/
def Defined (t : Table) (dpID : UInt16) : Prop :=
  ∃ i e, i < t.propertiesCount ∧ t.properties[i]? = some (some e) ∧ e.dpID = some dpID

/-- At most `CONFIG_PROPERTIES_MAX` entries with distinct ids, the fields of each set, and
a definition of an id that is there changes nothing. -/
structure WellFormed [Platform] (set : Entry → Prop) (t : Table) : Prop where
  count : t.propertiesCount ≤ configPropertiesMax
  entries : ∀ i < t.propertiesCount, ∃ e, t.properties[i]? = some (some e) ∧ set e
  distinct : ∀ i j e e', i < j → j < t.propertiesCount → t.properties[i]? = some (some e) →
    t.properties[j]? = some (some e') → e.dpID ≠ e'.dpID
  redefine : ∀ d : Define, t.Defined d.dpID → exec t d = .ok t

/-- The definitions return, inside the array, and leave a well-formed table. -/
def Formed [Platform] (set : Entry → Prop) (calls : List Define) : Prop :=
  ∃ t, run exec empty calls = .ok t ∧ WellFormed set t

/-- The id is there, or there is room for it and its definition ends. -/
def Room (t : Table) (d : Define) : Prop :=
  t.Defined d.dpID ∨ t.propertiesCount < configPropertiesMax ∧ ¬ d.Endless

end Table

/-! ## What a table denotes -/

/-- The fields that are set have the values of the datapoint, and `change` is not set. -/
structure Entry.Describes (e : Entry) (p : PropertyConf) : Prop where
  dpID : e.dpID = some p.dpID
  dataType : e.dataType = some p.dataType
  permission : e.permission = some p.permission
  change : e.change = none
  readFlag : e.readFlag = some p.readFlag
  minValue : ∀ v, e.minValue = some v → p.minValue = v
  maxValue : ∀ v, e.maxValue = some v → p.maxValue = v
  resolution : ∀ v, e.resolution = some v → p.resolution = v
  boolValue : ∀ v, e.boolValue = some v → p.boolValue = v
  numberIntValue : ∀ v, e.numberIntValue = some v → p.numberIntValue = v
  numberDoubleValue : ∀ v, e.numberDoubleValue = some v → p.numberDoubleValue = v
  enumValue : ∀ v, e.enumValue = some v → p.enumValue = v
  stringValue : ∀ v, e.stringValue = some v → p.stringValue = v
  binaryValue : ∀ v, e.binaryValue = some v → p.binaryValue = v

namespace Table

/-- The table has the entries of the store in its array. -/
structure Describes (t : Table) (s : Store) : Prop where
  length : t.properties.length = configPropertiesMax
  count : t.propertiesCount = s.properties.length
  entry : ∀ (i : Nat) (p : PropertyConf), s.properties[i]? = some p →
    ∃ e : Entry, t.properties[i]? = some (some e) ∧ e.Describes p ∧ e.FieldsSet

section Describes

variable {t : Table} {s s' : Store} {dpID : UInt16}

theorem describes_empty : Describes empty Store.empty where
  length := List.length_replicate
  count := rfl
  entry := by
    intro i p hp
    rw [Store.empty, List.getElem?_nil] at hp
    cases hp

theorem Describes.indexLoop (h : Describes t s) :
    ∀ n index, index + n = s.properties.length →
      indexLoop t.properties dpID n index =
        .ok (((s.properties.drop index).findIdx? fun p => p.dpID = dpID).map (index + ·)) := by
  intro n
  induction n with
  | zero =>
      intro index hn
      rw [List.drop_of_length_le (by omega)]
      rfl
  | succ n ih =>
      intro index hn
      have hlt : index < s.properties.length := by omega
      obtain ⟨e, hget, hdesc, _⟩ := h.entry index _ (List.getElem?_eq_getElem hlt)
      rw [Table.indexLoop, hget, List.drop_eq_getElem_cons hlt, List.findIdx?_cons]
      dsimp only
      rw [hdesc.dpID]
      by_cases hid : s.properties[index].dpID = dpID
      · simp [hid]
      · simp only [Option.some.injEq, hid, if_false, decide_false, Bool.false_eq_true]
        rw [ih (index + 1) (by omega), Option.map_map]
        congr 2
        funext j
        show index + 1 + j = index + (j + 1)
        omega

/-- The scan finds what the scan of the store finds. -/
theorem Describes.getPropertyIndex (h : Describes t s) :
    getPropertyIndex t dpID = .ok (Datapoint.getPropertyIndex s dpID) := by
  rw [Table.getPropertyIndex, h.indexLoop _ 0 (by rw [h.count, Nat.zero_add]), List.drop_zero]
  simp [Datapoint.getPropertyIndex, KeyTable.indexOf]

theorem Describes.defined_iff (h : Describes t s) :
    t.Defined dpID ↔ ∃ p, s.property dpID = some p := by
  constructor
  · intro ⟨i, e, hi, hget, hid⟩
    rw [h.count] at hi
    obtain ⟨e', hget', hdesc, _⟩ := h.entry i _ (List.getElem?_eq_getElem hi)
    cases hget.symm.trans hget'
    rw [hdesc.dpID] at hid
    exact ⟨_, Store.property_eq_some.mpr ⟨List.getElem_mem hi, Option.some.inj hid⟩⟩
  · intro ⟨p, hp⟩
    obtain ⟨hmem, hid⟩ := Store.property_eq_some.mp hp
    obtain ⟨i, hi, rfl⟩ := List.mem_iff_getElem.mp hmem
    obtain ⟨e, hget, hdesc, _⟩ := h.entry i _ (List.getElem?_eq_getElem hi)
    exact ⟨i, e, h.count ▸ hi, hget, hdesc.dpID.trans (congrArg some hid)⟩

/-- A table that denotes a store is well formed but for `change`. -/
theorem Describes.distinct (h : Describes t s) {i j : Nat} {e e' : Entry} (hij : i < j)
    (hj : j < t.propertiesCount) (hi : t.properties[i]? = some (some e))
    (hj' : t.properties[j]? = some (some e')) : e.dpID ≠ e'.dpID := by
  rw [h.count] at hj
  have hi' : i < s.properties.length := Nat.lt_trans hij hj
  obtain ⟨f, hf, hdesc, _⟩ := h.entry i _ (List.getElem?_eq_getElem hi')
  obtain ⟨f', hf', hdesc', _⟩ := h.entry j _ (List.getElem?_eq_getElem hj)
  cases hi.symm.trans hf
  cases hj'.symm.trans hf'
  rw [hdesc.dpID, hdesc'.dpID]
  intro heq
  have hnodup := List.pairwise_iff_getElem.mp s.distinct i j (by simpa using hi')
    (by simpa using hj) hij
  simp only [List.getElem_map] at hnodup
  exact hnodup (Option.some.inj heq)

/-- The next entry of the array. -/
theorem Describes.append (h : Describes t s) {p : PropertyConf} {e : Entry}
    (hs' : s'.properties = s.properties ++ [p]) (hdesc : e.Describes p) (hset : e.FieldsSet) :
    Describes ⟨t.properties.set t.propertiesCount (some e), t.propertiesCount + 1⟩ s' where
  length := by rw [List.length_set, h.length]
  count := by rw [hs', List.length_append, h.count, List.length_singleton]
  entry := by
    intro i q hq
    have hroom : s.properties.length < t.properties.length := by
      have hfits := s'.fits
      rw [hs', List.length_append, List.length_singleton] at hfits
      rw [h.length]
      exact hfits
    rw [hs'] at hq
    rcases Nat.lt_or_ge i s.properties.length with hi | hi
    · rw [List.getElem?_append_left hi] at hq
      rw [List.getElem?_set_ne (by rw [h.count]; omega)]
      exact h.entry i q hq
    · obtain ⟨hlt, _⟩ := List.getElem?_eq_some_iff.mp hq
      rw [List.length_append, List.length_singleton] at hlt
      obtain rfl : i = s.properties.length := by omega
      rw [List.getElem?_concat_length] at hq
      cases hq
      rw [h.count, List.getElem?_set_self hroom]
      exact ⟨e, rfl, hdesc, hset⟩

/-! ## Definitions -/

variable {dataType : DataType} {permission : Permission} {fill : Entry → Checked Entry}

theorem define_defined (h : Describes t s) (hdef : t.Defined dpID) :
    define t dpID dataType permission fill = .ok t := by
  obtain ⟨p, hp⟩ := h.defined_iff.mp hdef
  rw [define, h.getPropertyIndex, ok_bind]
  cases hindex : Datapoint.getPropertyIndex s dpID with
  | some index => rfl
  | none =>
      rw [Store.property, KeyTable.entry_eq_none.mpr (KeyTable.indexOf_eq_none.mp hindex)] at hp
      cases hp

/-- A new id takes the next entry of the array, where there is one. -/
theorem define_new (h : Describes t s) (hnew : ¬ t.Defined dpID) :
    define t dpID dataType permission fill =
      if t.propertiesCount < configPropertiesMax then
        fill (valueInit dpID dataType permission Entry.malloc) >>= fun e =>
          .ok ⟨t.properties.set t.propertiesCount (some e), t.propertiesCount + 1⟩
      else .error .index := by
  have hindex : Datapoint.getPropertyIndex s dpID = none := by
    refine KeyTable.indexOf_eq_none.mpr fun p hp hid => hnew ?_
    exact h.defined_iff.mpr ⟨p, Store.property_eq_some.mpr ⟨hp, hid⟩⟩
  rw [define, h.getPropertyIndex, ok_bind, hindex]
  dsimp only
  rw [setDatapointValueInit, assign, h.length]
  split
  next hroom =>
    have hlt : t.propertiesCount < t.properties.length := h.length.symm ▸ hroom
    rw [ok_bind, update]
    simp only [List.getElem?_set_self hlt, ok_bind]
    rw [update]
    simp only [List.getElem?_set, hlt, if_true, List.set_set]
    cases fill (valueInit dpID dataType permission Entry.malloc) with
    | error e => rfl
    | ok e => rfl
  next => rfl

end Describes

section Exec

variable [Platform] {t : Table} {s : Store}

/-- What the definition assigns behind the common fields. -/
def fill : Define → Entry → Checked Entry
  | .bool _ _ _ value, e => .ok { e with boolValue := some value }
  | .number _ _ _ minValue maxValue resolution value, e =>
      .ok (fillNumber minValue maxValue resolution value e)
  | .enum _ _ _ value, e => .ok { e with enumValue := some (if value < 0 then 0 else value) }
  | .string _ _ _ value, e => .ok { e with stringValue := some value }
  | .binary _ _ _ value, e => fillBinary value e

theorem exec_eq (t : Table) (d : Define) :
    exec t d = define t d.dpID d.property.dataType d.property.permission (fill d) := by
  cases d with
  | number fresh dpID permission minValue maxValue resolution value =>
      rw [Define.property_number]
      rfl
  | _ => rfl

/-- The entry of a definition that ends: the fields of its type, and not `change`. -/
theorem fill_describes (d : Define) (hends : ¬ d.Endless) :
    ∃ e, fill d (valueInit d.dpID d.property.dataType d.property.permission Entry.malloc) = .ok e ∧
      e.Describes d.property ∧ e.FieldsSet := by
  cases d with
  | bool | enum | string =>
      refine ⟨_, rfl, ?_, rfl, rfl, rfl, rfl⟩
      constructor <;> simp [valueInit, Entry.malloc, Define.property,
        Datapoint.setDatapointValueInit, Define.dpID]
  | binary fresh dpID permission value =>
      refine ⟨_, if_neg hends, ?_, rfl, rfl, rfl, rfl⟩
      constructor <;> simp [valueInit, Entry.malloc, Define.property,
        Datapoint.setDatapointValueInit, Define.dpID]
  | number fresh dpID permission minValue maxValue resolution value =>
      by_cases hres : resolution = 0
      · refine ⟨_, rfl, ?_, ?_⟩
        · constructor <;> simp [valueInit, Entry.malloc, fillNumber, Define.property,
            Datapoint.setDatapointValueInit, Define.dpID, hres]
        · simp [Entry.FieldsSet, valueInit, Entry.malloc, fillNumber, Define.property,
            Datapoint.setDatapointValueInit, hres]
      · refine ⟨_, rfl, ?_, ?_⟩
        · constructor <;> simp [valueInit, Entry.malloc, fillNumber, Define.property,
            Datapoint.setDatapointValueInit, Define.dpID, hres]
        · simp [Entry.FieldsSet, valueInit, Entry.malloc, fillNumber, Define.property,
            Datapoint.setDatapointValueInit, hres]

theorem fill_endless (d : Define) (hends : d.Endless) (e : Entry) :
    fill d e = .error .diverge := by
  cases d with
  | binary => exact if_pos hends
  | _ => cases hends

/-- A definition returns exactly where it has room. -/
theorem exec_eq_ok (h : Describes t s) (d : Define) :
    (∃ t', exec t d = .ok t') ↔ Room t d := by
  rw [exec_eq, Room]
  by_cases hdef : t.Defined d.dpID
  · rw [define_defined h hdef]
    exact ⟨fun _ => Or.inl hdef, fun _ => ⟨t, rfl⟩⟩
  · rw [define_new h hdef]
    by_cases hends : d.Endless
    · split
      next =>
        rw [fill_endless d hends]
        exact ⟨fun ⟨_, h⟩ => (nomatch h), fun h => absurd hends (h.resolve_left hdef).2⟩
      next => exact ⟨fun ⟨_, h⟩ => (nomatch h), fun h => absurd hends (h.resolve_left hdef).2⟩
    · obtain ⟨e, he, _⟩ := fill_describes d hends
      rw [he, ok_bind]
      split
      next hroom => exact ⟨fun _ => Or.inr ⟨hroom, hends⟩, fun _ => ⟨_, rfl⟩⟩
      next hroom => exact ⟨fun ⟨_, h⟩ => (nomatch h), fun h => absurd (h.resolve_left hdef).1 hroom⟩

/-- The table after a definition denotes the store after it. -/
theorem exec_describes (h : Describes t s) {d : Define} {t' : Table} (hexec : exec t d = .ok t') :
    ∃ s', d.exec s = .ok s' ∧ Describes t' s' := by
  have hroom := (exec_eq_ok h d).mp ⟨t', hexec⟩
  rw [exec_eq] at hexec
  by_cases hdef : t.Defined d.dpID
  · rw [define_defined h hdef] at hexec
    cases hexec
    obtain ⟨q, hq⟩ := h.defined_iff.mp hdef
    refine ⟨s, d.exec_of_define (define_of_some (q := q) ?_) fun hnone => ?_, h⟩
    · rw [Define.dpID_property, hq]
    · rw [Define.dpID_property, hq] at hnone
      cases hnone
  · obtain ⟨hlt, hends⟩ := hroom.resolve_left hdef
    have hnone : s.property d.property.dpID = none := by
      rw [Define.dpID_property]
      cases hp : s.property d.dpID with
      | none => rfl
      | some p => exact absurd (h.defined_iff.mpr ⟨p, hp⟩) hdef
    obtain ⟨s', hdefine, hs'⟩ := define_of_none hnone (h.count ▸ hlt)
    obtain ⟨e, he, hdesc, hset⟩ := fill_describes d hends
    rw [define_new h hdef, if_pos hlt, he] at hexec
    cases hexec
    exact ⟨s', d.exec_of_define hdefine fun _ => hends, h.append hs' hdesc hset⟩

/-- A table that denotes a store is well formed, but for `change`. -/
theorem Describes.wellFormed (h : Describes t s) : WellFormed Entry.FieldsSet t := by
  refine ⟨h.count ▸ s.fits, ?_, fun i j e e' => h.distinct, ?_⟩
  · intro i hi
    rw [h.count] at hi
    obtain ⟨e, hget, _, hset⟩ := h.entry i _ (List.getElem?_eq_getElem hi)
    exact ⟨e, hget, hset⟩
  · intro d hdef
    rw [exec_eq]
    exact define_defined h hdef

/-- A run of definitions on the table is one on the store that it denotes. -/
theorem Describes.run_exec (h : Describes t s) {calls : List Define} {t' : Table}
    (hrun : run exec t calls = .ok t') :
    ∃ s', run (fun s d => Define.exec s d) s calls = .ok s' ∧ Describes t' s' := by
  induction calls generalizing t s with
  | nil =>
      cases hrun
      exact ⟨s, rfl, h⟩
  | cons d calls ih =>
      obtain ⟨t₁, hexec, hrun⟩ := run_cons.mp hrun
      obtain ⟨s₁, hs₁, h₁⟩ := exec_describes h hexec
      obtain ⟨s', hs', h'⟩ := ih h₁ hrun
      exact ⟨s', run_cons.mpr ⟨s₁, hs₁, hs'⟩, h'⟩

theorem run_describes {calls : List Define} (hrun : run exec empty calls = .ok t) :
    ∃ s, run (fun s d => Define.exec s d) Store.empty calls = .ok s ∧ Describes t s :=
  describes_empty.run_exec hrun

/-- After a definition there is an entry. -/
theorem exec_nonempty (h : Describes t s) {d : Define} {t' : Table} (hexec : exec t d = .ok t') :
    0 < t'.propertiesCount := by
  obtain ⟨s', hdefine, h'⟩ := exec_describes h hexec
  rw [h'.count]
  rcases Define.exec_cases hdefine with ⟨⟨q, hq⟩, rfl⟩ | ⟨_, hs'⟩
  · exact List.length_pos_of_mem (Store.property_eq_some.mp hq).1
  · rw [hs']
    simp

/-- A run that defines something does not leave an empty table. -/
theorem run_nil_of_count {calls : List Define} (hrun : run exec empty calls = .ok t)
    (hcount : t.propertiesCount = 0) : calls = [] := by
  rcases List.eq_nil_or_concat calls with hnil | ⟨calls, d, rfl⟩
  · exact hnil
  · rw [List.concat_eq_append, run_append] at hrun
    obtain ⟨t₁, hrun, hlast⟩ := hrun
    obtain ⟨t₂, hexec, hend⟩ := run_cons.mp hlast
    cases hend
    obtain ⟨s, -, h⟩ := run_describes hrun
    exact absurd hcount (Nat.ne_of_gt (exec_nonempty h hexec))

/-- No entry has its change flag set. -/
theorem not_initialised (h : Describes t s) (hset : WellFormed Entry.Initialised t) :
    t.propertiesCount = 0 := by
  by_contra hne
  have hpos := Nat.pos_of_ne_zero hne
  obtain ⟨e, hget, _, hchange⟩ := hset.entries 0 hpos
  obtain ⟨e', hget', hdesc, _⟩ := h.entry 0 _ (List.getElem?_eq_getElem (h.count ▸ hpos))
  cases hget.symm.trans hget'
  rw [hdesc.change] at hchange
  cases hchange

/-- The table of a run is well formed exactly where nothing is defined, and apart from
`change` exactly where every definition has room. -/
theorem formed_iff (calls : List Define) :
    (Formed Entry.Initialised calls ↔ calls = []) ∧
      (Formed Entry.FieldsSet calls ↔ Guarded exec Room empty calls) := by
  refine ⟨⟨?_, ?_⟩, ?_⟩
  · intro ⟨t, hrun, hset⟩
    obtain ⟨s, -, h⟩ := run_describes hrun
    exact run_nil_of_count hrun (not_initialised h hset)
  · intro hnil
    subst hnil
    refine ⟨empty, rfl, by decide, ?_, ?_, ?_⟩
    · intro i hi
      exact absurd hi (Nat.not_lt_zero i)
    · intro i j e e' _ hj
      exact absurd hj (Nat.not_lt_zero j)
    · intro d ⟨i, e, hi, _⟩
      exact absurd hi (Nat.not_lt_zero i)
  · refine @run_good_iff _ _ _ exec Room (fun t => ∃ s, Describes t s)
      (WellFormed Entry.FieldsSet) ?_ ?_ ?_ _ calls ⟨_, describes_empty⟩
      describes_empty.wellFormed
    · intro t d t' ⟨s, h⟩ hexec
      obtain ⟨s', _, h'⟩ := exec_describes h hexec
      exact ⟨s', h'⟩
    · intro t d t' ⟨s, h⟩ _ _
      exact h.wellFormed
    · intro t d ⟨s, h⟩ _
      rw [← exec_eq_ok h d]
      constructor
      · intro ⟨t', hexec, _⟩
        exact ⟨t', hexec⟩
      · intro ⟨t', hexec⟩
        obtain ⟨s', _, h'⟩ := exec_describes h hexec
        exact ⟨t', hexec, h'.wellFormed⟩

end Exec

/-- One datapoint is defined, and nothing has set its change flag. -/
theorem not_formed_bool : ¬ ∀ (P : Platform) (calls : List Define),
    @Formed P Entry.Initialised calls := by
  intro h
  obtain ⟨t, hrun, hset⟩ := h zeroPlatform [.bool zeroProperty 1 .upDown true]
  have hstart : run (@exec zeroPlatform) empty [.bool zeroProperty 1 .upDown true] =
      .ok ⟨(empty.properties.set 0 (some { valueInit 1 .bool .upDown Entry.malloc with
        boolValue := some true })), 1⟩ := by decide +kernel
  cases hrun.symm.trans hstart
  obtain ⟨e, hget, _, hchange⟩ := @WellFormed.entries zeroPlatform _ _ hset 0 Nat.one_pos
  cases hget
  cases hchange

end Table

end IotKit.Datapoint
