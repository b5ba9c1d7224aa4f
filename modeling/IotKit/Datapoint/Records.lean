import IotKit.Datapoint.Parse

/-!
# The loop of the parser as two stages

What the loop reads depends on the bytes and on the definitions of the datapoints,
and not on their values.  `Chunk` says what one pass makes of the bytes after the
type of a record, and `Reads` cuts a frame into passes and lists the writes that
the store accepts.  The loop reads the frame and applies the writes
(`parseLoop_eq_ok`).
-/

namespace IotKit.Datapoint

open CMemory

abbrev Definitions := UInt16 → Option Definition

/-- The definition of the datapoint with the id. -/
def Store.definition (s : Store) : Definitions := fun dpID =>
  (s.property dpID).map PropertyConf.definition

/-- What `case DATA_TYPE_NUM` writes to a datapoint with the definition. -/
def Definition.numberSetter [Platform] (d : Definition) (value : Int32) : Setter :=
  if d.resolution = 0 then numberInt32Setter (value + int32OfDouble d.minValue)
  else numberDoubleSetter (numberDouble d.minValue d.resolution value)

/-! ## One pass -/

/-- The type of the datapoint with the id. -/
def Definitions.type (D : Definitions) (dpID : UInt16) : Option DataType :=
  (D dpID).map Definition.dataType

/-- The record that a pass makes of `data` and what follows them. -/
inductive Chunk [Platform] (D : Definitions) (dpID : UInt16) :
    Option DataType → Bytes → Record → Prop where
  | bool {len value : UInt8} {rest : Bytes} :
      Chunk D dpID (some .bool) [len, value]
        ⟨boolSetter (value ≠ 0), len.toNat, rest.length + 1, rest⟩
  | num {d : Definition} {len : UInt8} {value rest : Bytes} :
      D dpID = some d → value.length = intWidth len →
      Chunk D dpID (some .num) (len :: value)
        ⟨d.numberSetter (ofIntBytes value), len.toNat, (value ++ rest).length, rest⟩
  | enum {len : UInt8} {value rest : Bytes} :
      value.length = intWidth len →
      Chunk D dpID (some .enum) (len :: value)
        ⟨enumSetter (ofIntBytes value), len.toNat, (value ++ rest).length, rest⟩
  | string {len value rest : Bytes} :
      Var len value.length →
      Chunk D dpID (some .string) (len ++ value)
        ⟨stringSetter (value.takeWhile (· ≠ 0)), value.length, (value ++ rest).length, rest⟩
  | binary {len value rest : Bytes} :
      D.type dpID = some .binary → Var len value.length →
      Chunk D dpID (some .binary) (len ++ value)
        ⟨binarySetter value, value.length, (value ++ rest).length, rest⟩
  | binarySkipped {len value rest : Bytes} :
      D.type dpID ≠ some .binary → Var len value.length →
      Chunk D dpID (some .binary) (len ++ value)
        ⟨none, value.length, (value ++ rest).length, rest⟩
  | binaryCut {len value : Bytes} {n : Nat} :
      D.type dpID ≠ some .binary → Var len n → value.length < n →
      Chunk D dpID (some .binary) (len ++ value) ⟨none, n, value.length, []⟩
  | unknown {rest : Bytes} : Chunk D dpID none [] ⟨none, 0, rest.length, rest⟩

section Pass

variable {s : Store} {dpID : UInt16} {w : Setter} {input : Bytes} {r : Record}

/-- The type of the datapoint, as its definition has it. -/
theorem type_definition : s.definition.type dpID = (s.property dpID).map PropertyConf.dataType :=
  Option.map_map ..

/-- A setter that goes by the type is accepted where the definition has the type. -/
theorem accepts_iff_type {t : DataType}
    (hw : ∀ p, s.property dpID = some p → (w.accepts p ↔ p.dataType = t)) :
    s.accepts dpID w ↔ s.definition.type dpID = some t := by
  rw [Store.accepts, type_definition]
  cases hp : s.property dpID with
  | none => exact ⟨nofun, nofun⟩
  | some p => exact (hw p hp).trans ⟨congrArg some, Option.some.inj⟩

theorem accepts_binary :
    s.accepts dpID (binarySetter []) ↔ s.definition.type dpID = some .binary :=
  accepts_iff_type fun _ _ => decide_eq_true_iff

variable [Platform]

/-- The case of a bool takes a length and one byte. -/
theorem parseBool_eq_ok :
    parseBool input = .ok r ↔
      ∃ data, input = data ++ r.rest ∧ Chunk s.definition dpID (some .bool) data r := by
  constructor
  · intro h
    obtain ⟨⟨len, data⟩, hlen, h⟩ := bind_eq_ok.mp h
    obtain ⟨⟨value, rest⟩, hvalue, h⟩ := bind_eq_ok.mp h
    cases h
    rw [next_eq_ok.mp hlen, next_eq_ok.mp hvalue]
    exact ⟨[len, value], rfl, .bool⟩
  · rintro ⟨data, rfl, h⟩
    cases h with
    | bool => rfl

/-- The case of a number takes a length and the bytes of an integer. -/
theorem parseNum_eq_ok :
    parseNum s dpID input = .ok r ↔
      ∃ data, input = data ++ r.rest ∧ Chunk s.definition dpID (some .num) data r := by
  constructor
  · intro h
    obtain ⟨⟨len, data⟩, hlen, h⟩ := bind_eq_ok.mp h
    obtain ⟨⟨value, rest⟩, hvalue, h⟩ := bind_eq_ok.mp h
    obtain ⟨p, hp, h⟩ := bind_eq_ok.mp h
    cases h
    obtain ⟨hwidth, rfl⟩ := nextN_eq_ok.mp hvalue
    have hdef : s.definition dpID = some p.definition := by
      rw [Store.definition, propertyAt_eq_ok.mp hp, Option.map_some]
    rw [next_eq_ok.mp hlen]
    exact ⟨len :: value, rfl, .num hdef hwidth⟩
  · rintro ⟨data, rfl, h⟩
    cases h with
    | @num d len value rest hdef hwidth =>
        obtain ⟨p, hp, rfl⟩ := Option.map_eq_some_iff.mp hdef
        refine bind_eq_ok.mpr ⟨(len, value ++ rest), rfl, ?_⟩
        refine bind_eq_ok.mpr ⟨(value, rest), nextN_eq_ok.mpr ⟨hwidth, rfl⟩, ?_⟩
        exact bind_eq_ok.mpr ⟨p, propertyAt_eq_ok.mpr hp, rfl⟩

/-- So does the case of an enumeration. -/
theorem parseEnum_eq_ok :
    parseEnum input = .ok r ↔
      ∃ data, input = data ++ r.rest ∧ Chunk s.definition dpID (some .enum) data r := by
  constructor
  · intro h
    obtain ⟨⟨len, data⟩, hlen, h⟩ := bind_eq_ok.mp h
    obtain ⟨⟨value, rest⟩, hvalue, h⟩ := bind_eq_ok.mp h
    cases h
    obtain ⟨hwidth, rfl⟩ := nextN_eq_ok.mp hvalue
    rw [next_eq_ok.mp hlen]
    exact ⟨len :: value, rfl, .enum hwidth⟩
  · rintro ⟨data, rfl, h⟩
    cases h with
    | @enum len value rest hwidth =>
        refine bind_eq_ok.mpr ⟨(len, value ++ rest), rfl, ?_⟩
        exact bind_eq_ok.mpr ⟨(value, rest), nextN_eq_ok.mpr ⟨hwidth, rfl⟩, rfl⟩

/-- The case of a string takes a length and as many bytes. -/
theorem parseString_eq_ok :
    parseString input = .ok r ↔
      ∃ data, input = data ++ r.rest ∧ Chunk s.definition dpID (some .string) data r := by
  constructor
  · intro h
    obtain ⟨⟨n, data⟩, hlen, h⟩ := bind_eq_ok.mp h
    obtain ⟨⟨value, rest⟩, hvalue, h⟩ := bind_eq_ok.mp h
    cases h
    obtain ⟨rfl, rfl⟩ := nextN_eq_ok.mp hvalue
    obtain ⟨len, hvar, rfl⟩ := readVar_eq_ok.mp hlen
    exact ⟨len ++ value, (List.append_assoc ..).symm, .string hvar⟩
  · rintro ⟨data, rfl, h⟩
    cases h with
    | @string len value rest hvar =>
        rw [List.append_assoc]
        refine bind_eq_ok.mpr ⟨(value.length, value ++ rest), readVar_append hvar, ?_⟩
        exact bind_eq_ok.mpr ⟨(value, rest), nextN_append, rfl⟩

/-- The case of a binary takes them also where the datapoint is of another type. -/
theorem parseBinary_eq_ok :
    parseBinary s dpID input = .ok r ↔
      ∃ data, input = data ++ r.rest ∧ Chunk s.definition dpID (some .binary) data r := by
  constructor
  · intro h
    obtain ⟨⟨n, data⟩, hlen, hread⟩ := bind_eq_ok.mp h
    obtain ⟨len, hvar, rfl⟩ := readVar_eq_ok.mp hlen
    dsimp only at hread
    split at hread
    next hacc =>
      obtain ⟨⟨value, rest⟩, hvalue, hread⟩ := bind_eq_ok.mp hread
      cases hread
      obtain ⟨rfl, rfl⟩ := nextN_eq_ok.mp hvalue
      exact ⟨len ++ value, (List.append_assoc ..).symm, .binary (accepts_binary.mp hacc) hvar⟩
    next hacc =>
      cases hread
      have htype : s.definition.type dpID ≠ some .binary := fun h => hacc (accepts_binary.mpr h)
      rcases Nat.lt_or_ge data.length n with hshort | hlong
      · refine ⟨len ++ data, ?_, ?_⟩
        · rw [List.drop_of_length_le (Nat.le_of_lt hshort), List.append_nil]
        · rw [List.drop_of_length_le (Nat.le_of_lt hshort)]
          exact .binaryCut htype hvar hshort
      · -- the bytes are all there: they split where the length says
        obtain ⟨value, rest, rfl, rfl⟩ : ∃ value rest, data = value ++ rest ∧ value.length = n :=
          ⟨data.take n, data.drop n, (List.take_append_drop n data).symm,
            List.length_take_of_le hlong⟩
        rw [List.drop_left]
        exact ⟨len ++ value, (List.append_assoc ..).symm, .binarySkipped htype hvar⟩
  · rintro ⟨data, rfl, h⟩
    cases h with
    | @binary len value rest htype hvar =>
        rw [List.append_assoc]
        refine bind_eq_ok.mpr ⟨(value.length, value ++ rest), readVar_append hvar, ?_⟩
        dsimp only
        rw [if_pos (accepts_binary.mpr htype)]
        exact bind_eq_ok.mpr ⟨(value, rest), nextN_append, rfl⟩
    | @binarySkipped len value rest htype hvar =>
        rw [List.append_assoc]
        refine bind_eq_ok.mpr ⟨(value.length, value ++ rest), readVar_append hvar, ?_⟩
        dsimp only
        rw [if_neg fun hacc => htype (accepts_binary.mp hacc), List.drop_left]
    | @binaryCut len value n htype hvar hshort =>
        rw [List.append_nil]
        refine bind_eq_ok.mpr ⟨(n, value), readVar_append hvar, ?_⟩
        dsimp only
        rw [if_neg fun hacc => htype (accepts_binary.mp hacc),
          List.drop_of_length_le (Nat.le_of_lt hshort)]

/-- A pass makes a record of some data exactly where they are a chunk. -/
theorem parseData_eq_ok {t : UInt8} :
    parseData s dpID t input = .ok r ↔
      ∃ data, input = data ++ r.rest ∧ Chunk s.definition dpID (DataType.ofCode t) data r := by
  rw [parseData]
  cases DataType.ofCode t with
  | none =>
      constructor
      · intro h
        cases h
        exact ⟨[], rfl, .unknown⟩
      · rintro ⟨data, rfl, h⟩
        cases h with
        | unknown => rfl
  | some type =>
      cases type with
      | bool => exact parseBool_eq_ok
      | num => exact parseNum_eq_ok
      | enum => exact parseEnum_eq_ok
      | string => exact parseString_eq_ok
      | binary => exact parseBinary_eq_ok

/-- The parser reads a record exactly where the input begins with one. -/
theorem parseRecord_eq_ok {parsed : Parsed} :
    parseRecord s input = .ok parsed ↔
      ∃ id n t data r, input = id ++ t :: (data ++ r.rest) ∧ Var id n ∧
        Chunk s.definition (UInt16.ofNat n) (DataType.ofCode t) data r ∧
        parsed = applyRecord s (UInt16.ofNat n) r := by
  constructor
  · intro h
    obtain ⟨⟨n, input'⟩, hid, h⟩ := bind_eq_ok.mp h
    obtain ⟨⟨t, input''⟩, ht, h⟩ := bind_eq_ok.mp h
    obtain ⟨r, hdata, h⟩ := bind_eq_ok.mp h
    cases h
    obtain ⟨id, hvar, rfl⟩ := readVar_eq_ok.mp hid
    obtain ⟨data, rfl, hchunk⟩ := parseData_eq_ok.mp hdata
    exact ⟨id, n, t, data, r, congrArg (id ++ ·) (next_eq_ok.mp ht), hvar, hchunk, rfl⟩
  · rintro ⟨id, n, t, data, r, rfl, hvar, hchunk, rfl⟩
    refine bind_eq_ok.mpr ⟨_, readVar_append hvar, bind_eq_ok.mpr ⟨_, next_cons, ?_⟩⟩
    exact bind_eq_ok.mpr ⟨r, parseData_eq_ok.mpr ⟨data, rfl, hchunk⟩, rfl⟩

end Pass

/-! ## The writes of a frame -/

/-- A write of the cloud to the datapoint with the id. -/
structure Write where
  dpID : UInt16
  setter : Setter

/-- The write of a record where the datapoint has the type of the record. -/
def Record.writes (r : Record) (D : Definitions) (dpID : UInt16) (type : Option DataType) :
    List Write :=
  match r.setter with
  | some w => if D.type dpID = type then [⟨dpID, w⟩] else []
  | none => []

/-- What a record writes is decided by its setter. -/
theorem Record.writes_congr {D : Definitions} {r r' : Record} {dpID : UInt16}
    {type : Option DataType} (h : r'.setter = r.setter) :
    r'.writes D dpID type = r.writes D dpID type := by
  rw [Record.writes, h, Record.writes]

/-- A record of another type than the datapoint writes nothing. -/
theorem Record.writes_of_ne {D : Definitions} {r : Record} {dpID : UInt16}
    {type : Option DataType} (h : D.type dpID ≠ type) : r.writes D dpID type = [] := by
  rw [Record.writes]
  split
  next => exact if_neg h
  next => rfl

/-- A record writes to the datapoint it names. -/
theorem Record.dpID_of_mem_writes {D : Definitions} {r : Record} {dpID : UInt16}
    {type : Option DataType} {a : Write} (h : a ∈ r.writes D dpID type) : a.dpID = dpID := by
  rw [Record.writes] at h
  split at h
  next =>
    split at h
    next => rw [List.mem_singleton.mp h]
    next => cases h
  next => cases h

/-- The passes that the loop makes over `input`, before `rest`, write this. -/
inductive Reads [Platform] (D : Definitions) (rest : Bytes) : Bytes → List Write → Prop where
  | nil : Reads D rest [] []
  | cons {id data input : Bytes} {n : Nat} {t : UInt8} {r : Record} {ws : List Write} :
      Var id n → Chunk D (UInt16.ofNat n) (DataType.ofCode t) data r → r.rest = input ++ rest →
      Reads D rest input ws →
      Reads D rest (id ++ t :: (data ++ input))
        (r.writes D (UInt16.ofNat n) (DataType.ofCode t) ++ ws)

/-- The writes, one after the other. -/
def writeAll (s : Store) (ws : List Write) : Store :=
  ws.foldl (fun s a => writeDatapoint s a.dpID a.setter false) s

@[simp] theorem writeAll_nil (s : Store) : writeAll s [] = s := rfl

@[simp] theorem writeAll_cons (s : Store) (a : Write) (ws : List Write) :
    writeAll s (a :: ws) = writeAll (writeDatapoint s a.dpID a.setter false) ws := rfl

theorem writeAll_append (s : Store) (ws ws' : List Write) :
    writeAll s (ws ++ ws') = writeAll (writeAll s ws) ws' := List.foldl_append

section Writes

variable {s : Store} {dpID : UInt16} {w : Setter}

/-- A store is its list. -/
theorem Store.ext {s s' : Store} (h : s.properties = s'.properties) : s = s' := by
  cases s
  cases s'
  cases h
  rfl

theorem Setter.write_of_not_accepts {type : Bool} {p : PropertyConf} (h : ¬ w.accepts p) :
    w.write type p = p := if_neg h

/-- A write that is not accepted leaves the store. -/
theorem writeDatapoint_of_not_accepts {type : Bool} (h : ¬ s.accepts dpID w) :
    writeDatapoint s dpID w type = s := by
  refine Store.ext (writeDatapoint_properties.trans ?_)
  conv_rhs => rw [← List.map_id s.properties]
  refine List.map_congr_left fun p hp => ?_
  split
  next hid =>
    refine Setter.write_of_not_accepts fun hacc => h ?_
    rw [Store.accepts, Store.property_eq_some.mpr ⟨hp, hid⟩]
    exact hacc
  next => rfl

/-- So does one to a datapoint that is not there. -/
theorem writeDatapoint_of_none {type : Bool} (h : s.property dpID = none) :
    writeDatapoint s dpID w type = s :=
  writeDatapoint_of_not_accepts (by simp [Store.accepts, h])

@[simp] theorem definition_writeDatapoint {type : Bool} :
    (writeDatapoint s dpID w type).definition = s.definition := by
  funext id
  rw [Store.definition, Store.definition, property_writeDatapoint, Option.map_map]
  congr 1
  funext p
  rw [Function.comp_apply]
  split
  · exact w.write_definition type p
  · rfl

@[simp] theorem definition_writeAll {ws : List Write} :
    (writeAll s ws).definition = s.definition := by
  induction ws generalizing s with
  | nil => rfl
  | cons a ws ih => rw [writeAll_cons, ih, definition_writeDatapoint]

variable [Platform] {type : Option DataType} {data : Bytes} {r : Record}

theorem accepts_numberSetter {d : Definition} {value : Int32} (hd : s.definition dpID = some d) :
    s.accepts dpID (d.numberSetter value) ↔ s.definition.type dpID = some .num := by
  obtain ⟨p, hp, rfl⟩ := Option.map_eq_some_iff.mp hd
  refine accepts_iff_type fun q hq => ?_
  obtain rfl := Option.some.inj (hp.symm.trans hq)
  rw [Definition.numberSetter]
  split
  next hres => exact decide_eq_true_iff.trans (and_iff_left hres)
  next hres => exact decide_eq_true_iff.trans (and_iff_left hres)

/-- A store takes a write exactly where the datapoint has the type of the record. -/
theorem Chunk.accepts_iff (h : Chunk s.definition dpID type data r) (hw : r.setter = some w) :
    s.accepts dpID w ↔ s.definition.type dpID = type := by
  cases h with
  | bool =>
      cases hw
      exact accepts_iff_type fun _ _ => decide_eq_true_iff
  | num hd =>
      cases hw
      exact accepts_numberSetter hd
  | enum =>
      cases hw
      exact accepts_iff_type fun _ _ => decide_eq_true_iff
  | string =>
      cases hw
      exact accepts_iff_type fun _ _ => decide_eq_true_iff
  | binary =>
      cases hw
      exact accepts_iff_type fun _ _ => decide_eq_true_iff
  | binarySkipped => cases hw
  | binaryCut => cases hw
  | unknown => cases hw

/-- The store after a record is the store after its writes. -/
theorem Chunk.store (h : Chunk s.definition dpID type data r) :
    (applyRecord s dpID r).store = writeAll s (r.writes s.definition dpID type) := by
  rw [applyRecord, Record.writes]
  cases hw : r.setter with
  | none => rfl
  | some w =>
      dsimp only
      split
      next => rfl
      next htype =>
        exact writeDatapoint_of_not_accepts fun hacc => htype ((h.accepts_iff hw).mp hacc)

/-- Every write that is read is taken. -/
theorem Chunk.accepts (h : Chunk s.definition dpID type data r) :
    ∀ a ∈ r.writes s.definition dpID type, s.accepts a.dpID a.setter := by
  intro a ha
  rw [Record.writes] at ha
  cases hw : r.setter with
  | none =>
      rw [hw] at ha
      cases ha
  | some w =>
      rw [hw] at ha
      dsimp only at ha
      split at ha
      next htype =>
        rw [List.mem_singleton.mp ha]
        exact (h.accepts_iff hw).mpr htype
      next => cases ha

end Writes

/-! ## What the writes leave -/

section Effect

variable {s : Store} {id : UInt16} {ws : List Write}

/-- Writes to other datapoints leave a datapoint. -/
theorem property_writeAll_of_ne (h : ∀ a ∈ ws, a.dpID ≠ id) :
    (writeAll s ws).property id = s.property id := by
  induction ws generalizing s with
  | nil => rfl
  | cons a ws ih =>
      rw [writeAll_cons, ih fun b hb => h b (List.mem_cons_of_mem a hb),
        property_writeDatapoint_of_ne (h a List.mem_cons_self).symm]

/-- A write of the cloud that is taken raises both flags. -/
theorem Setter.write_flags {w : Setter} {p : PropertyConf} (h : w.accepts p) :
    (w.write false p).change = true ∧ (w.write false p).readFlag = .new := by
  rw [Setter.write]
  dsimp only
  rw [if_pos h]
  split
  · exact ⟨rfl, rfl⟩
  · exact ⟨rfl, rfl⟩

/-- Both flags are raised on the datapoint with the id. -/
def Store.Raised (s : Store) (id : UInt16) : Prop :=
  ∃ p, s.property id = some p ∧ p.change = true ∧ p.readFlag = .new

theorem Store.Raised.write {a : Write} (h : s.Raised id) :
    (writeDatapoint s a.dpID a.setter false).Raised id := by
  obtain ⟨p, hp, hchange, hflag⟩ := h
  rw [Store.Raised, property_writeDatapoint, hp]
  refine ⟨_, rfl, ?_⟩
  dsimp only
  split
  next =>
    by_cases hacc : a.setter.accepts p
    · exact Setter.write_flags hacc
    · rw [Setter.write_of_not_accepts hacc]
      exact ⟨hchange, hflag⟩
  next => exact ⟨hchange, hflag⟩

/-- What has been raised stays raised. -/
theorem Store.Raised.writeAll (h : s.Raised id) : (writeAll s ws).Raised id := by
  induction ws generalizing s with
  | nil => exact h
  | cons a ws ih => exact ih h.write

/-- The writes are taken by every store with the definitions. -/
def Taken (D : Definitions) (ws : List Write) : Prop :=
  ∀ s : Store, s.definition = D → ∀ a ∈ ws, s.accepts a.dpID a.setter

/-- A write that is taken raises its datapoint. -/
theorem raised_of_mem (h : Taken s.definition ws) {a : Write} (ha : a ∈ ws) :
    (IotKit.Datapoint.writeAll s ws).Raised a.dpID := by
  induction ws generalizing s with
  | nil => cases ha
  | cons b ws ih =>
      rw [writeAll_cons]
      rcases List.mem_cons.mp ha with rfl | ha
      · refine Store.Raised.writeAll ?_
        have hacc := h s rfl a List.mem_cons_self
        rw [Store.accepts] at hacc
        rw [Store.Raised, property_writeDatapoint_self]
        cases hp : s.property a.dpID with
        | none =>
            rw [hp] at hacc
            cases hacc
        | some p =>
            rw [hp] at hacc
            exact ⟨_, rfl, Setter.write_flags hacc⟩
      · refine ih (fun s' hs' c hc => h s' (hs'.trans definition_writeDatapoint) c ?_) ha
        exact List.mem_cons_of_mem b hc

/-- All writes of a payload are taken. -/
theorem Reads.taken [Platform] {D : Definitions} {rest input : Bytes}
    (h : Reads D rest input ws) : Taken D ws := by
  rintro s rfl
  induction h with
  | nil => exact nofun
  | cons _ hchunk _ _ ih =>
      intro a ha
      exact (List.mem_append.mp ha).elim (hchunk.accepts a) (ih a)

end Effect

/-! ## The loop -/

section Loop

variable [Platform] {D : Definitions} {s s' : Store} {input rest : Bytes} {ws ws' : List Write}

theorem Reads.nil_writes (h : Reads D rest [] ws) : ws = [] := by
  generalize hinput : ([] : Bytes) = bytes at h
  cases h with
  | nil => rfl
  | cons => simp at hinput

/-- One pass. -/
theorem Reads.single {id data : Bytes} {n : Nat} {t : UInt8} {r : Record} (hid : Var id n)
    (hchunk : Chunk D (UInt16.ofNat n) (DataType.ofCode t) data r) (hrest : r.rest = rest) :
    Reads D rest (id ++ t :: data) (r.writes D (UInt16.ofNat n) (DataType.ofCode t)) := by
  have hpiece := Reads.cons hid hchunk (hrest.trans rest.nil_append.symm) .nil
  rwa [List.append_nil, List.append_nil] at hpiece

/-- A payload may be read in two parts. -/
theorem Reads.append {input' : Bytes} (h : Reads D (input' ++ rest) input ws)
    (h' : Reads D rest input' ws') : Reads D rest (input ++ input') (ws ++ ws') := by
  induction h with
  | nil => exact h'
  | @cons id data input n t r ws hvar hchunk hrest _ ih =>
      have := Reads.cons hvar hchunk (hrest.trans (List.append_assoc ..).symm) ih
      simpa only [List.append_assoc, List.cons_append] using this

/-- One pass of the loop. -/
theorem parseLoop_succ_eq_ok {fuel : Nat} (hinput : input ≠ []) :
    (∃ applied, parseLoop (fuel + 1) s input = .ok (s', applied)) ↔
      ∃ parsed, parseRecord s input = .ok parsed ∧
        ∃ applied, parseLoop fuel parsed.store parsed.rest = .ok (s', applied) := by
  rw [parseLoop_of_ne_nil hinput]
  constructor
  · rintro ⟨applied, h⟩
    obtain ⟨parsed, hparsed, h⟩ := bind_eq_ok.mp h
    obtain ⟨⟨s'', applied'⟩, hloop, h⟩ := bind_eq_ok.mp h
    cases h
    exact ⟨parsed, hparsed, applied', hloop⟩
  · rintro ⟨parsed, hparsed, applied, hloop⟩
    exact ⟨_, bind_eq_ok.mpr ⟨parsed, hparsed, bind_eq_ok.mpr ⟨(s', applied), hloop, rfl⟩⟩⟩

/-- The loop reads the frame and applies the writes. -/
theorem parseLoop_eq_ok {fuel : Nat} (hfuel : input.length ≤ fuel) :
    (∃ applied, parseLoop fuel s input = .ok (s', applied)) ↔
      ∃ ws, Reads s.definition [] input ws ∧ s' = writeAll s ws := by
  induction fuel generalizing s input with
  | zero =>
      obtain rfl := List.length_eq_zero_iff.mp (Nat.le_zero.mp hfuel)
      rw [parseLoop_nil]
      constructor
      · rintro ⟨applied, h⟩
        cases h
        exact ⟨[], .nil, rfl⟩
      · rintro ⟨ws, h, rfl⟩
        rw [h.nil_writes]
        exact ⟨[], rfl⟩
  | succ fuel ih =>
      by_cases hne : input = []
      · subst hne
        have hnil := @ih s [] (Nat.zero_le _)
        rwa [parseLoop_nil] at hnil ⊢
      · rw [parseLoop_succ_eq_ok hne]
        constructor
        · rintro ⟨_, hparsed, hloop⟩
          obtain ⟨id, n, t, data, r, rfl, hvar, hchunk, rfl⟩ := parseRecord_eq_ok.mp hparsed
          have hlen : r.rest.length ≤ fuel := by
            simp only [List.length_append, List.length_cons] at hfuel
            omega
          rw [applyRecord_rest, hchunk.store] at hloop
          obtain ⟨ws, hreads, rfl⟩ := (ih hlen).mp hloop
          rw [definition_writeAll] at hreads
          refine ⟨_, .cons hvar hchunk (List.append_nil _).symm hreads, ?_⟩
          rw [writeAll_append]
        · rintro ⟨ws, hreads, rfl⟩
          cases hreads with
          | nil => exact absurd rfl hne
          | @cons id data input n t r ws hvar hchunk hrest hreads =>
              obtain rfl : r.rest = input := hrest.trans (List.append_nil _)
              have hlen : r.rest.length ≤ fuel := by
                simp only [List.length_append, List.length_cons] at hfuel
                omega
              refine ⟨_, parseRecord_eq_ok.mpr ⟨id, n, t, data, r, rfl, hvar, hchunk, rfl⟩, ?_⟩
              rw [applyRecord_rest, hchunk.store]
              exact (ih hlen).mpr ⟨ws, definition_writeAll.symm ▸ hreads, writeAll_append ..⟩

end Loop

/-! ## The requests after the loop -/

section Requests

variable {s s' : Store} {id : UInt16}

/-- A datapoint has a new value. -/
def Store.Requests (s : Store) (id : UInt16) : Prop :=
  ∃ p, s.property id = some p ∧ p.readFlag = .new

/-- The store after the datapoint was read. -/
def consume (s : Store) (id : UInt16) : Store := (iotDataPointReadBool s id false).2.2

theorem property_consume {id' : UInt16} :
    (consume s id).property id' =
      (s.property id').map fun p => if p.dpID = id then { p with readFlag := .old } else p := by
  rw [consume, Store.property, iotDataPointReadBool_properties]
  refine KeyTable.entry_map fun p => ?_
  split
  · rfl
  · rfl

theorem property_consume_of_ne {id' : UInt16} (h : id' ≠ id) :
    (consume s id).property id' = s.property id' := by
  rw [property_consume]
  cases hp : s.property id' with
  | none => rfl
  | some p =>
      rw [Option.map_some, if_neg fun hid => h ((Store.property_eq_some.mp hp).2.symm.trans hid)]

theorem property_consume_self :
    (consume s id).property id = (s.property id).map fun p => { p with readFlag := .old } := by
  rw [property_consume]
  cases hp : s.property id with
  | none => rfl
  | some p => rw [Option.map_some, Option.map_some, if_pos (Store.property_eq_some.mp hp).2]

/-- A datapoint that was read already stays as it is. -/
theorem consume_eq_self (h : ∀ p, s.property id = some p → p.readFlag = .old) :
    consume s id = s := by
  refine Store.ext (iotDataPointReadBool_properties.trans ?_)
  conv_rhs => rw [← List.map_id s.properties]
  refine List.map_congr_left fun p hp => ?_
  split
  next hid =>
    rw [← h p (Store.property_eq_some.mpr ⟨hp, hid⟩)]
    rfl
  next => rfl

theorem requests_consume_of_ne {id' : UInt16} (h : id' ≠ id) :
    (consume s id).Requests id' ↔ s.Requests id' := by
  rw [Store.Requests, property_consume_of_ne h, Store.Requests]

/-- A read finds a new value where the datapoint was written and not read. -/
theorem iotDataPointReadBool_new {value : Bool} :
    (iotDataPointReadBool s id value).1 = .new ↔ s.Requests id := by
  have hnone : ¬∃ p : PropertyConf, none = some p ∧ p.readFlag = .new := by
    rintro ⟨_, hp, _⟩
    cases hp
  rw [iotDataPointReadBool, Store.Requests, Store.property]
  cases hindex : getPropertyIndex s id with
  | none =>
      rw [KeyTable.entry_eq_none.mpr (KeyTable.indexOf_eq_none.mp hindex)]
      exact iff_of_false (by decide : ReadResult.none ≠ .new) hnone
  | some index =>
      dsimp only
      rw [KeyTable.getElem?_indexOf hindex]
      cases KeyTable.entry PropertyConf.dpID id s.properties with
      | none => exact iff_of_false (by decide : ReadResult.none ≠ .new) hnone
      | some p =>
          constructor
          · exact fun h => ⟨p, rfl, h⟩
          · rintro ⟨_, ⟨⟩, h⟩
            exact h

theorem property_clearPropertyChangeFlag :
    (clearPropertyChangeFlag s).property id =
      (s.property id).map fun p => { p with change := false } := Store.property_map id

theorem requests_getAll_consume :
    (consume s dpidDefaultBoolReset).Requests dpidDefaultBoolGetalldatapoint ↔
      s.Requests dpidDefaultBoolGetalldatapoint := requests_consume_of_ne (by decide)

variable [Platform] {result : Int}

theorem sendAll_store {rc : Int} {uploads : List Upload}
    (h : iotDataPointSendAll s result = .ok (rc, s', uploads)) :
    s' = clearPropertyChangeFlag s := by
  rw [iotDataPointSendAll] at h
  split at h
  next hempty =>
    cases h
    refine Store.ext ?_
    show s.properties = s.properties.map _
    rw [List.length_eq_zero_iff.mp hempty]
    rfl
  next =>
    obtain ⟨u, _, h⟩ := bind_eq_ok.mp h
    cases h
    rfl

/-! A reset comes first, then an upload of everything. -/

/-- A reset is the first thing the parser looks for. -/
theorem parseEnd_reset (h : s.Requests dpidDefaultBoolReset) :
    parseEnd s result = .ok ⟨consume s dpidDefaultBoolReset, [], true⟩ :=
  if_pos (iotDataPointReadBool_new.mpr h)

/-- Without a reset it looks for the request of all datapoints. -/
theorem parseEnd_getAll (h : ¬ s.Requests dpidDefaultBoolReset)
    (hget : s.Requests dpidDefaultBoolGetalldatapoint) :
    parseEnd s result =
      iotDataPointSendAll (consume (consume s dpidDefaultBoolReset) dpidDefaultBoolGetalldatapoint)
        result >>= fun r => .ok ⟨r.2.1, r.2.2, false⟩ := by
  refine (if_neg fun hnew => h (iotDataPointReadBool_new.mp hnew)).trans ?_
  exact if_pos (iotDataPointReadBool_new.mpr (requests_getAll_consume.mpr hget))

/-- Without either it is done. -/
theorem parseEnd_plain (h : ¬ s.Requests dpidDefaultBoolReset)
    (hget : ¬ s.Requests dpidDefaultBoolGetalldatapoint) :
    parseEnd s result =
      .ok ⟨consume (consume s dpidDefaultBoolReset) dpidDefaultBoolGetalldatapoint, [], false⟩ := by
  refine (if_neg fun hnew => h (iotDataPointReadBool_new.mp hnew)).trans ?_
  exact if_neg fun hnew => hget (requests_getAll_consume.mp (iotDataPointReadBool_new.mp hnew))

/-- A write shows in the store that the parser leaves: the reset keeps the change flag, an
upload clears the change flags of the others, and nothing else reads their flags. -/
theorem Store.Raised.shows {r : Received} {q : PropertyConf} (h : s.Raised id)
    (hend : parseEnd s result = .ok r) (hq : r.store.property id = some q) :
    ¬ (q.readFlag = .old ∧ q.change = decide (id ≠ dpidDefaultBoolReset)) := by
  obtain ⟨p, hp, hchange, hflag⟩ := h
  rintro ⟨hqflag, hqchange⟩
  by_cases hreset : s.Requests dpidDefaultBoolReset
  · rw [parseEnd_reset hreset] at hend
    cases hend
    by_cases hid : id = dpidDefaultBoolReset
    · subst hid
      rw [property_consume_self, hp] at hq
      cases hq
      simp [hchange] at hqchange
    · rw [property_consume_of_ne hid, hp] at hq
      cases hq
      cases hflag.symm.trans hqflag
  · have hid : id ≠ dpidDefaultBoolReset := fun h => hreset (h ▸ ⟨p, hp, hflag⟩)
    by_cases hget : s.Requests dpidDefaultBoolGetalldatapoint
    · rw [parseEnd_getAll hreset hget] at hend
      obtain ⟨⟨rc, s', uploads⟩, hsend, hend⟩ := bind_eq_ok.mp hend
      cases hend
      dsimp only at hq
      rw [sendAll_store hsend, property_clearPropertyChangeFlag] at hq
      obtain ⟨_, _, rfl⟩ := Option.map_eq_some_iff.mp hq
      simp [hid] at hqchange
    · have hid' : id ≠ dpidDefaultBoolGetalldatapoint := fun h => hget (h ▸ ⟨p, hp, hflag⟩)
      rw [parseEnd_plain hreset hget] at hend
      cases hend
      rw [property_consume_of_ne hid', property_consume_of_ne hid, hp] at hq
      cases hq
      cases hflag.symm.trans hqflag

/-! ## The parser -/

variable {body : Bytes} {ws : List Write}

/-- The parser applies the writes of a frame and then does what is requested. -/
theorem receive_eq (h : Reads s.definition [] body ws) :
    iotDataPointParseReceiveDatapoints s (some (0x31 :: body)) result =
      parseEnd (writeAll s ws) result := by
  obtain ⟨applied, hloop⟩ := (parseLoop_eq_ok (Nat.le_refl _)).mpr ⟨ws, h, rfl⟩
  rw [iotDataPointParseReceiveDatapoints, parseDatapoints_cons, if_pos rfl, hloop]
  rfl

/-- A call reads the records and then looks for the requests of the system. -/
theorem receive_eq_ok {r : Received} :
    iotDataPointParseReceiveDatapoints s (some (0x31 :: body)) result = .ok r ↔
      ∃ ws, Reads s.definition [] body ws ∧ parseEnd (writeAll s ws) result = .ok r := by
  constructor
  · intro h
    obtain ⟨parsed, hparsed, hend⟩ := bind_eq_ok.mp h
    rw [parseDatapoints_cons, if_pos rfl] at hparsed
    obtain ⟨⟨s₁, applied⟩, hloop, hparsed⟩ := bind_eq_ok.mp hparsed
    cases hparsed
    obtain ⟨ws, hreads, rfl⟩ := (parseLoop_eq_ok (Nat.le_refl _)).mp ⟨applied, hloop⟩
    exact ⟨ws, hreads, hend⟩
  · rintro ⟨ws, hreads, hend⟩
    rw [receive_eq hreads, hend]

end Requests

end IotKit.Datapoint
