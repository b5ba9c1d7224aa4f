import IotKit.Datapoint.ReadFlag

/-!
# The copy of a binary definition

`IOT_DataPoint_DefineBinary` with its loop and its allocations.  The counter of the loop is a
`uint8_t` and the length a `uint16_t`: from 256 bytes on the counter never reaches the length,
so that the loop goes over the first 256 bytes again and again.  `Store` takes the loop for
granted, and `iotDataPointDefineBinary_eq` says that it may.

A definition that returns is one of at most 255 bytes, and it holds all of them
(`defineBinary_copied_iff`).
-/

namespace IotKit.Datapoint

open CMemory

namespace BinaryCopy

/-- The loop of `IOT_DataPoint_DefineBinary`, followed for so many passes. -/
def copyLoop (value : Bytes) (len : UInt16) :
    (passes : Nat) → (i : UInt8) → (dest : Bytes) → Checked Bytes
  | 0, _, _ => .error .diverge
  | passes + 1, i, dest =>
      if i.toNat < len.toNat then do
        let b ← load value i.toNat
        let dest ← storeN dest i.toNat [b]
        copyLoop value len passes (i + 1) dest
      else .ok dest

/-- What a pointer from `HAL_Malloc` points to: the null pointer to no byte. -/
def object {n : Nat} : Option { bs : Bytes // bs.length = n } → Bytes
  | none => []
  | some m => m.val

/-- `IOT_DataPoint_DefineBinary`.  `entry` is the memory that `HAL_Malloc` returns for the entry.
The source does not use `maxLen`. -/
def iotDataPointDefineBinary (s : Store) (entry : Option PropertyConf) (malloc : Malloc)
    (dpID : UInt16) (permission : Permission) (value : Bytes) (len : UInt16) (passes : Nat) :
    Checked Store :=
  match getPropertyIndex s dpID with
  | some _ => .ok s
  | none =>
      if s.properties.length < configPropertiesMax then
        match entry with
        | none => .error .store
        | some fresh => do
            let dest ← copyLoop value len passes 0 (object (malloc len.toNat))
            define s
              { setDatapointValueInit fresh dpID .binary permission with binaryValue := dest }
      else .error .index

/-! ## The loop -/

section Loop

variable {value : Bytes} {len : UInt16}

/-- The next byte is copied, if there is one. -/
theorem copyLoop_pass {i : UInt8} {b : UInt8} (hi : i.toNat < len.toNat)
    (hb : value[i.toNat]? = some b) (passes : Nat) (dest : Bytes) :
    copyLoop value len (passes + 1) i dest =
      storeN dest i.toNat [b] >>= copyLoop value len passes (i + 1) := by
  rw [copyLoop, if_pos hi, load_eq_ok.mpr hb, ok_bind]

/-- A short value is copied. -/
theorem copyLoop_eq (hlen : value.length = len.toNat) (hshort : value.length ≤ 255) :
    ∀ (todo done rest : Bytes) (passes : Nat), value = done ++ todo →
    rest.length = todo.length → todo.length < passes →
    copyLoop value len passes (UInt8.ofNat done.length) (done ++ rest) = .ok value
  | [], done, rest, passes + 1, hsplit, hrest, _ => by
      rw [List.append_nil] at hsplit
      have hi : (UInt8.ofNat done.length).toNat = done.length := by
        rw [UInt8.toNat_ofNat', ← hsplit]
        omega
      rw [copyLoop, hi, if_neg (by rw [← hlen, hsplit]; exact Nat.lt_irrefl _),
        List.length_eq_zero_iff.mp hrest, List.append_nil, hsplit]
  | b :: todo, done, old :: rest, passes + 1, hsplit, hrest, hpasses => by
      have hdone : done.length < value.length := by
        rw [hsplit, List.length_append, List.length_cons]
        omega
      have hi : (UInt8.ofNat done.length).toNat = done.length := by
        rw [UInt8.toNat_ofNat']
        omega
      have hb : value[done.length]? = some b := by
        rw [hsplit]
        simp
      have hnext : UInt8.ofNat done.length + 1 = UInt8.ofNat (done ++ [b]).length := by
        rw [List.length_append, List.length_singleton, UInt8.ofNat_add]
        rfl
      have ih := copyLoop_eq hlen hshort todo (done ++ [b]) rest passes
        (by rw [hsplit, List.append_assoc, List.singleton_append]) (Nat.succ.inj hrest)
        (Nat.lt_of_succ_lt_succ hpasses)
      rw [copyLoop_pass (by omega) (by rw [hi, hb]), hi, storeN_next old b rfl, ok_bind, hnext, ih]

/-- A long value is not: the counter stays below the length. -/
theorem copyLoop_endless (hlen : value.length = len.toNat) (hlong : 256 ≤ value.length) :
    ∀ (passes : Nat) (i : UInt8) (dest : Bytes), dest.length = value.length →
    copyLoop value len passes i dest = .error .diverge
  | 0, _, _, _ => rfl
  | passes + 1, i, dest, hdest => by
      have hi : i.toNat < 256 := i.toNat_lt
      have hstore : storeN dest i.toNat [value[i.toNat]] = .ok _ :=
        storeN_of_le (by rw [List.length_singleton]; omega)
      rw [copyLoop_pass (by omega) (List.getElem?_eq_getElem (by omega)), hstore, ok_bind]
      exact copyLoop_endless hlen hlong passes (i + 1) _ ((storeN_length hstore).trans hdest)

/-- The null pointer has room for no byte. -/
theorem copyLoop_null (hlen : value.length = len.toNat) (hsome : value ≠ []) (passes : Nat) :
    copyLoop value len (passes + 1) 0 [] = .error .store := by
  have hpos := List.length_pos_iff.mpr hsome
  rw [copyLoop_pass (by rw [← hlen]; exact hpos) (List.getElem?_eq_getElem hpos)]
  rfl

/-- A loop that ends has copied a short value into an object, if any byte at all. -/
theorem copyLoop_ends (hlen : value.length = len.toNat) (malloc : Malloc) {passes : Nat}
    {dest : Bytes} (h : copyLoop value len passes 0 (object (malloc len.toNat)) = .ok dest) :
    value.length ≤ 255 ∧ (value = [] ∨ (malloc len.toNat).isSome) := by
  cases hm : malloc len.toNat with
  | none =>
      rw [hm] at h
      by_cases hvalue : value = []
      case pos =>
        subst hvalue
        exact ⟨Nat.zero_le _, .inl rfl⟩
      case neg =>
        cases passes with
        | zero => cases h
        | succ passes => cases (copyLoop_null hlen hvalue passes).symm.trans h
  | some m =>
      rw [hm] at h
      refine ⟨Nat.le_of_not_lt fun hlong => ?_, .inr rfl⟩
      cases (copyLoop_endless hlen hlong passes 0 _ (m.property.trans hlen.symm)).symm.trans h

theorem copyLoop_object (hlen : value.length = len.toNat) (hshort : value.length ≤ 255)
    {malloc : Malloc} (hroom : value = [] ∨ (malloc len.toNat).isSome) {passes : Nat}
    (hpasses : value.length < passes) :
    copyLoop value len passes 0 (object (malloc len.toNat)) = .ok value := by
  refine copyLoop_eq hlen hshort value [] _ passes rfl ?_ hpasses
  cases hm : malloc len.toNat with
  | none =>
      rw [hm] at hroom
      rcases hroom with rfl | h
      · rfl
      · cases h
  | some m => exact m.property.trans hlen.symm

end Loop

/-! ## The definition -/

section Definition

variable {s s' : Store} {entry : Option PropertyConf} {malloc : Malloc} {dpID : UInt16}
  {permission : Permission} {value : Bytes} {len : UInt16}

/-- A new id is defined with the bytes that the loop leaves. -/
theorem iotDataPointDefineBinary_eq_ok (hnew : s.property dpID = none) {passes : Nat} :
    iotDataPointDefineBinary s entry malloc dpID permission value len passes = .ok s' ↔
      s.properties.length < configPropertiesMax ∧ ∃ fresh, entry = some fresh ∧ ∃ dest,
        copyLoop value len passes 0 (object (malloc len.toNat)) = .ok dest ∧
        define s { setDatapointValueInit fresh dpID .binary permission with binaryValue := dest } =
          .ok s' := by
  have hindex : getPropertyIndex s dpID = none :=
    KeyTable.indexOf_eq_none.mpr (KeyTable.entry_eq_none.mp hnew)
  unfold iotDataPointDefineBinary
  rw [hindex]
  dsimp only
  by_cases hroom : s.properties.length < configPropertiesMax
  case pos =>
    rw [if_pos hroom]
    cases entry with
    | none => exact ⟨nofun, fun ⟨_, _, h, _⟩ => nomatch h⟩
    | some fresh =>
        rw [bind_eq_ok]
        exact ⟨fun h => ⟨hroom, fresh, rfl, h⟩, fun ⟨_, _, he, h⟩ => Option.some.inj he ▸ h⟩
  case neg =>
    rw [if_neg hroom]
    exact ⟨nofun, fun h => absurd h.1 hroom⟩

theorem define_of_full {p : PropertyConf} (hnew : s.property p.dpID = none)
    (hroom : ¬ s.properties.length < configPropertiesMax) : define s p = .error .index := by
  rw [define]
  split
  next index hindex =>
    rw [getPropertyIndex, KeyTable.indexOf_eq_none.mpr (KeyTable.entry_eq_none.mp hnew)] at hindex
    cases hindex
  next => rw [dif_neg hroom]

/-- Where nothing is short of memory it is the definition of the table's model, which looks at
the length instead of following the loop. -/
theorem iotDataPointDefineBinary_eq (hlen : value.length = len.toNat) {fresh : PropertyConf}
    (hmalloc : (malloc len.toNat).isSome) {passes : Nat} (hpasses : value.length < passes) :
    iotDataPointDefineBinary s (some fresh) malloc dpID permission value len passes =
      Datapoint.iotDataPointDefineBinary s fresh dpID permission value := by
  unfold iotDataPointDefineBinary Datapoint.iotDataPointDefineBinary
  cases hp : s.property dpID with
  | some p =>
      obtain ⟨index, hindex⟩ : ∃ index, getPropertyIndex s dpID = some index := by
        refine Option.ne_none_iff_exists'.mp fun hindex => ?_
        rw [Store.property, KeyTable.entry_eq_none.mpr (KeyTable.indexOf_eq_none.mp hindex)] at hp
        cases hp
      rw [hindex, define_of_some hp, ok_bind]
      dsimp only
      rw [if_neg]
      rintro ⟨h, -⟩
      cases h
  | none =>
      have hindex : getPropertyIndex s dpID = none :=
        KeyTable.indexOf_eq_none.mpr (KeyTable.entry_eq_none.mp hp)
      rw [hindex]
      dsimp only
      by_cases hroom : s.properties.length < configPropertiesMax
      case pos =>
        obtain ⟨s', hdefine, -⟩ := define_of_none (s := s)
          (p := { setDatapointValueInit fresh dpID .binary permission with binaryValue := value })
          hp hroom
        rw [if_pos hroom, hdefine, ok_bind]
        by_cases hshort : value.length ≤ 255
        case pos =>
          rw [copyLoop_object hlen hshort (.inr hmalloc) hpasses, ok_bind, hdefine,
            if_neg (by omega)]
        case neg =>
          obtain ⟨m, hm⟩ := Option.isSome_iff_exists.mp hmalloc
          rw [hm, object, copyLoop_endless hlen (by omega) passes 0 _ (m.property.trans hlen.symm),
            if_pos ⟨rfl, by omega⟩]
          rfl
      case neg =>
        rw [if_neg hroom, define_of_full hp hroom]
        rfl

/-- The datapoint holds the bytes, a read returns them and a write of them changes nothing. -/
structure Copied (s : Store) (dpID : UInt16) (value : Bytes) : Prop where
  held : ∃ p, s.property dpID = some p ∧ p.dataType = .binary ∧ p.binaryValue = value
  read : ∀ old, (iotDataPointReadBinary s dpID old).2.1 = value
  unchanged : ∃ p, (writeDatapointBinary s dpID value true).property dpID = some p ∧
    p.change = false ∧ p.binaryValue = value

theorem readDatapoint_value {α : Type} {p : PropertyConf} (h : s.property dpID = some p)
    (get : PropertyConf → α) (old : α) : (readDatapoint s dpID get old).2.1 = get p := by
  cases hindex : getPropertyIndex s dpID with
  | none =>
      rw [Store.property, KeyTable.entry_eq_none.mpr (KeyTable.indexOf_eq_none.mp hindex)] at h
      cases h
  | some index =>
      have hget : s.properties[index]? = some p := (KeyTable.getElem?_indexOf hindex).trans h
      simp only [readDatapoint, hindex, hget]

/-- It is enough that the datapoint holds the bytes. -/
theorem Copied.of_property {p : PropertyConf} (h : s.property dpID = some p)
    (htype : p.dataType = .binary) : Copied s dpID p.binaryValue where
  held := ⟨p, h, htype, rfl⟩
  read old := readDatapoint_value h PropertyConf.binaryValue old
  unchanged := by
    refine ⟨_, by rw [writeDatapointBinary, property_writeDatapoint_self, h, Option.map_some], ?_⟩
    have haccepts : (binarySetter p.binaryValue).accepts p := decide_eq_true htype
    have hsame : (binarySetter p.binaryValue).same p := decide_eq_true rfl
    rw [Setter.write]
    dsimp only
    rw [if_pos haccepts, if_pos hsame]
    exact ⟨rfl, rfl⟩

end Definition

/-- A binary is copied exactly if it is short, the table has room and memory is there for it. -/
theorem defineBinary_copied_iff (s : Store) (entry : Option PropertyConf) (malloc : Malloc)
    (dpID : UInt16) (permission : Permission) (value : Bytes) (len : UInt16)
    (hlen : value.length = len.toNat) (hnew : s.property dpID = none) :
    (∃ passes s', iotDataPointDefineBinary s entry malloc dpID permission value len passes =
        .ok s' ∧ Copied s' dpID value) ↔
      value.length ≤ 255 ∧ s.properties.length < configPropertiesMax ∧ entry.isSome ∧
        (value = [] ∨ (malloc len.toNat).isSome) := by
  constructor
  · intro ⟨passes, s', hcall, _⟩
    obtain ⟨hroom, fresh, rfl, dest, hcopy, _⟩ := (iotDataPointDefineBinary_eq_ok hnew).mp hcall
    obtain ⟨hshort, hmemory⟩ := copyLoop_ends hlen malloc hcopy
    exact ⟨hshort, hroom, rfl, hmemory⟩
  · intro ⟨hshort, hroom, hentry, hmemory⟩
    obtain ⟨fresh, rfl⟩ := Option.isSome_iff_exists.mp hentry
    have hcopy := copyLoop_object hlen hshort hmemory (Nat.lt_succ_self _)
    let p := { setDatapointValueInit fresh dpID .binary permission with binaryValue := value }
    obtain ⟨s', hdefine, hs'⟩ := define_of_none (s := s) (p := p) hnew hroom
    have hproperty : s'.property dpID = some p := by
      rw [ReadFlag.property_append hs', hnew, Option.none_or]
      exact if_pos rfl
    exact ⟨_, s', (iotDataPointDefineBinary_eq_ok hnew).mpr
      ⟨hroom, fresh, rfl, value, hcopy, hdefine⟩, Copied.of_property hproperty rfl⟩

theorem defineBinary_copied_three : ∃ passes s', iotDataPointDefineBinary Store.empty
    (some zeroProperty) (fun n => some ⟨List.replicate n 0, List.length_replicate⟩) 7 .upDown
    [1, 2, 3] 3 passes = .ok s' ∧ Copied s' 7 [1, 2, 3] :=
  (defineBinary_copied_iff Store.empty (some zeroProperty)
    (fun n => some ⟨List.replicate n 0, List.length_replicate⟩) 7 .upDown [1, 2, 3] 3 rfl
    rfl).mpr (by decide)

/-- The copy of 256 bytes never ends. -/
theorem defineBinary_endless : ¬ ∃ passes s', iotDataPointDefineBinary Store.empty
    (some zeroProperty) (fun n => some ⟨List.replicate n 0, List.length_replicate⟩) 7 .upDown
    (List.replicate 256 9) 256 passes = .ok s' ∧ Copied s' 7 (List.replicate 256 9) := by
  intro ⟨passes, s', hcall, _⟩
  have hlen : (List.replicate 256 (9 : UInt8)).length = (256 : UInt16).toNat :=
    List.length_replicate
  obtain ⟨-, -, -, dest, hcopy, -⟩ := (iotDataPointDefineBinary_eq_ok rfl).mp hcall
  have hshort := (copyLoop_ends hlen
    (fun n => some ⟨List.replicate n 0, List.length_replicate⟩) hcopy).1
  rw [List.length_replicate] at hshort
  omega

end BinaryCopy

end IotKit.Datapoint
