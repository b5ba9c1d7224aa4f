import IotKit.Datapoint.Parse
import Mathlib.Data.List.TakeWhile
import Mathlib.Tactic.FieldSimp
import Mathlib.Tactic.Linarith

/-!
# The round trip of the datapoint codec

The frame of all datapoints, parsed on a store with the same definitions.  A
number of resolution 0 is sent as it is and the parser adds `minValue`, and an
enumeration is sent in one byte, so not every value comes back
(`roundTrip_iff`).  The other types come back whatever the store held before.
-/

namespace IotKit.Datapoint

open CMemory

/-! ## Machine integers -/

theorem int32_ofNat_toUInt32 (v : Int32) : Int32.ofNat v.toUInt32.toNat = v := by
  have h : (Int32.ofNat v.toUInt32.toNat).toUInt32 = v.toUInt32 := by
    rw [Int32.toUInt32_ofNat', UInt32.ofNat_toNat]
  exact congrArg UInt32.toInt32 h

theorem uint8_toNat_ofNat (n : Nat) : (UInt8.ofNat n).toNat = n % 256 := UInt8.toNat_ofNat'

/-- A double is an `int32_t`. -/
def FitsInt32 (x : ℚ) : Prop := -2 ^ 31 ≤ x ∧ x < 2 ^ 31

theorem fitsInt32_intCast {k : Int} : FitsInt32 k ↔ -2 ^ 31 ≤ k ∧ k < 2 ^ 31 := by
  rw [FitsInt32]
  constructor
  · rintro ⟨hlo, hhi⟩
    exact ⟨by exact_mod_cast hlo, by exact_mod_cast hhi⟩
  · rintro ⟨hlo, hhi⟩
    exact ⟨by exact_mod_cast hlo, by exact_mod_cast hhi⟩

theorem fitsInt32_toInt (v : Int32) : FitsInt32 v.toInt :=
  fitsInt32_intCast.mpr ⟨v.le_toInt, v.toInt_lt⟩

theorem int32OfDouble_intCast [Platform] {k : Int} (h : FitsInt32 k) :
    (int32OfDouble k).toInt = k := by
  obtain ⟨hlo, hhi⟩ := fitsInt32_intCast.mp h
  rw [int32OfDouble, Rat.num_intCast, Rat.den_intCast]
  rw [Nat.cast_one, Int.tdiv_one, if_pos ⟨hlo, hhi⟩, Int32.toInt_ofInt_of_le hlo hhi]

/-! ## What is written is read -/

theorem formVar_var {n : Nat} (h : n < 0x8000) : Var (formVar n) n := by
  rw [formVar]
  split
  next hshort =>
    have hb : (UInt8.ofNat n).toNat = n := by
      rw [uint8_toNat_ofNat]
      omega
    have hvar : Var [UInt8.ofNat n] (UInt8.ofNat n).toNat := .short (hb.symm ▸ hshort)
    rwa [hb] at hvar
  next => exact .ofNat_long h

theorem formInt_spec (v : Int32) :
    ∃ len bytes, formInt v = len :: bytes ∧ bytes.length = intWidth len ∧ ofIntBytes bytes = v := by
  have hlt := v.toUInt32.toNat_lt
  have hv := int32_ofNat_toUInt32 v
  rw [formInt]
  generalize v.toUInt32.toNat = u at hlt hv ⊢
  split
  next =>
    refine ⟨4, _, rfl, rfl, ?_⟩
    rw [← hv, ofIntBytes]
    congr 1
    simp only [List.foldl_cons, List.foldl_nil, uint8_toNat_ofNat]
    omega
  next =>
    split
    next =>
      refine ⟨2, _, rfl, rfl, ?_⟩
      rw [← hv, ofIntBytes]
      congr 1
      simp only [List.foldl_cons, List.foldl_nil, uint8_toNat_ofNat]
      omega
    next =>
      refine ⟨1, _, rfl, rfl, ?_⟩
      rw [← hv, ofIntBytes]
      congr 1
      simp only [List.foldl_cons, List.foldl_nil, uint8_toNat_ofNat]
      omega

/-! ## The frame of a store -/

/-- The datapoints that the round trip is about. -/
structure PropertyConf.Valid (p : PropertyConf) : Prop where
  id : 1 ≤ p.dpID ∧ p.dpID ≤ 0x3F00
  permission : p.permission ≠ .downOnly
  bounds : p.dataType = .num → p.minValue ≤ p.maxValue ∧
    ∃ lo hi : Int32, p.minValue = lo.toInt ∧ p.maxValue = hi.toInt
  int : p.dataType = .num → p.resolution = 0 →
    p.minValue ≤ p.numberIntValue.toInt ∧ p.numberIntValue.toInt ≤ p.maxValue
  double : p.dataType = .num → p.resolution ≠ 0 → 0 < p.resolution ∧
    p.minValue ≤ p.numberDoubleValue ∧ p.numberDoubleValue ≤ p.maxValue ∧
    ∃ k : Int, p.numberDoubleValue * 10 ^ p.resolution.toNat = k
  enum : p.dataType = .enum → 0 ≤ p.enumValue.toInt
  string : p.dataType = .string → p.stringValue.length ≤ 0x7FFF ∧ 0 ∉ p.stringValue
  binary : p.dataType = .binary → p.binaryValue.length ≤ 0x7FFF

/-- What the parser writes for the record of a datapoint. -/
def received [Platform] (p : PropertyConf) : Setter :=
  match p.dataType with
  | .bool => boolSetter p.boolValue
  | .num => numberSetter p (formNumber p)
  | .enum => enumSetter (Int32.ofNat (p.enumValue.toUInt32.toNat % 256))
  | .string => stringSetter p.stringValue
  | .binary => binarySetter p.binaryValue

section Parse

variable {t : Store} {p q : PropertyConf}

theorem formBytes_eq {bs : Bytes} (h : bs.length ≤ 0x7FFF) :
    formBytes bs = formVar bs.length ++ bs := by
  rw [formBytes, Nat.mod_eq_of_lt (by omega), List.take_length]

variable [Platform]

theorem numberSetter_congr (h : q.definition = p.definition) (value : Int32) :
    numberSetter q value = numberSetter p value := by
  rw [numberSetter, numberSetter,
    show q.resolution = p.resolution from congrArg Definition.resolution h,
    show q.minValue = p.minValue from congrArg Definition.minValue h]

/-- The data of the record are read back. -/
theorem parseData_form (rest : Bytes) (hp : p.Valid) (hq : t.property p.dpID = some q)
    (hdef : q.definition = p.definition) :
    ∃ code data r, intoyunFormDataPointBinary p = formVar p.dpID.toNat ++ code :: data ∧
      parseData t p.dpID code (data ++ rest) = .ok r ∧ r.setter = received p ∧ r.rest = rest := by
  rw [intoyunFormDataPointBinary, received]
  cases htype : p.dataType with
  | bool =>
      refine ⟨0, [1, if p.boolValue then 1 else 0], _, rfl, rfl, ?_, rfl⟩
      cases p.boolValue with
      | true => rfl
      | false => rfl
  | num =>
      obtain ⟨len, bytes, hform, hwidth, hbytes⟩ := formInt_spec (formNumber p)
      have hread : parseNum t p.dpID (len :: (bytes ++ rest)) = .ok ⟨numberSetter q
          (ofIntBytes bytes), len.toNat, (bytes ++ rest).length, rest⟩ :=
        bind_eq_ok.mpr ⟨_, next_cons, bind_eq_ok.mpr ⟨_, nextN_eq_ok.mpr ⟨hwidth, rfl⟩,
          bind_eq_ok.mpr ⟨q, propertyAt_eq_ok.mpr hq, rfl⟩⟩⟩
      refine ⟨1, len :: bytes, _, congrArg (_ ++ 1 :: ·) hform, hread, ?_, rfl⟩
      rw [hbytes]
      exact congrArg some (numberSetter_congr hdef _)
  | enum =>
      have hread : parseEnum (1 :: UInt8.ofNat p.enumValue.toUInt32.toNat :: rest) = .ok
          ⟨enumSetter (ofIntBytes [UInt8.ofNat p.enumValue.toUInt32.toNat]), 1, 1 + rest.length,
            rest⟩ := by
        rw [Nat.add_comm]
        rfl
      refine ⟨2, [1, UInt8.ofNat p.enumValue.toUInt32.toNat], _, rfl, hread, ?_, rfl⟩
      rw [ofIntBytes, List.foldl_cons, List.foldl_nil, uint8_toNat_ofNat, Nat.mul_zero,
        Nat.zero_add]
  | string =>
      obtain ⟨hlen, hzero⟩ := hp.string htype
      have hread : parseString ((formVar p.stringValue.length ++ p.stringValue) ++ rest) = .ok
          ⟨stringSetter (p.stringValue.takeWhile (· ≠ 0)), p.stringValue.length,
            (p.stringValue ++ rest).length, rest⟩ := by
        rw [List.append_assoc]
        exact bind_eq_ok.mpr ⟨_, readVar_append (formVar_var (Nat.lt_succ_of_le hlen)),
          bind_eq_ok.mpr ⟨_, nextN_append, rfl⟩⟩
      refine ⟨3, _, _, congrArg (_ ++ 3 :: ·) (formBytes_eq hlen), hread, ?_, rfl⟩
      rw [List.takeWhile_eq_self_iff.mpr fun b hb => decide_eq_true (ne_of_mem_of_not_mem hb hzero)]
  | binary =>
      have hlen := hp.binary htype
      have haccepts : t.accepts p.dpID (binarySetter []) = true := by
        rw [Store.accepts, hq]
        exact decide_eq_true ((congrArg Definition.dataType hdef).trans htype)
      have hread : parseBinary t p.dpID ((formVar p.binaryValue.length ++ p.binaryValue) ++ rest) =
          .ok ⟨binarySetter p.binaryValue, p.binaryValue.length, (p.binaryValue ++ rest).length,
            rest⟩ := by
        rw [List.append_assoc]
        refine bind_eq_ok.mpr ⟨_, readVar_append (formVar_var (Nat.lt_succ_of_le hlen)), ?_⟩
        dsimp only
        rw [if_pos haccepts]
        exact bind_eq_ok.mpr ⟨_, nextN_append, rfl⟩
      exact ⟨4, _, _, congrArg (_ ++ 4 :: ·) (formBytes_eq hlen), hread, rfl, rfl⟩

theorem parseRecord_form (rest : Bytes) (hp : p.Valid) (hq : t.property p.dpID = some q)
    (hdef : q.definition = p.definition) :
    ∃ r, parseRecord t (intoyunFormDataPointBinary p ++ rest) = .ok r ∧
      r.store = writeDatapoint t p.dpID (received p) false ∧ r.rest = rest := by
  obtain ⟨code, data, r, hform, hdata, hsetter, hrest⟩ := parseData_form rest hp hq hdef
  have hid : p.dpID.toNat < 0x8000 := Nat.lt_of_le_of_lt hp.id.2 (by decide)
  refine ⟨applyRecord t p.dpID r, ?_, ?_, (applyRecord_rest ..).trans hrest⟩
  · rw [hform, List.append_assoc, List.cons_append]
    refine bind_eq_ok.mpr ⟨_, readVar_append (formVar_var hid), ?_⟩
    refine bind_eq_ok.mpr ⟨_, next_cons, ?_⟩
    rw [UInt16.ofNat_toNat]
    exact bind_eq_ok.mpr ⟨r, hdata, rfl⟩
  · rw [applyRecord, hsetter]

end Parse

/-! ## The loop -/

section Loop

variable {s t : Store}

/-- The two stores define the same datapoints. -/
def SameDefinitions (s t : Store) : Prop :=
  ∀ dpID, (t.property dpID).map PropertyConf.definition =
    (s.property dpID).map PropertyConf.definition

theorem sameDefinitions_writeDatapoint {dpID : UInt16} {w : Setter} {type : Bool}
    (h : SameDefinitions s t) : SameDefinitions s (writeDatapoint t dpID w type) := by
  intro id
  rw [← h id, property_writeDatapoint, Option.map_map]
  congr 1
  funext p
  rw [Function.comp_apply]
  split
  · exact w.write_definition type p
  · rfl

/-- A store that differs from `s` in the current value of one datapoint. -/
def Store.replace (s : Store) (q : PropertyConf) : Store :=
  s.map (fun p => if p.dpID = q.dpID then q else p) fun p => by
    split
    next h => exact h.symm
    next => rfl

theorem sameDefinitions_replace {p q : PropertyConf} (hp : p ∈ s.properties)
    (hdef : q.definition = p.definition) : SameDefinitions s (s.replace q) := by
  intro id
  rw [Store.replace, Store.property_map, Option.map_map]
  cases hr : s.property id with
  | none => rfl
  | some r =>
      obtain ⟨hr, hid⟩ := Store.property_eq_some.mp hr
      refine congrArg some ?_
      rw [Function.comp_apply]
      split
      next heq =>
        have hpid : q.dpID = p.dpID := congrArg Definition.dpID hdef
        rw [hdef, List.inj_on_of_nodup_map s.distinct hr hp (heq.trans hpid)]
      next => rfl

variable [Platform]

theorem intoyunFormDataPointBinary_ne_nil (p : PropertyConf) :
    intoyunFormDataPointBinary p ≠ [] := by
  rw [intoyunFormDataPointBinary, formVar]
  split
  · exact nofun
  · exact nofun

/-- After the records of some datapoints each of them is written and the others are
as they were. -/
theorem parseLoop_form {ps : List PropertyConf} (hvalid : ∀ p ∈ ps, p.Valid)
    (hmem : ∀ p ∈ ps, s.property p.dpID = some p) (hdistinct : (ps.map PropertyConf.dpID).Nodup)
    (hsame : SameDefinitions s t) {fuel : Nat}
    (hfuel : (ps.flatMap intoyunFormDataPointBinary).length ≤ fuel) :
    ∃ t' applied, parseLoop fuel t (ps.flatMap intoyunFormDataPointBinary) = .ok (t', applied) ∧
      (∀ p ∈ ps, t'.property p.dpID = (t.property p.dpID).map ((received p).write false)) ∧
      ∀ id, id ∉ ps.map PropertyConf.dpID → t'.property id = t.property id := by
  induction ps generalizing t fuel with
  | nil => exact ⟨t, [], parseLoop_nil fuel t, fun _ h => absurd h List.not_mem_nil, fun _ _ => rfl⟩
  | cons p ps ih =>
      obtain ⟨hfresh, hdistinct⟩ := List.nodup_cons.mp hdistinct
      obtain ⟨q, hq, hdef⟩ := Option.map_eq_some_iff.mp
        ((hsame p.dpID).trans (congrArg _ (hmem p List.mem_cons_self)))
      have hform := intoyunFormDataPointBinary_ne_nil p
      rw [List.flatMap_cons] at hfuel ⊢
      rw [List.length_append] at hfuel
      have hpos := List.length_pos_iff.mpr hform
      obtain ⟨fuel, rfl⟩ : ∃ n, fuel = n + 1 := ⟨fuel - 1, by omega⟩
      obtain ⟨r, hr, hstore, hrest⟩ := parseRecord_form (ps.flatMap intoyunFormDataPointBinary)
        (hvalid p List.mem_cons_self) hq hdef
      have hsame' : SameDefinitions s r.store := hstore ▸ sameDefinitions_writeDatapoint hsame
      have hfuel' : (ps.flatMap intoyunFormDataPointBinary).length ≤ fuel := by omega
      obtain ⟨t', applied, hloop, hin, hout⟩ := ih
        (fun p' hp' => hvalid p' (List.mem_cons_of_mem p hp'))
        (fun p' hp' => hmem p' (List.mem_cons_of_mem p hp')) hdistinct hsame' hfuel'
      have hother {id : UInt16} (hid : id ≠ p.dpID) : r.store.property id = t.property id :=
        hstore ▸ property_writeDatapoint_of_ne hid
      refine ⟨t', r.applied ++ applied, ?_, ?_, ?_⟩
      · rw [parseLoop_of_ne_nil fun h => hform (List.append_eq_nil_iff.mp h).1, hr, ok_bind, hrest,
          hloop, ok_bind]
      · intro p' hp'
        rcases List.mem_cons.mp hp' with rfl | hp'
        · rw [hout p'.dpID hfresh, hstore, property_writeDatapoint_self]
        · rw [hin p' hp', hother fun h => hfresh (h ▸ List.mem_map_of_mem hp')]
      · intro id hid
        rw [List.map_cons, List.mem_cons, not_or] at hid
        rw [hout id hid.2, hother hid.1]

/-- The round trip: what was encoded is in the store that parsed the frame. -/
def RoundTrip (s : Store) (frame : Bytes) : Prop :=
  ∀ t, SameDefinitions s t → ∀ result, ∃ r,
    iotDataPointParseReceiveDatapoints t (some frame) result = .ok r ∧
      ∀ p ∈ s.properties, (r.store.property p.dpID).map PropertyConf.value = some p.value

theorem intoyunFormAllDatapoint_frame {len : UInt16} {upload : Upload}
    (hvalid : ∀ p ∈ s.properties, p.Valid)
    (hform : intoyunFormAllDatapoint s len true = .ok upload) :
    upload.frame = 0x31 :: s.properties.flatMap intoyunFormDataPointBinary := by
  have hall : s.properties.filter (fun p => decide (p.Uploadable ∧ (true ∨ p.change))) =
      s.properties := by
    refine List.filter_eq_self.mpr fun p hp => decide_eq_true ?_
    exact ⟨⟨(hvalid p hp).permission, (hvalid p hp).id.2⟩, Or.inl rfl⟩
  rw [intoyunFormAllDatapoint, formFrame] at hform
  rw [hall] at hform
  split at hform
  · cases hform
    rfl
  · cases hform

theorem parseEnd_of_none {result : Int} (hreset : t.property dpidDefaultBoolReset = none)
    (hgetAll : t.property dpidDefaultBoolGetalldatapoint = none) :
    parseEnd t result = .ok ⟨t, [], false⟩ := by
  rw [parseEnd, iotDataPointReadBool_of_none hreset]
  dsimp only
  rw [if_neg (by decide : ReadResult.none ≠ .new), iotDataPointReadBool_of_none hgetAll]
  dsimp only
  rw [if_neg (by decide : ReadResult.none ≠ .new)]

/-- The frame of a store, parsed. -/
theorem parse_form (hvalid : ∀ p ∈ s.properties, p.Valid) (hsame : SameDefinitions s t)
    (result : Int) :
    ∃ r, iotDataPointParseReceiveDatapoints t
        (some (0x31 :: s.properties.flatMap intoyunFormDataPointBinary)) result = .ok r ∧
      ∀ p ∈ s.properties,
        r.store.property p.dpID = (t.property p.dpID).map ((received p).write false) := by
  obtain ⟨t', applied, hloop, hin, hout⟩ := parseLoop_form hvalid
    (fun p hp => Store.property_eq_some.mpr ⟨hp, rfl⟩) s.distinct hsame (Nat.le_refl _)
  have hsystem {id : UInt16} (hid : 0x3F00 < id) : t'.property id = none := by
    have hfresh : ∀ p ∈ s.properties, p.dpID ≠ id := fun p hp h =>
      absurd ((hvalid p hp).id.2) (UInt16.not_le.mpr (h ▸ hid))
    have hnone : s.property id = none := KeyTable.entry_eq_none.mpr hfresh
    rw [hout id fun hmem => ?_]
    · exact Option.map_eq_none_iff.mp ((hsame id).trans (congrArg _ hnone))
    · obtain ⟨p, hp, hpid⟩ := List.mem_map.mp hmem
      exact hfresh p hp hpid
  refine ⟨⟨t', [], false⟩, ?_, hin⟩
  rw [iotDataPointParseReceiveDatapoints, parseDatapoints_cons, if_pos rfl, hloop, ok_bind, ok_bind]
  exact parseEnd_of_none (hsystem (by decide)) (hsystem (by decide))

/-- The parser restores the value of a datapoint, whatever the datapoint held. -/
def PropertyConf.Returns (p : PropertyConf) : Prop :=
  ∀ q, q.definition = p.definition → ((received p).write false q).value = p.value

theorem roundTrip_iff_returns (hvalid : ∀ p ∈ s.properties, p.Valid) :
    RoundTrip s (0x31 :: s.properties.flatMap intoyunFormDataPointBinary) ↔
      ∀ p ∈ s.properties, p.Returns := by
  constructor
  · intro hround p hp q hdef
    obtain ⟨r, hr, hvalue⟩ := hround (s.replace q) (sameDefinitions_replace hp hdef) 0
    obtain ⟨r', hr', hwritten⟩ := parse_form hvalid (sameDefinitions_replace hp hdef) 0
    obtain rfl := Except.ok.inj (hr.symm.trans hr')
    have hpid : q.dpID = p.dpID := congrArg Definition.dpID hdef
    have hq : (s.replace q).property p.dpID = some q := by
      rw [Store.replace, Store.property_map, Store.property_eq_some.mpr ⟨hp, rfl⟩, Option.map_some,
        if_pos hpid.symm]
    have h := hvalue p hp
    rw [hwritten p hp, hq] at h
    exact Option.some.inj h
  · intro hreturns t hsame result
    obtain ⟨r, hr, hwritten⟩ := parse_form hvalid hsame result
    refine ⟨r, hr, fun p hp => ?_⟩
    obtain ⟨q, hq, hdef⟩ := Option.map_eq_some_iff.mp
      ((hsame p.dpID).trans (congrArg _ (Store.property_eq_some.mpr ⟨hp, rfl⟩)))
    rw [hwritten p hp, hq]
    exact congrArg some (hreturns p hp q hdef)

end Loop

/-! ## One datapoint -/

theorem pow_ten_pos (n : Int) : (0 : ℚ) < 10 ^ n.toNat := pow_pos (by norm_num) _

/-- A power of ten is an integer. -/
theorem pow_ten_eq_intCast (n : Int) : (10 : ℚ) ^ n.toNat = ((10 ^ n.toNat : Int) : ℚ) := by
  push_cast
  rfl

theorem clamp_of_mem {lo hi x : ℚ} (hlo : lo ≤ x) (hhi : x ≤ hi) : clamp lo hi x = x := by
  rw [clamp, if_neg (not_lt.mpr hlo), if_neg (not_lt.mpr hhi)]

theorem clamp_lt {lo hi x d : ℚ} (hlo : lo < d) (hhi : d ≤ hi) (hx : x < d) :
    clamp lo hi x < d := by
  rw [clamp]
  split
  · exact hlo
  · rw [if_neg (not_lt.mpr (hx.le.trans hhi))]
    exact hx

section Property

variable [ExactPlatform] {p q : PropertyConf}

theorem returns_bool (h : p.dataType = .bool) : p.Returns := by
  intro q hdef
  have hq : q.dataType = .bool := (congrArg Definition.dataType hdef).trans h
  rw [received, h, PropertyConf.value_bool h]
  refine Setter.write_value_eq (decide_eq_true hq) (fun hsame => ?_) (PropertyConf.value_bool hq)
  rw [PropertyConf.value_bool hq, of_decide_eq_true hsame]

theorem returns_string (h : p.dataType = .string) : p.Returns := by
  intro q hdef
  have hq : q.dataType = .string := (congrArg Definition.dataType hdef).trans h
  rw [received, h, PropertyConf.value_string h]
  refine Setter.write_value_eq (decide_eq_true hq) (fun hsame => ?_) (PropertyConf.value_string hq)
  rw [PropertyConf.value_string hq, of_decide_eq_true hsame]

theorem returns_binary (h : p.dataType = .binary) : p.Returns := by
  intro q hdef
  have hq : q.dataType = .binary := (congrArg Definition.dataType hdef).trans h
  rw [received, h, PropertyConf.value_binary h]
  refine Setter.write_value_eq (decide_eq_true hq) (fun hsame => ?_) (PropertyConf.value_binary hq)
  rw [PropertyConf.value_binary hq, of_decide_eq_true hsame]

/-- An enumeration is sent in one byte. -/
theorem returns_enum (h : p.dataType = .enum) (hnonneg : 0 ≤ p.enumValue.toInt) :
    p.Returns ↔ p.enumValue.toInt < 256 := by
  have hnat : (p.enumValue.toUInt32.toNat : Int) = p.enumValue.toInt := by
    rw [Int32.toNat_toUInt32_of_le (Int32.le_iff_toInt_le.mpr hnonneg), ← Int32.toNat_toInt]
    exact Int.toNat_of_nonneg hnonneg
  have hsent :
      (Int32.ofNat (p.enumValue.toUInt32.toNat % 256)).toInt = p.enumValue.toInt % 256 := by
    rw [Int32.toInt_ofNat_of_lt (by omega), Int.natCast_mod, hnat]
    rfl
  have hwritten {q : PropertyConf} (hdef : q.definition = p.definition) :
      ((received p).write false q).value =
        .enum (Int32.ofNat (p.enumValue.toUInt32.toNat % 256)) := by
    have hq : q.dataType = .enum := (congrArg Definition.dataType hdef).trans h
    rw [received, h]
    refine Setter.write_value_eq (decide_eq_true hq) (fun hsame => ?_) (PropertyConf.value_enum hq)
    rw [PropertyConf.value_enum hq, of_decide_eq_true hsame]
  constructor
  · intro hreturns
    have heq := Value.enum.inj
      ((hwritten rfl).symm.trans ((hreturns p rfl).trans (PropertyConf.value_enum h)))
    rw [heq] at hsent
    omega
  · intro hlt q hdef
    rw [hwritten hdef, PropertyConf.value_enum h]
    refine congrArg Value.enum (Int32.toInt_inj.mp ?_)
    rw [hsent]
    omega

theorem clampInt32_of_mem {value : Int32} (hmin : p.minValue ≤ value.toInt)
    (hmax : value.toInt ≤ p.maxValue) : clampInt32 p value = value := by
  rw [clampInt32, if_neg (not_lt.mpr hmin), if_neg (not_lt.mpr hmax)]

/-- A number of resolution 0 is sent as it is and received with `minValue` added. -/
theorem write_received_int (h : p.dataType = .num) (hres : p.resolution = 0)
    (hdef : q.definition = p.definition) :
    ((received p).write false q).value =
      .int (if q.numberIntValue = p.numberIntValue + int32OfDouble p.minValue then q.numberIntValue
        else clampInt32 q (p.numberIntValue + int32OfDouble p.minValue)) := by
  have hq : q.dataType = .num := (congrArg Definition.dataType hdef).trans h
  have hqres : q.resolution = 0 := (congrArg Definition.resolution hdef).trans hres
  have hreceived :
      received p = numberInt32Setter (p.numberIntValue + int32OfDouble p.minValue) := by
    rw [received, h]
    show numberSetter p (formNumber p) = _
    rw [numberSetter, if_pos hres, formNumber, if_pos hres]
  rw [hreceived, Setter.write_value (decide_eq_true ⟨hq, hqres⟩)]
  split
  next hsame => rw [PropertyConf.value_int hq hqres, if_pos (of_decide_eq_true hsame)]
  next hdiffer =>
    rw [if_neg fun heq => hdiffer (decide_eq_true heq)]
    exact PropertyConf.value_int hq hqres

theorem returns_int (hp : p.Valid) (h : p.dataType = .num) (hres : p.resolution = 0) :
    p.Returns ↔ p.minValue = 0 := by
  obtain ⟨_, lo, _, hlo, _⟩ := hp.bounds h
  obtain ⟨hmin, hmax⟩ := hp.int h hres
  have hoffset : ((int32OfDouble p.minValue).toInt : ℚ) = p.minValue := by
    rw [hlo, int32OfDouble_intCast (fitsInt32_toInt lo)]
  constructor
  · intro hreturns
    -- a datapoint that already holds the offset value keeps it
    have hdef :
        { p with numberIntValue := p.numberIntValue + int32OfDouble p.minValue }.definition =
        p.definition := rfl
    have hback := hreturns _ hdef
    rw [write_received_int h hres hdef, if_pos rfl, PropertyConf.value_int h hres] at hback
    have hzero : int32OfDouble p.minValue = 0 := Int32.left_eq_add.mp (Value.int.inj hback).symm
    rw [← hoffset, hzero]
    rfl
  · intro hzero q hdef
    have hsum : int32OfDouble p.minValue = 0 := by
      rw [hzero, ← Int.cast_zero] at hoffset
      rw [hzero]
      exact Int32.toInt_inj.mp (Int.cast_inj.mp hoffset)
    rw [write_received_int h hres hdef, hsum, Int32.add_zero, PropertyConf.value_int h hres,
      clampInt32_of_mem]
    · split
      next heq => rw [heq]
      next => rfl
    · rw [show q.minValue = p.minValue from congrArg Definition.minValue hdef]
      exact hmin
    · rw [show q.maxValue = p.maxValue from congrArg Definition.maxValue hdef]
      exact hmax

/-- The value that the parser computes for a double, brought between the bounds. -/
def receivedDouble (p : PropertyConf) : ℚ :=
  clamp p.minValue p.maxValue
    ((int32OfDouble ((p.numberDoubleValue - p.minValue) * 10 ^ p.resolution.toNat)).toInt /
      10 ^ p.resolution.toNat + p.minValue)

theorem write_received_double (h : p.dataType = .num) (hres : p.resolution ≠ 0)
    (hdef : q.definition = p.definition) :
    ((received p).write false q).value =
      .double (if q.numberDoubleValue = receivedDouble p then q.numberDoubleValue
        else (int32OfDouble (receivedDouble p * 10 ^ p.resolution.toNat)).toInt /
          10 ^ p.resolution.toNat) := by
  have hq : q.dataType = .num := (congrArg Definition.dataType hdef).trans h
  have hqres : q.resolution = p.resolution := congrArg Definition.resolution hdef
  have hqmin : q.minValue = p.minValue := congrArg Definition.minValue hdef
  have hqmax : q.maxValue = p.maxValue := congrArg Definition.maxValue hdef
  have hqres' : q.resolution ≠ 0 := hqres ▸ hres
  have hreceived : received p = numberDoubleSetter
      ((int32OfDouble ((p.numberDoubleValue - p.minValue) * 10 ^ p.resolution.toNat)).toInt /
        10 ^ p.resolution.toNat + p.minValue) := by
    rw [received, h]
    show numberSetter p (formNumber p) = _
    simp only [numberSetter, formNumber, if_neg hres, numberDouble, pow_exact,
      ExactPlatform.round_eq]
  rw [hreceived, Setter.write_value (decide_eq_true ⟨hq, hqres'⟩), receivedDouble]
  split
  next hsame =>
    have hsame := of_decide_eq_true hsame
    rw [hqmin, hqmax] at hsame
    rw [PropertyConf.value_double hq hqres', if_pos hsame]
  next hdiffer =>
    rw [if_neg fun heq => hdiffer (decide_eq_true (by rw [hqmin, hqmax]; exact heq))]
    refine (PropertyConf.value_double ?_ ?_).trans ?_
    · exact hq
    · exact hqres'
    · rw [← hqmin, ← hqmax, ← hqres, numberDoubleSetter]
      simp only [pow_exact, ExactPlatform.round_eq]

/-- The double arrives where its offset fits 32 bits. -/
theorem receivedDouble_eq_iff (hp : p.Valid) (h : p.dataType = .num) (hres : p.resolution ≠ 0) :
    receivedDouble p = p.numberDoubleValue ↔
      FitsInt32 ((p.numberDoubleValue - p.minValue) * 10 ^ p.resolution.toNat) := by
  obtain ⟨_, lo, _, hlo, _⟩ := hp.bounds h
  obtain ⟨_, hmin, hmax, k, hk⟩ := hp.double h hres
  have hpos := pow_ten_pos p.resolution
  constructor
  · intro heq
    have hnonneg : 0 ≤ (p.numberDoubleValue - p.minValue) * 10 ^ p.resolution.toNat :=
      mul_nonneg (sub_nonneg.mpr hmin) hpos.le
    by_contra hover
    have hbig : 2 ^ 31 ≤ (p.numberDoubleValue - p.minValue) * 10 ^ p.resolution.toNat :=
      not_lt.mp fun hlt => hover ⟨le_trans (by norm_num) hnonneg, hlt⟩
    have hsent := (fitsInt32_toInt
      (int32OfDouble ((p.numberDoubleValue - p.minValue) * 10 ^ p.resolution.toNat))).2
    have hoff := (div_lt_iff₀ hpos).mpr (lt_of_lt_of_le hsent hbig)
    have hmin' : p.minValue < p.numberDoubleValue :=
      sub_pos.mp ((mul_pos_iff_of_pos_right hpos).mp (lt_of_lt_of_le (by norm_num) hbig))
    exact absurd heq (clamp_lt hmin' hmax (lt_sub_iff_add_lt.mp hoff)).ne
  · intro hfits
    have hint : (p.numberDoubleValue - p.minValue) * 10 ^ p.resolution.toNat =
        ((k - lo.toInt * 10 ^ p.resolution.toNat : Int) : ℚ) := by
      rw [sub_mul, hk, hlo, pow_ten_eq_intCast]
      push_cast
      rfl
    rw [hint] at hfits
    rw [receivedDouble, hint, int32OfDouble_intCast hfits, ← hint, mul_div_cancel_right₀ _ hpos.ne',
      sub_add_cancel, clamp_of_mem hmin hmax]

/-- The conversion of the double to a number of decimal places is exact where it fits
32 bits. -/
theorem cut_eq_iff (hp : p.Valid) (h : p.dataType = .num) (hres : p.resolution ≠ 0) :
    (int32OfDouble (p.numberDoubleValue * 10 ^ p.resolution.toNat)).toInt / 10 ^ p.resolution.toNat =
        p.numberDoubleValue ↔
      FitsInt32 (p.numberDoubleValue * 10 ^ p.resolution.toNat) := by
  obtain ⟨_, _, _, k, hk⟩ := hp.double h hres
  rw [div_eq_iff (pow_ten_pos p.resolution).ne']
  constructor
  · intro heq
    rw [← heq]
    exact fitsInt32_toInt _
  · intro hfits
    rw [hk] at hfits ⊢
    rw [int32OfDouble_intCast hfits]

/-- A number of a positive resolution comes back where its offset from `minValue` and
itself, in units of the resolution, fit 32 bits. -/
theorem returns_double (hp : p.Valid) (h : p.dataType = .num) (hres : p.resolution ≠ 0) :
    p.Returns ↔ FitsInt32 ((p.numberDoubleValue - p.minValue) * 10 ^ p.resolution.toNat) ∧
      FitsInt32 (p.numberDoubleValue * 10 ^ p.resolution.toNat) := by
  rw [← receivedDouble_eq_iff hp h hres, ← cut_eq_iff hp h hres]
  constructor
  · intro hreturns
    -- one datapoint already holds what arrives, another does not
    have hdef : { p with numberDoubleValue := receivedDouble p }.definition = p.definition := rfl
    have hdef' : { p with numberDoubleValue := receivedDouble p + 1 }.definition = p.definition :=
      rfl
    have hkept := hreturns _ hdef
    have hstored := hreturns _ hdef'
    rw [write_received_double h hres hdef, if_pos rfl, PropertyConf.value_double h hres] at hkept
    have harrives : receivedDouble p = p.numberDoubleValue := Value.double.inj hkept
    rw [write_received_double h hres hdef', if_neg (by simp), PropertyConf.value_double h hres,
      harrives] at hstored
    exact ⟨harrives, Value.double.inj hstored⟩
  · rintro ⟨harrives, hcut⟩ q hdef
    rw [write_received_double h hres hdef, harrives, hcut, PropertyConf.value_double h hres]
    split
    next heq => rw [heq]
    next => rfl

/-- The values that come back.  Of the numbers of resolution 0 only those with
`minValue` 0 do, and of the enumerations only those of one byte. -/
def PropertyConf.Exact (p : PropertyConf) : Prop :=
  match p.dataType with
  | .num =>
      if p.resolution = 0 then p.minValue = 0
      else FitsInt32 ((p.numberDoubleValue - p.minValue) * 10 ^ p.resolution.toNat) ∧
        FitsInt32 (p.numberDoubleValue * 10 ^ p.resolution.toNat)
  | .enum => p.enumValue.toInt < 256
  | _ => True

theorem returns_iff (hp : p.Valid) : p.Returns ↔ p.Exact := by
  rw [PropertyConf.Exact]
  cases h : p.dataType with
  | bool => exact iff_of_true (returns_bool h) trivial
  | num =>
      dsimp only
      split
      next hres => exact returns_int hp h hres
      next hres => exact returns_double hp h hres
  | enum => exact returns_enum h (hp.enum h)
  | string => exact iff_of_true (returns_string h) trivial
  | binary => exact iff_of_true (returns_binary h) trivial

end Property

/-- The frame of all datapoints restores a store with the same definitions exactly
where every datapoint has a value that comes back. -/
theorem roundTrip_iff [ExactPlatform] {s : Store} {len : UInt16} {upload : Upload}
    (hvalid : ∀ p ∈ s.properties, p.Valid)
    (hform : intoyunFormAllDatapoint s len true = .ok upload) :
    RoundTrip s upload.frame ↔ ∀ p ∈ s.properties, p.Exact := by
  rw [intoyunFormAllDatapoint_frame hvalid hform, roundTrip_iff_returns hvalid]
  exact forall₂_congr fun p hp => returns_iff (hvalid p hp)

/-! ## A number with an offset -/

/-- The number 15 between 10 and 20. -/
def fifteen : PropertyConf where
  dpID := 1
  dataType := .num
  permission := .upDown
  change := false
  readFlag := .old
  minValue := 10
  maxValue := 20
  resolution := 0
  boolValue := false
  numberIntValue := 15
  numberDoubleValue := 0
  enumValue := 0
  stringValue := []
  binaryValue := []

def fifteenStore : Store := ⟨[fifteen], by decide, List.nodup_singleton _⟩

theorem fifteen_valid : fifteen.Valid where
  id := by decide
  permission := nofun
  bounds _ := by
    refine ⟨?_, 10, 20, ?_, ?_⟩
    · norm_num [fifteen]
    · rfl
    · rfl
  int _ _ := by
    have h : (15 : Int32).toInt = 15 := rfl
    norm_num [fifteen, h]
  double _ h := absurd rfl h
  enum := nofun
  string := nofun
  binary := nofun

theorem fifteenStore_valid : ∀ p ∈ fifteenStore.properties, p.Valid := by
  intro p hp
  rw [List.mem_singleton.mp hp]
  exact fifteen_valid

theorem fifteenStore_form : ∃ upload,
    @intoyunFormAllDatapoint zeroPlatform fifteenStore 512 true = .ok upload := ⟨_, rfl⟩

theorem roundTrip_iff_fifteen : ∃ upload,
    @intoyunFormAllDatapoint zeroPlatform fifteenStore 512 true = .ok upload ∧
      (@RoundTrip zeroPlatform fifteenStore upload.frame ↔
        ∀ p ∈ fifteenStore.properties, p.Exact) := by
  obtain ⟨upload, hform⟩ := fifteenStore_form
  exact ⟨upload, hform, @roundTrip_iff zeroExactPlatform _ _ _ fifteenStore_valid hform⟩

/-- It is received as 25, which a datapoint that holds 25 keeps. -/
theorem not_roundTrip_fifteen : ¬ ∀ (P : Platform) (s : Store) (len : UInt16) (upload : Upload),
    (∀ p ∈ s.properties, p.Valid) → @intoyunFormAllDatapoint P s len true = .ok upload →
      @RoundTrip P s upload.frame := by
  intro h
  obtain ⟨upload, hform⟩ := fifteenStore_form
  have hround := h zeroPlatform fifteenStore 512 upload fifteenStore_valid hform
  rw [@intoyunFormAllDatapoint_frame _ zeroPlatform _ _ fifteenStore_valid hform,
    @roundTrip_iff_returns _ zeroPlatform fifteenStore_valid] at hround
  have hzero : fifteen.minValue = 0 := (@returns_int zeroExactPlatform _ fifteen_valid rfl rfl).mp
    (hround fifteen (List.mem_singleton_self _))
  norm_num [fifteen] at hzero

end IotKit.Datapoint
