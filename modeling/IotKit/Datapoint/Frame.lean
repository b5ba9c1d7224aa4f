import IotKit.Datapoint.Records

/-!
# The parser stays inside the frame

`Records` is the grammar of the bytes after 0x31 that the parser reads without
leaving them: complete records, of which the last may lack bytes where it is
skipped.  A record that is written to a datapoint must have all the bytes that its
length declares, and the loop tests none of this.  `staysInside_iff` says that the
parser stays inside a frame exactly where the grammar has it.
-/

namespace IotKit.Datapoint

open CMemory

/-- The type of the datapoint with the id. -/
def Store.typeOf (s : Store) (dpID : UInt16) : Option DataType :=
  (s.property dpID).map PropertyConf.dataType

/-! ## The grammar -/

section Grammar

variable (typeOf : UInt16 → Option DataType)

/-- The bytes `data` after the type of a record are all there, and where the record is
written, so are the bytes it declares. -/
inductive Complete (dpID : UInt16) : Option DataType → (data rest : Bytes) → Prop where
  | bool {len value : UInt8} {rest : Bytes} :
      (typeOf dpID = some .bool → len.toNat ≤ 1 + rest.length) →
      Complete dpID (some .bool) [len, value] rest
  | num {len : UInt8} {value rest : Bytes} :
      typeOf dpID ≠ none → value.length = intWidth len →
      (typeOf dpID = some .num → len.toNat ≤ value.length + rest.length) →
      Complete dpID (some .num) (len :: value) rest
  | enum {len : UInt8} {value rest : Bytes} :
      value.length = intWidth len →
      (typeOf dpID = some .enum → len.toNat ≤ value.length + rest.length) →
      Complete dpID (some .enum) (len :: value) rest
  | string {len value rest : Bytes} :
      Var len value.length → Complete dpID (some .string) (len ++ value) rest
  | binary {len value rest : Bytes} :
      Var len value.length → Complete dpID (some .binary) (len ++ value) rest
  | binaryCut {len value : Bytes} {n : Nat} :
      typeOf dpID ≠ some .binary → Var len n → value.length < n →
      Complete dpID (some .binary) (len ++ value) []
  | unknown {rest : Bytes} : Complete dpID none [] rest

/-- A sequence of records. -/
inductive Records : Bytes → Prop where
  | nil : Records []
  | cons {id data rest : Bytes} {n : Nat} {t : UInt8} :
      Var id n → Complete typeOf (UInt16.ofNat n) (DataType.ofCode t) data rest → Records rest →
      Records (id ++ t :: (data ++ rest))

end Grammar

/-! ## Types -/

/-- A write keeps the types. -/
theorem typeOf_writeDatapoint {s : Store} {dpID : UInt16} {w : Setter} {type : Bool} :
    (writeDatapoint s dpID w type).typeOf = s.typeOf := by
  funext id
  rw [Store.typeOf, property_writeDatapoint, Option.map_map, Store.typeOf]
  congr 1
  funext p
  show PropertyConf.dataType (if p.dpID = dpID then w.write type p else p) = p.dataType
  split
  · exact congrArg Definition.dataType (w.write_definition type p)
  · rfl

theorem typeOf_applyRecord {s : Store} {dpID : UInt16} {r : Record} :
    (applyRecord s dpID r).store.typeOf = s.typeOf := by
  rw [applyRecord]
  split
  · rfl
  · exact typeOf_writeDatapoint

theorem typeOf_eq (s : Store) (dpID : UInt16) : s.typeOf dpID = s.definition.type dpID :=
  type_definition.symm

/-! ## One record -/

section Data

variable [Platform] {s : Store} {dpID : UInt16} {type : Option DataType} {data input rest : Bytes}
  {r : Record}

/-- What the record writes has its bytes. -/
theorem Chunk.inside_iff (h : Chunk s.definition dpID type data r) :
    (∀ a ∈ (applyRecord s dpID r).applied, a.Inside) ↔
      (r.setter ≠ none → s.typeOf dpID = type → r.declared ≤ r.room) := by
  rw [applyRecord]
  cases hw : r.setter with
  | none => exact ⟨fun _ hne => absurd rfl hne, fun _ _ ha => absurd ha List.not_mem_nil⟩
  | some w =>
      dsimp only
      have hacc : s.accepts dpID w ↔ s.typeOf dpID = type := typeOf_eq s dpID ▸ h.accepts_iff hw
      constructor
      · intro hin _ htype
        rw [if_pos (hacc.mpr htype)] at hin
        exact hin _ (List.mem_singleton_self _)
      · intro hin a ha
        split at ha
        next hyes =>
          rw [List.mem_singleton.mp ha]
          exact hin (Option.some_ne_none w) (hacc.mp hyes)
        next => cases ha

/-- The data of a record are complete exactly where a pass reads them inside the frame. -/
theorem complete_iff :
    Complete s.typeOf dpID type data rest ↔
      ∃ r, Chunk s.definition dpID type data r ∧ r.rest = rest ∧
        (r.setter ≠ none → s.typeOf dpID = type → r.declared ≤ r.room) := by
  have hroom (value : Bytes) : value.length ≤ (value ++ rest).length := by simp
  constructor
  · intro h
    cases h with
    | bool hin => exact ⟨_, .bool, rfl, fun _ htype => Nat.add_comm .. ▸ hin htype⟩
    | num hdefined hwidth hin =>
        rw [typeOf_eq] at hdefined
        obtain ⟨t, ht⟩ := Option.ne_none_iff_exists'.mp hdefined
        obtain ⟨d, hd, _⟩ := Option.map_eq_some_iff.mp ht
        exact ⟨_, .num hd hwidth, rfl, fun _ htype => List.length_append ▸ hin htype⟩
    | enum hwidth hin =>
        exact ⟨_, .enum hwidth, rfl, fun _ htype => List.length_append ▸ hin htype⟩
    | string hvar => exact ⟨_, .string hvar, rfl, fun _ _ => hroom _⟩
    | binary hvar =>
        by_cases htype : s.definition.type dpID = some .binary
        · exact ⟨_, .binary htype hvar, rfl, fun _ _ => hroom _⟩
        · exact ⟨_, .binarySkipped htype hvar, rfl, fun hne => absurd rfl hne⟩
    | binaryCut htype hvar hshort =>
        rw [typeOf_eq] at htype
        exact ⟨_, .binaryCut htype hvar hshort, rfl, fun hne => absurd rfl hne⟩
    | unknown => exact ⟨_, .unknown, rfl, fun hne => absurd rfl hne⟩
  · rintro ⟨r, h, rfl, hin⟩
    cases h with
    | bool => exact .bool fun htype => Nat.add_comm .. ▸ hin (Option.some_ne_none _) htype
    | num hd hwidth =>
        refine .num ?_ hwidth fun htype => List.length_append ▸ hin (Option.some_ne_none _) htype
        rw [typeOf_eq, Definitions.type, hd]
        exact Option.some_ne_none _
    | enum hwidth =>
        exact .enum hwidth fun htype => List.length_append ▸ hin (Option.some_ne_none _) htype
    | string hvar => exact .string hvar
    | binary _ hvar => exact .binary hvar
    | binarySkipped _ hvar => exact .binary hvar
    | binaryCut htype hvar hshort =>
        rw [← typeOf_eq] at htype
        exact .binaryCut htype hvar hshort
    | unknown => exact .unknown

end Data

/-! ## The loop -/

section Loop

variable [Platform] {s : Store} {input rest : Bytes}

/-- A pass of the loop ends at `rest` and what it writes has its bytes. -/
def PassesTo (s : Store) (input rest : Bytes) : Prop :=
  ∃ r, parseRecord s input = .ok r ∧ (∀ a ∈ r.applied, a.Inside) ∧ r.rest = rest

theorem parseRecord_passesTo :
    PassesTo s input rest ↔
      ∃ id n t data, input = id ++ t :: (data ++ rest) ∧ Var id n ∧
        Complete s.typeOf (UInt16.ofNat n) (DataType.ofCode t) data rest := by
  constructor
  · rintro ⟨_, hparsed, hin, hrest⟩
    obtain ⟨id, n, t, data, r, rfl, hvar, hchunk, rfl⟩ := parseRecord_eq_ok.mp hparsed
    rw [applyRecord_rest] at hrest
    rw [hchunk.inside_iff] at hin
    exact ⟨id, n, t, data, hrest ▸ rfl, hvar, complete_iff.mpr ⟨r, hchunk, hrest, hin⟩⟩
  · rintro ⟨id, n, t, data, rfl, hvar, hcomplete⟩
    obtain ⟨r, hchunk, rfl, hin⟩ := complete_iff.mp hcomplete
    exact ⟨_, parseRecord_eq_ok.mpr ⟨id, n, t, data, r, rfl, hvar, hchunk, rfl⟩,
      hchunk.inside_iff.mpr hin, applyRecord_rest ..⟩

theorem PassesTo.length_lt (h : PassesTo s input rest) : rest.length < input.length := by
  obtain ⟨id, n, t, data, rfl, _, _⟩ := parseRecord_passesTo.mp h
  rw [List.length_append, List.length_cons, List.length_append]
  omega

theorem parseRecord_typeOf {r : Parsed} (h : parseRecord s input = .ok r) :
    r.store.typeOf = s.typeOf := by
  obtain ⟨_, _, h⟩ := bind_eq_ok.mp h
  obtain ⟨_, _, h⟩ := bind_eq_ok.mp h
  obtain ⟨_, _, h⟩ := bind_eq_ok.mp h
  cases h
  exact typeOf_applyRecord

/-- The loop ends, and what it writes has its bytes. -/
def LoopInside (fuel : Nat) (s : Store) (input : Bytes) : Prop :=
  ∃ s' applied, parseLoop fuel s input = .ok (s', applied) ∧ ∀ a ∈ applied, a.Inside

theorem loopInside_cons {fuel : Nat} {b : UInt8} :
    LoopInside (fuel + 1) s (b :: input) ↔
      ∃ r, parseRecord s (b :: input) = .ok r ∧ (∀ a ∈ r.applied, a.Inside) ∧
        LoopInside fuel r.store r.rest := by
  constructor
  · rintro ⟨s', applied, h, hin⟩
    obtain ⟨r, hr, h⟩ := bind_eq_ok.mp h
    obtain ⟨⟨s'', applied'⟩, hloop, h⟩ := bind_eq_ok.mp h
    cases h
    exact ⟨r, hr, fun a ha => hin a (List.mem_append_left _ ha), s', applied', hloop,
      fun a ha => hin a (List.mem_append_right _ ha)⟩
  · rintro ⟨r, hr, hin, s', applied, hloop, hin'⟩
    refine ⟨s', r.applied ++ applied, ?_, fun a ha => ?_⟩
    · exact bind_eq_ok.mpr ⟨r, hr, bind_eq_ok.mpr ⟨(s', applied), hloop, rfl⟩⟩
    · exact (List.mem_append.mp ha).elim (hin a) (hin' a)

/-- The loop stays inside exactly where records follow. -/
theorem loopInside_iff {fuel : Nat} (hfuel : input.length ≤ fuel) :
    LoopInside fuel s input ↔ Records s.typeOf input := by
  induction fuel generalizing s input with
  | zero =>
      obtain rfl := List.length_eq_zero_iff.mp (Nat.le_zero.mp hfuel)
      exact ⟨fun _ => .nil, fun _ => ⟨s, [], rfl, nofun⟩⟩
  | succ fuel ih =>
      cases input with
      | nil => exact ⟨fun _ => .nil, fun _ => ⟨s, [], rfl, nofun⟩⟩
      | cons b input =>
          rw [loopInside_cons]
          constructor
          · rintro ⟨r, hr, hin, hloop⟩
            have hpass : PassesTo s (b :: input) r.rest := ⟨r, hr, hin, rfl⟩
            rw [ih (Nat.le_of_lt_succ (Nat.lt_of_lt_of_le hpass.length_lt hfuel)),
              parseRecord_typeOf hr] at hloop
            obtain ⟨id, n, t, data, hinput, hvar, hcomplete⟩ := parseRecord_passesTo.mp hpass
            rw [hinput]
            exact .cons hvar hcomplete hloop
          · intro hrecords
            generalize hinput : b :: input = bytes at hrecords
            cases hrecords with
            | nil => cases hinput
            | @cons id data rest n t hvar hcomplete hrecords =>
                have hpass : PassesTo s (b :: input) rest :=
                  parseRecord_passesTo.mpr ⟨id, n, t, data, hinput, hvar, hcomplete⟩
                have hlt := Nat.lt_of_lt_of_le hpass.length_lt hfuel
                obtain ⟨r, hr, hin, rfl⟩ := hpass
                refine ⟨r, hinput ▸ hr, hin, ?_⟩
                rw [ih (Nat.le_of_lt_succ hlt), parseRecord_typeOf hr]
                exact hrecords

/-- The parser ends, reads no byte outside the payload and writes no datapoint from
data that the frame does not have. -/
def StaysInside (s : Store) (payload : Bytes) : Prop :=
  ∃ r, parseDatapoints s (some payload) = .ok r ∧
    ∀ s' applied, r = some (s', applied) → ∀ a ∈ applied, a.Inside

/-- The parser stays inside exactly the frames that are not empty and either begin
with another byte than 0x31 or go on with records. -/
theorem staysInside_iff (payload : Bytes) :
    StaysInside s payload ↔
      ∃ b body, payload = b :: body ∧ (b = 0x31 → Records s.typeOf body) := by
  cases payload with
  | nil => exact ⟨fun ⟨_, h, _⟩ => (nomatch h), fun ⟨_, _, h, _⟩ => (nomatch h)⟩
  | cons b body =>
      rw [StaysInside, parseDatapoints_cons]
      split
      next hb =>
        constructor
        · rintro ⟨r, hr, hin⟩
          obtain ⟨⟨s', applied⟩, hloop, hr⟩ := bind_eq_ok.mp hr
          cases hr
          exact ⟨b, body, rfl, fun _ =>
            (loopInside_iff (Nat.le_refl _)).mp ⟨s', applied, hloop, hin s' applied rfl⟩⟩
        · rintro ⟨_, _, hpayload, hrecords⟩
          cases hpayload
          obtain ⟨s', applied, hloop, hin⟩ := (loopInside_iff (Nat.le_refl _)).mpr (hrecords hb)
          refine ⟨some (s', applied), bind_eq_ok.mpr ⟨_, hloop, rfl⟩, fun s'' applied' h => ?_⟩
          cases h
          exact hin
      next hb =>
        refine ⟨fun _ => ⟨b, body, rfl, fun h => absurd h hb⟩, fun _ => ⟨none, rfl, nofun⟩⟩

end Loop

/-- A record that ends after its id is read past its end. -/
theorem not_staysInside_truncated : ¬ ∀ (P : Platform) (s : Store) (payload : Bytes),
    @StaysInside P s payload := by
  intro h
  obtain ⟨r, hr, _⟩ := h zeroPlatform Store.empty [0x31, 1]
  cases hr

end IotKit.Datapoint
