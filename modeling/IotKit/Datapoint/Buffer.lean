import IotKit.Datapoint.Protection
import IotKit.Lib.Writer
import Mathlib.Algebra.Order.BigOperators.Group.List

/-!
# The buffers of the upload frames

`intoyunFormDataPointBinary` and its callers write site after site into a buffer of
the caller's, and none of them looks at `len`.  Here they are on the buffer itself.
Each of them is one write of the bytes that `Codec` lists (`formDataPoint_eq`,
`formAllLoop_eq`), so a frame fits exactly when the sizes of its records do
(`framesFit_iff`).
-/

namespace IotKit.Datapoint

open CMemory

namespace Buffer

/-! ## The write sites -/

/-- An id or a length, in one byte or two. -/
def putVar (n : Nat) (c : Cursor) : Checked Cursor :=
  if n < 0x80 then c.put [UInt8.ofNat n]
  else do
    let c ← c.put [UInt8.ofNat (0x80 + n / 256 % 128)]
    c.put [UInt8.ofNat n]

/-- The length and the bytes of an `int32_t`. -/
def putInt (value : Int32) (c : Cursor) : Checked Cursor :=
  let u := value.toUInt32.toNat
  if 65536 ≤ u then do
    let c ← c.put [4]
    let c ← c.put [UInt8.ofNat (u / 16777216)]
    let c ← c.put [UInt8.ofNat (u / 65536)]
    let c ← c.put [UInt8.ofNat (u / 256)]
    c.put [UInt8.ofNat u]
  else if 256 ≤ u then do
    let c ← c.put [2]
    let c ← c.put [UInt8.ofNat (u / 256)]
    c.put [UInt8.ofNat u]
  else do
    let c ← c.put [1]
    c.put [UInt8.ofNat u]

/-- A length in 16 bits and a `memcpy` of as many bytes. -/
def putBytes (bs : Bytes) (c : Cursor) : Checked Cursor := do
  let c ← putVar (bs.length % 65536) c
  c.put (bs.take (bs.length % 65536))

/-- The `switch` of `intoyunFormDataPointBinary`. -/
def putData [Platform] (p : PropertyConf) (c : Cursor) : Checked Cursor :=
  match p.dataType with
  | .bool => do
      let c ← c.put [0]
      let c ← c.put [1]
      c.put [if p.boolValue then 1 else 0]
  | .num => do
      let c ← c.put [1]
      putInt (formNumber p) c
  | .enum => do
      let c ← c.put [2]
      let c ← c.put [1]
      c.put [UInt8.ofNat p.enumValue.toUInt32.toNat]
  | .string => do
      let c ← c.put [3]
      putBytes p.stringValue c
  | .binary => do
      let c ← c.put [4]
      putBytes p.binaryValue c

/-- `intoyunFormDataPointBinary` at `buffer + index`: the buffer and the return
value, which is 16 bits wide. -/
def intoyunFormDataPointBinary [Platform] (p : PropertyConf) (buffer : Bytes) (index : Nat) :
    Checked (Bytes × Nat) := do
  let c ← putVar p.dpID.toNat ⟨buffer, index⟩
  let c ← putData p c
  .ok (c.object, (c.index - index) % 65536)

/-- `intoyunFormSingleDatapoint`.  It does not use `len`. -/
def intoyunFormSingleDatapoint [Platform] (p : PropertyConf) (buffer : Bytes) (_len : UInt16) :
    Checked (Bytes × Nat) := do
  let c ← Cursor.put ⟨buffer, 0⟩ [0x31]
  let (buffer, n) ← intoyunFormDataPointBinary p c.object c.index
  .ok (buffer, (c.index + n) % 65536)

/-- The loop of `intoyunFormAllDatapoint`. -/
def formAllLoop [Platform] (type : Bool) :
    List PropertyConf → Bytes → Nat → Checked (Bytes × Nat)
  | [], buffer, index => .ok (buffer, index)
  | p :: ps, buffer, index =>
      if p.permission = .downOnly then formAllLoop type ps buffer index
      else if 0x3F00 < p.dpID then formAllLoop type ps buffer index
      else if type || (!type && p.change) then do
        let (buffer, n) ← intoyunFormDataPointBinary p buffer index
        formAllLoop type ps buffer (index + n)
      else formAllLoop type ps buffer index

/-- `intoyunFormAllDatapoint`.  It does not use `len`. -/
def intoyunFormAllDatapoint [Platform] (s : Store) (buffer : Bytes) (_len : UInt16)
    (type : Bool) : Checked (Bytes × Nat) := do
  let c ← Cursor.put ⟨buffer, 0⟩ [0x31]
  let (buffer, index) ← formAllLoop type s.properties c.object c.index
  .ok (buffer, index % 65536)

/-! ## One write -/

theorem putVar_eq (n : Nat) (c : Cursor) : putVar n c = c.put (formVar n) := by
  rw [putVar, formVar]
  split
  next => rfl
  next => exact (Cursor.put_append c [_] [_]).symm

theorem putInt_eq (value : Int32) (c : Cursor) : putInt value c = c.put (formInt value) := by
  rw [putInt, formInt]
  split
  next => simp only [← Cursor.put_append, List.singleton_append]
  next =>
    split
    next => simp only [← Cursor.put_append, List.singleton_append]
    next => simp only [← Cursor.put_append, List.singleton_append]

theorem putBytes_eq (bs : Bytes) (c : Cursor) : putBytes bs c = c.put (formBytes bs) := by
  rw [putBytes, putVar_eq, ← Cursor.put_append, formBytes]

/-- Whether the loop takes the datapoint. -/
theorem taken_iff (type : Bool) (p : PropertyConf) :
    (p.Uploadable ∧ (type ∨ p.change)) ↔
      p.permission ≠ .downOnly ∧ ¬ 0x3F00 < p.dpID ∧ (type || (!type && p.change)) = true := by
  rw [PropertyConf.Uploadable, UInt16.not_lt, and_assoc]
  cases type with
  | true => simp
  | false => simp

section Write

variable [Platform]

/-- The bytes that follow the id. -/
def formData (p : PropertyConf) : Bytes :=
  match p.dataType with
  | .bool => [0, 1, if p.boolValue then 1 else 0]
  | .num => 1 :: formInt (formNumber p)
  | .enum => [2, 1, UInt8.ofNat p.enumValue.toUInt32.toNat]
  | .string => 3 :: formBytes p.stringValue
  | .binary => 4 :: formBytes p.binaryValue

theorem putData_eq (p : PropertyConf) (c : Cursor) : putData p c = c.put (formData p) := by
  rw [putData, formData]
  cases p.dataType with
  | bool => simp only [← Cursor.put_append, List.singleton_append]
  | num => simp only [putInt_eq, ← Cursor.put_append, List.singleton_append]
  | enum => simp only [← Cursor.put_append, List.singleton_append]
  | string => simp only [putBytes_eq, ← Cursor.put_append, List.singleton_append]
  | binary => simp only [putBytes_eq, ← Cursor.put_append, List.singleton_append]

/-- The encoder of one datapoint writes its record at `buffer + index`. -/
theorem formDataPoint_eq (p : PropertyConf) (buffer : Bytes) (index : Nat) :
    intoyunFormDataPointBinary p buffer index =
      (Cursor.put ⟨buffer, index⟩ (Datapoint.intoyunFormDataPointBinary p)).map
        fun c => (c.object, (c.index - index) % 65536) := by
  have hrecord : Datapoint.intoyunFormDataPointBinary p = formVar p.dpID.toNat ++ formData p := rfl
  rw [hrecord, Cursor.put_append, intoyunFormDataPointBinary, putVar_eq]
  cases Cursor.put ⟨buffer, index⟩ (formVar p.dpID.toNat) with
  | error e => rfl
  | ok c =>
      rw [ok_bind, ok_bind, putData_eq]
      rfl

/-- The loop writes the records of the datapoints it takes. -/
theorem formAllLoop_eq (type : Bool) (ps : List PropertyConf) (buffer : Bytes) (index : Nat)
    (hindex : index ≤ buffer.length) (hword : buffer.length < 65536) :
    formAllLoop type ps buffer index =
      (Cursor.put ⟨buffer, index⟩
        ((ps.filter fun p => p.Uploadable ∧ (type ∨ p.change)).flatMap
          Datapoint.intoyunFormDataPointBinary)).map fun c => (c.object, c.index) := by
  induction ps generalizing buffer index with
  | nil =>
      rw [List.filter_nil, List.flatMap_nil, Cursor.put_nil hindex]
      rfl
  | cons p ps ih =>
      have hskip := ih buffer index hindex hword
      rw [formAllLoop, List.filter_cons]
      simp only [decide_eq_true_eq, taken_iff]
      split
      next hperm => rw [if_neg fun h => h.1 hperm, hskip]; simp only [taken_iff]
      next hperm =>
        split
        next hid => rw [if_neg fun h => h.2.1 hid, hskip]; simp only [taken_iff]
        next hid =>
          split
          next htype =>
            rw [if_pos ⟨hperm, hid, htype⟩, List.flatMap_cons, Cursor.put_append, formDataPoint_eq]
            cases hput : Cursor.put ⟨buffer, index⟩ (Datapoint.intoyunFormDataPointBinary p) with
            | error e => rfl
            | ok c =>
                obtain ⟨hlen, hnext⟩ := Cursor.put_size hput
                obtain ⟨hle, _⟩ := Cursor.put_eq_ok.mp hput
                simp only at hlen hnext hle
                have hback : index + (c.index - index) % 65536 = c.index := by omega
                have hrest := ih c.object c.index (by omega) (by omega)
                simp only [taken_iff] at hrest
                show formAllLoop type ps c.object (index + (c.index - index) % 65536) = _
                rw [hback, hrest]
                rfl
          next htype => rw [if_neg fun h => htype h.2.2, hskip]; simp only [taken_iff]

/-- One write of a frame from the beginning of the buffer. -/
theorem putFrame_eq (ps : List PropertyConf) {buffer : Bytes} {len : UInt16}
    (hlen : buffer.length = len.toNat) :
    (Cursor.put ⟨buffer, 0⟩ (0x31 :: ps.flatMap Datapoint.intoyunFormDataPointBinary)).map
        (fun c => (c.object, c.index % 65536)) =
      (formFrame len ps).map fun u => (u.frame ++ buffer.drop u.frame.length, u.frame.length) := by
  have hword := len.toNat_lt
  rw [formFrame]
  split
  next hle =>
    rw [Cursor.put_of_le (by simpa [hlen] using hle)]
    simp only [Except.map, Nat.zero_add, List.take_zero, List.nil_append]
    rw [Nat.mod_eq_of_lt (by omega)]
  next hlong =>
    rw [Cursor.put_of_lt (by simpa [hlen] using hlong)]
    rfl

/-- The frame of one datapoint is that of `Codec`, and the bytes behind it are left. -/
theorem formSingle_eq (p : PropertyConf) {buffer : Bytes} {len : UInt16}
    (hlen : buffer.length = len.toNat) :
    intoyunFormSingleDatapoint p buffer len =
      (Datapoint.intoyunFormSingleDatapoint p len).map
        fun u => (u.frame ++ buffer.drop u.frame.length, u.frame.length) := by
  have hword := len.toNat_lt
  rw [Datapoint.intoyunFormSingleDatapoint, ← putFrame_eq [p] hlen, List.flatMap_singleton,
    ← List.singleton_append, Cursor.put_append, intoyunFormSingleDatapoint]
  cases hput : Cursor.put ⟨buffer, 0⟩ [0x31] with
  | error e => rfl
  | ok c =>
      obtain ⟨hsize, _⟩ := Cursor.put_size hput
      simp only at hsize
      rw [ok_bind, ok_bind, formDataPoint_eq]
      cases hrecord : Cursor.put ⟨c.object, c.index⟩ (Datapoint.intoyunFormDataPointBinary p) with
      | error e => rfl
      | ok c' =>
          obtain ⟨_, hnext⟩ := Cursor.put_size hrecord
          obtain ⟨hle, _⟩ := Cursor.put_eq_ok.mp hrecord
          simp only at hnext hle
          have hback : (c.index + (c'.index - c.index) % 65536) % 65536 = c'.index % 65536 := by
            omega
          show Except.ok (c'.object, (c.index + (c'.index - c.index) % 65536) % 65536) = _
          rw [hback]
          rfl

/-- So is the frame of all datapoints. -/
theorem formAll_eq (s : Store) {buffer : Bytes} {len : UInt16} (type : Bool)
    (hlen : buffer.length = len.toNat) :
    intoyunFormAllDatapoint s buffer len type =
      (Datapoint.intoyunFormAllDatapoint s len type).map
        fun u => (u.frame ++ buffer.drop u.frame.length, u.frame.length) := by
  have hword := len.toNat_lt
  rw [Datapoint.intoyunFormAllDatapoint, ← putFrame_eq _ hlen, ← List.singleton_append,
    Cursor.put_append, intoyunFormAllDatapoint]
  cases hput : Cursor.put ⟨buffer, 0⟩ [0x31] with
  | error e => rfl
  | ok c =>
      obtain ⟨hsize, hindex⟩ := Cursor.put_size hput
      obtain ⟨hle, _⟩ := Cursor.put_eq_ok.mp hput
      simp only [List.length_singleton] at hsize hindex hle
      rw [ok_bind, ok_bind, formAllLoop_eq type _ c.object c.index (by omega) (by omega)]
      generalize (s.properties.filter _).flatMap _ = records
      show (Except.map _ (Cursor.put c records) >>= _) = _
      cases Cursor.put c records with
      | error e => rfl
      | ok c' => rfl

end Write

/-! ## Sizes -/

/-- The size of an id or a length. -/
def varSize (n : Nat) : Nat := if n < 0x80 then 1 else 2

/-- The bytes of a number. -/
def numberSize (value : Int32) : Nat :=
  if 65536 ≤ value.toUInt32.toNat then 4 else if 256 ≤ value.toUInt32.toNat then 2 else 1

theorem formVar_length (n : Nat) : (formVar n).length = varSize n := by
  rw [formVar, varSize]
  split
  next => rfl
  next => rfl

theorem formInt_length (value : Int32) : (formInt value).length = 1 + numberSize value := by
  rw [formInt, numberSize]
  split
  next => rfl
  next =>
    split
    next => rfl
    next => rfl

theorem formBytes_length (bs : Bytes) :
    (formBytes bs).length = varSize (bs.length % 65536) + bs.length % 65536 := by
  rw [formBytes, List.length_append, formVar_length,
    List.length_take_of_le (Nat.mod_le _ _)]

section Sizes

variable [Platform]

/-- The size of a record: the id, the type, the length and the data. -/
def recordSize (p : PropertyConf) : Nat :=
  varSize p.dpID.toNat + 1 +
    match p.dataType with
    | .bool => 2
    | .num => 1 + numberSize (formNumber p)
    | .enum => 2
    | .string => varSize (p.stringValue.length % 65536) + p.stringValue.length % 65536
    | .binary => varSize (p.binaryValue.length % 65536) + p.binaryValue.length % 65536

/-- A record has its size. -/
theorem record_length (p : PropertyConf) :
    (Datapoint.intoyunFormDataPointBinary p).length = recordSize p := by
  rw [Datapoint.intoyunFormDataPointBinary, List.length_append, formVar_length, recordSize]
  cases p.dataType with
  | bool => rfl
  | num =>
      simp only [List.length_cons, formInt_length]
      omega
  | enum => rfl
  | string =>
      simp only [List.length_cons, formBytes_length]
      omega
  | binary =>
      simp only [List.length_cons, formBytes_length]
      omega

/-- The sizes of the records that go up with all datapoints. -/
def uploadSize (s : Store) : Nat :=
  ((s.properties.filter fun p => p.Uploadable).map recordSize).sum

/-- Every record fits behind the first byte of 256, and all that go up behind the
first of 512. -/
structure Budget (s : Store) : Prop where
  single : ∀ p ∈ s.properties, 1 + recordSize p ≤ 256
  all : 1 + uploadSize s ≤ 512

/-- The two encoders stay inside their buffers and return a length that does. -/
structure FramesFit (s : Store) : Prop where
  single : ∀ p ∈ s.properties, ∀ buffer : Bytes, buffer.length = 256 →
    ∃ buffer' n, intoyunFormSingleDatapoint p buffer 256 = .ok (buffer', n) ∧ n ≤ 256
  all : ∀ (buffer : Bytes) (type : Bool), buffer.length = 512 →
    ∃ buffer' n, intoyunFormAllDatapoint s buffer 512 type = .ok (buffer', n) ∧ n ≤ 512

theorem flatMap_length (ps : List PropertyConf) :
    (ps.flatMap Datapoint.intoyunFormDataPointBinary).length = (ps.map recordSize).sum := by
  rw [List.length_flatMap]
  simp only [record_length]

/-- A frame is inside the buffer exactly when its records are. -/
theorem formFrame_eq_ok (ps : List PropertyConf) (len : UInt16) :
    (∃ u, formFrame len ps = .ok u) ↔ 1 + (ps.map recordSize).sum ≤ len.toNat := by
  rw [← flatMap_length, Nat.add_comm, formFrame]
  constructor
  · rintro ⟨u, hu⟩
    split at hu
    next hle => exact hle
    next => cases hu
  · intro hle
    exact ⟨_, if_pos hle⟩

theorem formFrame_le {ps : List PropertyConf} {len : UInt16} {u : Upload}
    (h : formFrame len ps = .ok u) : u.frame.length ≤ len.toNat := by
  rw [formFrame] at h
  split at h
  next hle =>
    cases h
    exact hle
  next => cases h

/-- The size of what goes up with the changed datapoints is no greater. -/
theorem changedSize_le (s : Store) (type : Bool) :
    ((s.properties.filter fun p => p.Uploadable ∧ (type ∨ p.change)).map recordSize).sum ≤
      uploadSize s := by
  have hsub : (s.properties.filter fun p => p.Uploadable ∧ (type ∨ p.change)).Sublist
      (s.properties.filter fun p => p.Uploadable) := by
    refine List.monotone_filter_right _ fun p hp => ?_
    simp only [decide_eq_true_eq] at hp ⊢
    exact hp.1
  exact (hsub.map recordSize).sum_le_sum fun _ _ => Nat.zero_le _

/-- The frames fit exactly when the sizes of the records are within the budget. -/
theorem framesFit_iff (s : Store) : FramesFit s ↔ Budget s := by
  constructor
  · intro hfit
    refine ⟨?_, ?_⟩
    · intro p hp
      have hlen : (List.replicate 256 (0 : UInt8)).length = (256 : UInt16).toNat :=
        List.length_replicate
      obtain ⟨buffer', n, hform, _⟩ := hfit.single p hp _ hlen
      rw [formSingle_eq p hlen] at hform
      obtain ⟨u, hu, _⟩ := map_eq_ok.mp hform
      simpa using (formFrame_eq_ok [p] 256).mp ⟨u, hu⟩
    · have hlen : (List.replicate 512 (0 : UInt8)).length = (512 : UInt16).toNat :=
        List.length_replicate
      obtain ⟨buffer', n, hform, _⟩ := hfit.all _ true hlen
      rw [formAll_eq s true hlen] at hform
      obtain ⟨u, hu, _⟩ := map_eq_ok.mp hform
      simpa [uploadSize] using (formFrame_eq_ok _ 512).mp ⟨u, hu⟩
  · intro hbudget
    refine ⟨?_, ?_⟩
    · intro p hp buffer hlen
      obtain ⟨u, hu⟩ := (formFrame_eq_ok [p] 256).mpr (by simpa using hbudget.single p hp)
      refine ⟨u.frame ++ buffer.drop u.frame.length, u.frame.length, ?_, formFrame_le hu⟩
      rw [formSingle_eq p hlen]
      exact map_eq_ok.mpr ⟨u, hu, rfl⟩
    · intro buffer type hlen
      obtain ⟨u, hu⟩ := (formFrame_eq_ok _ 512).mpr
        (Nat.le_trans (Nat.add_le_add_left (changedSize_le s type) 1) hbudget.all)
      refine ⟨u.frame ++ buffer.drop u.frame.length, u.frame.length, ?_, formFrame_le hu⟩
      rw [formAll_eq s type hlen]
      exact map_eq_ok.mpr ⟨u, hu, rfl⟩

end Sizes

end Buffer

end IotKit.Datapoint
