import Mathlib.Algebra.Order.Ring.Int
import Mathlib.Data.List.Basic
import Mathlib.Tactic.Common

/-!
# Checked memory

An object of memory is the list of its bytes, and every access is checked
against its length.  A computation that leaves the object stops with a `Fault`:
the language gives the run no further meaning, so no later result of it may be
used.  `loadN` and `storeN` are the bulk accesses and `load` the single one.
Indices are integers, since a pointer difference may be negative.

`Buf` is an object that also logs the indices written to it, oldest first.  It
serves statements of the form "every byte is written exactly once".

The last section is the big-endian pair of bytes of a 16-bit word.
-/

namespace CMemory

/-- The bytes of one object, from its first. -/
abbrev Bytes := List UInt8

/-- Why a run has no further meaning. -/
inductive Fault where
  /-- A byte outside the object is read. -/
  | load
  /-- A byte outside the object is written. -/
  | store
  /-- A table is indexed outside its entries. -/
  | index
  /-- A loop never ends. -/
  | diverge
deriving DecidableEq, Repr

/-- A computation that may fault. -/
abbrev Checked := Except Fault

instance {α : Type} [DecidableEq α] : DecidableEq (Checked α)
  | .ok a, .ok b => if h : a = b then isTrue (h ▸ rfl) else isFalse fun e => h (Except.ok.inj e)
  | .error e, .error f =>
      if h : e = f then isTrue (h ▸ rfl) else isFalse fun e' => h (Except.error.inj e')
  | .ok _, .error _ => isFalse (by intro h; cases h)
  | .error _, .ok _ => isFalse (by intro h; cases h)

/-- A sequence succeeds exactly when both halves do. -/
theorem bind_eq_ok {ε α β : Type} {x : Except ε α} {f : α → Except ε β} {b : β} :
    (x >>= f) = .ok b ↔ ∃ a, x = .ok a ∧ f a = .ok b := by
  cases x with
  | ok a => exact ⟨fun h => ⟨a, rfl, h⟩, fun ⟨a', ha, h⟩ => by cases ha; exact h⟩
  | error e =>
      constructor
      · intro h; cases h
      · rintro ⟨a, ha, _⟩; cases ha

/-- A sequence fails where one half does. -/
theorem bind_eq_error {ε α β : Type} {x : Except ε α} {f : α → Except ε β} {e : ε} :
    (x >>= f) = .error e ↔ x = .error e ∨ ∃ a, x = .ok a ∧ f a = .error e := by
  cases x with
  | ok a =>
      refine ⟨fun h => Or.inr ⟨a, rfl, h⟩, ?_⟩
      rintro (h | ⟨a', ha, h⟩)
      · cases h
      · cases ha
        exact h
  | error e' =>
      refine ⟨fun h => Or.inl (by cases h; rfl), ?_⟩
      rintro (h | ⟨a', ha, _⟩)
      · cases h
        rfl
      · cases ha

theorem map_eq_ok {ε α β : Type} {x : Except ε α} {f : α → β} {b : β} :
    f <$> x = .ok b ↔ ∃ a, x = .ok a ∧ f a = b := by
  cases x with
  | ok a => exact ⟨fun h => ⟨a, rfl, Except.ok.inj h⟩, fun ⟨_, ha, h⟩ => by cases ha; exact h ▸ rfl⟩
  | error e => exact ⟨nofun, nofun⟩

@[simp] theorem ok_bind {α β : Type} (a : α) (f : α → Checked β) :
    ((Except.ok a : Checked α) >>= f) = f a := rfl

/-! ## Loads and stores -/

/-- The byte at index `i`. -/
def load (m : Bytes) (i : Int) : Checked UInt8 :=
  if 0 ≤ i then
    match m[i.toNat]? with
    | some b => .ok b
    | none => .error .load
  else .error .load

/-- The `n` bytes from index `i` on. -/
def loadN (m : Bytes) (i : Int) (n : Nat) : Checked Bytes :=
  if 0 ≤ i ∧ i.toNat + n ≤ m.length then .ok ((m.drop i.toNat).take n) else .error .load

/-- The object after the bytes `bs` are written from index `i` on. -/
def storeN (m : Bytes) (i : Int) (bs : Bytes) : Checked Bytes :=
  if 0 ≤ i ∧ i.toNat + bs.length ≤ m.length then
    .ok (m.take i.toNat ++ (bs ++ m.drop (i.toNat + bs.length)))
  else .error .store

theorem load_eq_ok {m : Bytes} {i : Nat} {b : UInt8} :
    load m (i : Int) = .ok b ↔ m[i]? = some b := by
  simp only [load, Int.natCast_nonneg, if_true, Int.toNat_natCast]
  cases m[i]? with
  | none => simp
  | some c => simp

theorem load_of_lt {m : Bytes} {i : Nat} (h : i < m.length) : load m (i : Int) = .ok m[i] :=
  load_eq_ok.mpr (List.getElem?_eq_getElem h)

theorem loadN_of_le {m : Bytes} {i n : Nat} (h : i + n ≤ m.length) :
    loadN m (i : Int) n = .ok ((m.drop i).take n) := by
  rw [loadN, if_pos ⟨Int.natCast_nonneg i, by rwa [Int.toNat_natCast]⟩, Int.toNat_natCast]

theorem loadN_front {m : Bytes} {n : Nat} (h : n ≤ m.length) : loadN m 0 n = .ok (m.take n) :=
  loadN_of_le (m := m) (i := 0) (by omega)

theorem loadN_eq_ok {m bs : Bytes} {i : Int} {n : Nat} :
    loadN m i n = .ok bs ↔ 0 ≤ i ∧ i.toNat + n ≤ m.length ∧ bs = (m.drop i.toNat).take n := by
  unfold loadN
  split
  · next h => exact ⟨fun e => ⟨h.1, h.2, (Except.ok.inj e).symm⟩, fun e => by rw [e.2.2]⟩
  · next h =>
      constructor
      · intro e; cases e
      · rintro ⟨h0, h1, _⟩; exact absurd ⟨h0, h1⟩ h

theorem loadN_length {m bs : Bytes} {i : Int} {n : Nat} (h : loadN m i n = .ok bs) :
    bs.length = n := by
  obtain ⟨_, h1, rfl⟩ := loadN_eq_ok.mp h
  rw [List.length_take, List.length_drop]
  omega

theorem storeN_of_le {m bs : Bytes} {i : Nat} (h : i + bs.length ≤ m.length) :
    storeN m (i : Int) bs = .ok (m.take i ++ (bs ++ m.drop (i + bs.length))) := by
  rw [storeN, if_pos ⟨Int.natCast_nonneg i, by rwa [Int.toNat_natCast]⟩, Int.toNat_natCast]

/-- The byte behind `done` is written. -/
theorem storeN_next {done rest : Bytes} {n : Nat} (old b : UInt8) (hn : done.length = n) :
    storeN (done ++ old :: rest) n [b] = .ok (done ++ [b] ++ rest) := by
  subst hn
  rw [storeN_of_le (by simp)]
  simp [List.drop_append]

theorem storeN_eq_ok {m m' bs : Bytes} {i : Int} :
    storeN m i bs = .ok m' ↔ 0 ≤ i ∧ i.toNat + bs.length ≤ m.length ∧
      m' = m.take i.toNat ++ (bs ++ m.drop (i.toNat + bs.length)) := by
  unfold storeN
  split
  · next h => exact ⟨fun e => ⟨h.1, h.2, (Except.ok.inj e).symm⟩, fun e => by rw [e.2.2]⟩
  · next h =>
      constructor
      · intro e; cases e
      · rintro ⟨h0, h1, _⟩; exact absurd ⟨h0, h1⟩ h

/-- A store keeps the size of the object. -/
theorem storeN_length {m m' bs : Bytes} {i : Int} (h : storeN m i bs = .ok m') :
    m'.length = m.length := by
  obtain ⟨_, h1, rfl⟩ := storeN_eq_ok.mp h
  simp only [List.length_append, List.length_take, List.length_drop]
  omega

/-- What was stored is what is loaded. -/
theorem loadN_storeN {m m' bs : Bytes} {i : Int} (h : storeN m i bs = .ok m') :
    loadN m' i bs.length = .ok bs := by
  have hl := storeN_length h
  obtain ⟨h0, h1, rfl⟩ := storeN_eq_ok.mp h
  refine loadN_eq_ok.mpr ⟨h0, by omega, ?_⟩
  have ht : (m.take i.toNat).length = i.toNat := by rw [List.length_take]; omega
  rw [List.drop_append_of_le_length (by omega), List.drop_of_length_le (by omega), List.nil_append,
    List.take_append_of_le_length (Nat.le_refl _), List.take_length]

/-- What an allocator returns for a size: nothing, or an object of that size. -/
abbrev Malloc := (n : Nat) → Option { bs : Bytes // bs.length = n }

/-! ## Buffers with a write log -/

/-- An object together with the indices written to it, oldest first. -/
structure Buf where
  bytes : Bytes
  written : List Nat
deriving DecidableEq, Repr

/-- A buffer nothing was written to. -/
def Buf.fresh (m : Bytes) : Buf := ⟨m, []⟩

/-- Write one byte. -/
def Buf.write (d : Buf) (i : Nat) (b : UInt8) : Checked Buf :=
  if i < d.bytes.length then .ok ⟨d.bytes.set i b, d.written ++ [i]⟩ else .error .store

theorem Buf.write_of_lt {d : Buf} {i : Nat} {b : UInt8} (h : i < d.bytes.length) :
    d.write i b = .ok ⟨d.bytes.set i b, d.written ++ [i]⟩ := if_pos h

/-- The first `m` bytes of `d` are `f 0`, `f 1`, ..., each written once and in
order, and the rest is as in `m₀`. -/
structure Buf.Filled (m₀ : Bytes) (f : Nat → UInt8) (m : Nat) (d : Buf) : Prop where
  length : d.bytes.length = m₀.length
  done : ∀ i < m, d.bytes[i]? = some (f i)
  rest : ∀ i, m ≤ i → d.bytes[i]? = m₀[i]?
  once : d.written = List.range m

theorem Buf.filled_fresh (m₀ : Bytes) (f : Nat → UInt8) : Buf.Filled m₀ f 0 (Buf.fresh m₀) :=
  ⟨rfl, fun _ h => absurd h (Nat.not_lt_zero _), fun _ _ => rfl, rfl⟩

/-- Writing the next byte fills one more. -/
theorem Buf.Filled.write {m₀ : Bytes} {f : Nat → UInt8} {m : Nat} {d : Buf}
    (h : Buf.Filled m₀ f m d) (hm : m < m₀.length) :
    ∃ d', d.write m (f m) = .ok d' ∧ Buf.Filled m₀ f (m + 1) d' := by
  have hlt : m < d.bytes.length := by rw [h.length]; exact hm
  refine ⟨_, Buf.write_of_lt hlt, ?_, ?_, ?_, ?_⟩
  · rw [List.length_set, h.length]
  · intro i hi
    rcases Nat.lt_succ_iff_lt_or_eq.mp hi with hi | rfl
    · rw [List.getElem?_set_ne (Nat.ne_of_gt hi), h.done i hi]
    · rw [List.getElem?_set_self hlt]
  · intro i hi
    rw [List.getElem?_set_ne (Nat.ne_of_lt hi), h.rest i (Nat.le_of_succ_le hi)]
  · rw [h.once, List.range_succ]

/-- A filled buffer begins with the bytes it was filled with. -/
theorem Buf.Filled.take {m₀ : Bytes} {f : Nat → UInt8} {m : Nat} {d : Buf}
    (h : Buf.Filled m₀ f m d) : d.bytes.take m = ((List.range m).map f).take d.bytes.length := by
  apply List.ext_getElem?
  intro i
  by_cases hi : i < m
  · by_cases hl : i < d.bytes.length
    · rw [List.getElem?_take_of_lt hi, h.done i hi, List.getElem?_take_of_lt hl,
        List.getElem?_map, List.getElem?_range hi, Option.map_some]
    · rw [List.getElem?_take_of_lt hi, List.getElem?_eq_none (Nat.le_of_not_lt hl),
        List.getElem?_eq_none (by rw [List.length_take]; omega)]
  · rw [List.getElem?_eq_none (by rw [List.length_take]; omega),
      List.getElem?_eq_none (by rw [List.length_take, List.length_map, List.length_range]; omega)]

/-! ## Big-endian words -/

/-- The two bytes of a 16-bit word, high byte first. -/
def be16 (n : Nat) : Bytes := [UInt8.ofNat (n / 256), UInt8.ofNat n]

/-- The word two bytes denote, high byte first. -/
def ofBe16 (hi lo : UInt8) : Nat := 256 * hi.toNat + lo.toNat

@[simp] theorem be16_length (n : Nat) : (be16 n).length = 2 := rfl

theorem ofBe16_be16 {n : Nat} (h : n < 65536) :
    ofBe16 (UInt8.ofNat (n / 256)) (UInt8.ofNat n) = n := by
  simp only [ofBe16, UInt8.toNat_ofNat']
  omega

end CMemory
