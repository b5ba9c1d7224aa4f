import IotKit.Lib.Memory

/-!
# Reading an object from front to back

A cursor into an object is what remains of the object from it on.  A read takes
bytes off the front and fails where there are none left.  The `_eq_ok` lemmas say
what was read and what remains as an append, which serves both directions: to run
a reader on a known input, and to take apart an input that was read.

`readVar` reads a number below 2^15 in one byte or two.
-/

namespace CMemory

/-- The next byte and what remains. -/
def next : Bytes → Checked (UInt8 × Bytes)
  | [] => .error .load
  | b :: rest => .ok (b, rest)

/-- The next `n` bytes and what remains. -/
def nextN (n : Nat) (input : Bytes) : Checked (Bytes × Bytes) :=
  if n ≤ input.length then .ok (input.take n, input.drop n) else .error .load

@[simp] theorem next_cons {b : UInt8} {rest : Bytes} : next (b :: rest) = .ok (b, rest) := rfl

theorem next_eq_ok {input rest : Bytes} {b : UInt8} :
    next input = .ok (b, rest) ↔ input = b :: rest := by
  cases input with
  | nil => exact ⟨nofun, nofun⟩
  | cons c input =>
      constructor
      · intro h
        cases h
        rfl
      · intro h
        cases h
        rfl

@[simp] theorem nextN_append {bs rest : Bytes} : nextN bs.length (bs ++ rest) = .ok (bs, rest) := by
  rw [nextN, List.length_append, if_pos (Nat.le_add_right _ _), List.take_left, List.drop_left]

theorem nextN_eq_ok {n : Nat} {input bs rest : Bytes} :
    nextN n input = .ok (bs, rest) ↔ bs.length = n ∧ input = bs ++ rest := by
  constructor
  · intro h
    rw [nextN] at h
    split at h
    next hle =>
      cases h
      exact ⟨List.length_take_of_le hle, (List.take_append_drop n input).symm⟩
    next => cases h
  · rintro ⟨rfl, rfl⟩
    exact nextN_append

/-! ## Numbers in one byte or two -/

/-- The bytes denote the number: one byte, or two of which the first has its highest
bit set. -/
inductive Var : Bytes → Nat → Prop where
  | short {b : UInt8} : b.toNat < 0x80 → Var [b] b.toNat
  | long {b c : UInt8} : 0x80 ≤ b.toNat → Var [b, c] (256 * (b.toNat % 0x80) + c.toNat)

def readVar (input : Bytes) : Checked (Nat × Bytes) := do
  let (b, input) ← next input
  if b.toNat < 0x80 then .ok (b.toNat, input)
  else do
    let (c, input) ← next input
    .ok (256 * (b.toNat % 0x80) + c.toNat, input)

theorem readVar_append {bs rest : Bytes} {n : Nat} (h : Var bs n) :
    readVar (bs ++ rest) = .ok (n, rest) := by
  cases h with
  | short h => exact if_pos h
  | long h => exact if_neg (Nat.not_lt.mpr h)

theorem readVar_eq_ok {input rest : Bytes} {n : Nat} :
    readVar input = .ok (n, rest) ↔ ∃ bs, Var bs n ∧ input = bs ++ rest := by
  constructor
  · intro h
    obtain ⟨⟨b, input'⟩, hnext, h⟩ := bind_eq_ok.mp h
    rw [next_eq_ok.mp hnext]
    dsimp only at h
    split at h
    next hb =>
      cases h
      exact ⟨[b], .short hb, rfl⟩
    next hb =>
      obtain ⟨⟨c, input''⟩, hnext', h⟩ := bind_eq_ok.mp h
      cases h
      rw [next_eq_ok.mp hnext']
      exact ⟨[b, c], .long (Nat.not_lt.mp hb), rfl⟩
  · rintro ⟨bs, hvar, rfl⟩
    exact readVar_append hvar

/-- Two bytes do for every number. -/
theorem Var.ofNat_long {n : Nat} (h : n < 0x8000) :
    Var [UInt8.ofNat (0x80 + n / 256 % 128), UInt8.ofNat n] n := by
  have hb : (UInt8.ofNat (0x80 + n / 256 % 128)).toNat = 0x80 + n / 256 := by
    rw [UInt8.toNat_ofNat']
    omega
  have hc : (UInt8.ofNat n).toNat = n % 256 := UInt8.toNat_ofNat'
  have hvar : Var [UInt8.ofNat (0x80 + n / 256 % 128), UInt8.ofNat n]
      (256 * ((UInt8.ofNat (0x80 + n / 256 % 128)).toNat % 0x80) + (UInt8.ofNat n).toNat) :=
    .long (by omega)
  rwa [hb, hc, show 256 * ((0x80 + n / 256) % 0x80) + n % 256 = n by omega] at hvar

theorem Var.lt {bs : Bytes} {n : Nat} (h : Var bs n) : n < 0x8000 := by
  cases h with
  | short h => omega
  | @long b c h =>
      have := c.toNat_lt
      omega

end CMemory
