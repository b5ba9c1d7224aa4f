import IotKit.Lib.Memory

/-!
# Writing an object from front to back

A cursor is an object and the index of the next byte.  `put` writes bytes at the
cursor and moves it behind them, and fails where they do not fit.  Writes at a
cursor compose (`put_append`), so a writer with many write sites is one write of
all its bytes.
-/

namespace CMemory

/-- `object[index]`, where the next byte goes. -/
structure Cursor where
  object : Bytes
  index : Nat

namespace Cursor

variable {c c' : Cursor} {as bs : Bytes}

/-- The bytes, written at the cursor. -/
def put (c : Cursor) (bs : Bytes) : Checked Cursor := do
  let object ← storeN c.object c.index bs
  .ok ⟨object, c.index + bs.length⟩

theorem put_eq_ok : c.put bs = .ok c' ↔ c.index + bs.length ≤ c.object.length ∧
    c' = ⟨c.object.take c.index ++ (bs ++ c.object.drop (c.index + bs.length)),
      c.index + bs.length⟩ := by
  constructor
  · intro h
    obtain ⟨object, hstore, h⟩ := bind_eq_ok.mp h
    obtain ⟨_, hle, rfl⟩ := storeN_eq_ok.mp hstore
    cases h
    rw [Int.toNat_natCast] at hle
    exact ⟨hle, rfl⟩
  · intro ⟨hle, hc'⟩
    rw [put, storeN_of_le hle, ok_bind, hc']

theorem put_of_le (h : c.index + bs.length ≤ c.object.length) :
    c.put bs = .ok ⟨c.object.take c.index ++ (bs ++ c.object.drop (c.index + bs.length)),
      c.index + bs.length⟩ := put_eq_ok.mpr ⟨h, rfl⟩

theorem put_of_lt (h : c.object.length < c.index + bs.length) : c.put bs = .error .store := by
  rw [put, storeN, if_neg]
  · rfl
  · simp only [Int.toNat_natCast]
    omega

theorem put_nil (h : c.index ≤ c.object.length) : c.put [] = .ok c := by
  rw [put_of_le (by simpa using h)]
  simp

/-- A write keeps the size of the object and moves the cursor. -/
theorem put_size (h : c.put bs = .ok c') :
    c'.object.length = c.object.length ∧ c'.index = c.index + bs.length := by
  obtain ⟨hle, rfl⟩ := put_eq_ok.mp h
  refine ⟨?_, rfl⟩
  simp only [List.length_append, List.length_take, List.length_drop]
  omega

/-- A write replaces the bytes at the cursor. -/
theorem put_replace (done rest : Bytes) {old : Bytes} (h : old.length = bs.length) :
    (⟨done ++ (old ++ rest), done.length⟩ : Cursor).put bs =
      .ok ⟨done ++ (bs ++ rest), done.length + bs.length⟩ := by
  rw [put_of_le (by simp only [List.length_append]; omega)]
  congr 3
  · exact List.take_left
  · rw [← h, ← List.length_append, ← List.append_assoc, List.drop_left]

/-- Two writes, one behind the other, are the write of both. -/
theorem put_append (c : Cursor) (as bs : Bytes) :
    c.put (as ++ bs) = c.put as >>= fun c => c.put bs := by
  obtain ⟨object, index⟩ := c
  by_cases hall : index + (as ++ bs).length ≤ object.length
  · simp only [List.length_append] at hall
    -- what is replaced: as many bytes as `as` has, and then as many as `bs` has
    obtain ⟨done, object, rfl, rfl⟩ : ∃ done rest, object = done ++ rest ∧ index = done.length :=
      ⟨object.take index, object.drop index, (List.take_append_drop ..).symm,
        (List.length_take_of_le (by omega)).symm⟩
    obtain ⟨old, object, rfl, hold⟩ : ∃ old rest, object = old ++ rest ∧ old.length = as.length :=
      ⟨object.take as.length, object.drop as.length, (List.take_append_drop ..).symm,
        List.length_take_of_le (by simp only [List.length_append] at hall; omega)⟩
    obtain ⟨old', rest, rfl, hold'⟩ :
        ∃ old rest, object = old ++ rest ∧ old.length = bs.length :=
      ⟨object.take bs.length, object.drop bs.length, (List.take_append_drop ..).symm,
        List.length_take_of_le (by simp only [List.length_append] at hall; omega)⟩
    have hlength : (old ++ old').length = (as ++ bs).length := by
      rw [List.length_append, List.length_append, hold, hold']
    have hboth := put_replace done rest hlength
    have hthen := put_replace (done ++ as) rest hold'
    rw [List.append_assoc] at hboth
    rw [List.append_assoc, List.length_append] at hthen
    rw [hboth, put_replace done _ hold, ok_bind, hthen]
    simp [Nat.add_assoc]
  · rw [put_of_lt (Nat.lt_of_not_le hall)]
    simp only [List.length_append] at hall
    by_cases has : index + as.length ≤ object.length
    · obtain ⟨c', hc'⟩ : ∃ c', put ⟨object, index⟩ as = .ok c' := ⟨_, put_of_le has⟩
      obtain ⟨hlen, hindex⟩ := put_size hc'
      rw [hc', ok_bind, put_of_lt (by simp only at hlen hindex; omega)]
    · rw [put_of_lt (Nat.lt_of_not_le has)]
      rfl

end Cursor

end CMemory
