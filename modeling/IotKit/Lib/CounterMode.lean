import IotKit.Lib.Memory

/-!
# Counter mode

A block function and a sequence of counter blocks give a keystream: byte `i` of
the stream is byte `i % w` of the block number `i / w` (`streamByte`).  Counter
mode XORs the text with the stream (`xorStream`), so applying it twice gives the
text back (`xorStream_xorStream`).  Nothing is assumed of the block function.
-/

namespace CounterMode

open CMemory

/-- Byte `i` of the stream of blocks of `w` bytes. -/
def streamByte {w : Nat} (hw : 0 < w) (block : Nat → Vector UInt8 w) (i : Nat) : UInt8 :=
  (block (i / w)).get ⟨i % w, Nat.mod_lt i hw⟩

/-- The bytes of the stream that lie in block `j`. -/
theorem streamByte_block {w : Nat} (hw : 0 < w) (block : Nat → Vector UInt8 w) (j : Nat)
    {r : Nat} (hr : r < w) :
    (block j).toList[r]? = some (streamByte hw block (w * j + r)) := by
  have hdiv : (w * j + r) / w = j := by
    rw [Nat.mul_add_div hw, Nat.div_eq_of_lt hr, Nat.add_zero]
  have hmod : (w * j + r) % w = r := by rw [Nat.mul_add_mod, Nat.mod_eq_of_lt hr]
  simp only [streamByte, hdiv, hmod]
  rw [List.getElem?_eq_getElem (by simpa using hr)]
  simp [Vector.get]

/-- The text XORed with the stream `ks`. -/
def xorStream (ks : Nat → UInt8) (text : Bytes) : Bytes := text.mapIdx fun i b => b ^^^ ks i

@[simp] theorem xorStream_length (ks : Nat → UInt8) (text : Bytes) :
    (xorStream ks text).length = text.length := List.length_mapIdx

theorem xorStream_getElem? (ks : Nat → UInt8) (text : Bytes) (i : Nat) :
    (xorStream ks text)[i]? = text[i]?.map (· ^^^ ks i) := List.getElem?_mapIdx

/-- Decryption is encryption. -/
theorem xorStream_xorStream (ks : Nat → UInt8) (text : Bytes) :
    xorStream ks (xorStream ks text) = text := by
  apply List.ext_getElem?
  intro i
  rw [xorStream_getElem?, xorStream_getElem?, Option.map_map]
  have hid : ((· ^^^ ks i) ∘ (· ^^^ ks i) : UInt8 → UInt8) = id := by
    funext b
    simp only [Function.comp_apply, UInt8.xor_assoc, UInt8.xor_self, UInt8.xor_zero, id]
  rw [hid, Option.map_id, id]

/-- The text, byte by byte, is what a buffer must hold to hold the ciphertext. -/
theorem xorStream_eq_map_range (ks : Nat → UInt8) (text : Bytes) :
    xorStream ks text = (List.range text.length).map fun i => text.getD i 0 ^^^ ks i := by
  apply List.ext_getElem?
  intro i
  rw [xorStream_getElem?, List.getElem?_map]
  by_cases hi : i < text.length
  · rw [List.getElem?_eq_getElem hi, List.getElem?_range hi, Option.map_some, Option.map_some,
      List.getD_eq_getElem?_getD, List.getElem?_eq_getElem hi, Option.getD_some]
  · have hi := Nat.le_of_not_lt hi
    rw [List.getElem?_eq_none hi, List.getElem?_eq_none (by rw [List.length_range]; exact hi)]
    rfl

end CounterMode
