import Mathlib.Algebra.Order.Ring.Int
import Mathlib.Data.List.Basic
import Mathlib.Data.List.Nodup
import Mathlib.Tactic.Common

/-!
# Tables with distinct keys

A table is a list whose entries have distinct keys.  A program finds an entry by
a scan that returns its index and then reads or changes the entry at that index.
`getElem?_indexOf` and `modify_indexOf` say the same without the index, of the one
entry with the key.
-/

namespace KeyTable

variable {α κ : Type} {key : α → κ} {k : κ} {table : List α}

/-- A change that keeps the keys keeps the list of keys. -/
theorem map_key_modify {i : Nat} {f : α → α} (hf : ∀ a, key (f a) = key a) :
    (table.modify i f).map key = table.map key := by
  induction table generalizing i with
  | nil => rw [List.modify_nil]
  | cons a table ih =>
      cases i with
      | zero => exact congrArg (· :: table.map key) (hf a)
      | succ i => exact congrArg (key a :: ·) ih

variable [DecidableEq κ]

/-- The index of the first entry with the key. -/
def indexOf (key : α → κ) (k : κ) (table : List α) : Option Nat :=
  table.findIdx? (fun a => key a = k)

/-- The entry with the key. -/
def entry (key : α → κ) (k : κ) (table : List α) : Option α :=
  table.find? (fun a => key a = k)

theorem mem_of_entry {a : α} (h : entry key k table = some a) : a ∈ table ∧ key a = k := by
  have hkey : decide (key a = k) := List.find?_some (p := fun a => decide (key a = k)) h
  exact ⟨List.mem_of_find?_eq_some h, of_decide_eq_true hkey⟩

theorem entry_eq_some (hdistinct : (table.map key).Nodup) {a : α} :
    entry key k table = some a ↔ a ∈ table ∧ key a = k := by
  induction table with
  | nil => simp [entry]
  | cons b table ih =>
      obtain ⟨hfresh, hdistinct⟩ := List.nodup_cons.mp hdistinct
      rw [entry, List.find?_cons]
      cases hb : decide (key b = k) with
      | true =>
          have hkey := of_decide_eq_true hb
          constructor
          · intro h
            obtain rfl := Option.some.inj h
            exact ⟨List.mem_cons_self, hkey⟩
          · rintro ⟨hmem, ha⟩
            rcases List.mem_cons.mp hmem with rfl | hmem
            · rfl
            · exact absurd (List.mem_map.mpr ⟨a, hmem, ha.trans hkey.symm⟩) hfresh
      | false =>
          refine (ih hdistinct).trans ⟨fun h => ⟨List.mem_cons_of_mem b h.1, h.2⟩, ?_⟩
          rintro ⟨hmem, ha⟩
          rcases List.mem_cons.mp hmem with rfl | hmem
          · exact absurd ha (of_decide_eq_false hb)
          · exact ⟨hmem, ha⟩

/-- A map that keeps the keys commutes with the look-up. -/
theorem entry_map {f : α → α} (hf : ∀ a, key (f a) = key a) :
    entry key k (table.map f) = (entry key k table).map f := by
  rw [entry, List.find?_map, entry]
  congr 2
  funext a
  rw [Function.comp_apply, hf]

theorem entry_eq_none : entry key k table = none ↔ ∀ a ∈ table, key a ≠ k := by
  simp [entry, List.find?_eq_none]

theorem indexOf_eq_none : indexOf key k table = none ↔ ∀ a ∈ table, key a ≠ k := by
  simp [indexOf, List.findIdx?_eq_none_iff]

/-- The entry at the index is the entry with the key. -/
theorem getElem?_indexOf {i : Nat} (h : indexOf key k table = some i) :
    table[i]? = entry key k table := by
  induction table generalizing i with
  | nil => cases h
  | cons a table ih =>
      rw [indexOf, List.findIdx?_cons] at h
      rw [entry, List.find?_cons]
      cases ha : decide (key a = k) with
      | true =>
          rw [ha, if_pos rfl] at h
          obtain rfl := Option.some.inj h
          rfl
      | false =>
          rw [ha, if_neg Bool.false_ne_true] at h
          obtain ⟨j, hj, rfl⟩ := Option.map_eq_some_iff.mp h
          exact ih hj

theorem indexOf_lt {i : Nat} (h : indexOf key k table = some i) : i < table.length := by
  obtain ⟨hlt, _⟩ := List.findIdx?_eq_some_iff_getElem.mp h
  exact hlt

theorem map_eq_self {f : α → α} (habsent : ∀ a ∈ table, key a ≠ k) :
    table.map (fun a => if key a = k then f a else a) = table := by
  induction table with
  | nil => rfl
  | cons a table ih =>
      rw [List.map_cons, if_neg (habsent a List.mem_cons_self),
        ih fun b hb => habsent b (List.mem_cons_of_mem a hb)]

/-- A change at the index is a change of the entry with the key. -/
theorem modify_indexOf (hdistinct : (table.map key).Nodup) {i : Nat} {f : α → α}
    (h : indexOf key k table = some i) :
    table.modify i f = table.map (fun a => if key a = k then f a else a) := by
  induction table generalizing i with
  | nil => cases h
  | cons a table ih =>
      obtain ⟨hfresh, hdistinct⟩ := List.nodup_cons.mp hdistinct
      rw [indexOf, List.findIdx?_cons] at h
      rw [List.map_cons]
      cases ha : decide (key a = k) with
      | true =>
          have hkey := of_decide_eq_true ha
          rw [ha, if_pos rfl] at h
          obtain rfl := Option.some.inj h
          rw [if_pos hkey, map_eq_self]
          · rfl
          · intro b hb hbk
            exact hfresh (List.mem_map.mpr ⟨b, hb, hbk.trans hkey.symm⟩)
      | false =>
          rw [ha, if_neg Bool.false_ne_true] at h
          obtain ⟨j, hj, rfl⟩ := Option.map_eq_some_iff.mp h
          rw [if_neg (of_decide_eq_false ha), ← ih hdistinct hj]
          rfl

/-- A sum over the entries, after a change of the entry with the key. -/
theorem sum_update (hdistinct : (table.map key).Nodup) {f : α → α} {g : α → Nat} {a : α}
    (h : entry key k table = some a) :
    ((table.map fun b => if key b = k then f b else b).map g).sum + g a =
      (table.map g).sum + g (f a) := by
  induction table with
  | nil => cases h
  | cons b table ih =>
      obtain ⟨hfresh, htail⟩ := List.nodup_cons.mp hdistinct
      obtain ⟨hmem, hkey⟩ := (entry_eq_some hdistinct).mp h
      by_cases hb : key b = k
      · have habsent : ∀ c ∈ table, key c ≠ k := fun c hc hck =>
          hfresh (List.mem_map.mpr ⟨c, hc, hck.trans hb.symm⟩)
        have hab : a = b := by
          rcases List.mem_cons.mp hmem with hab | hmem
          · exact hab
          · exact absurd hkey (habsent a hmem)
        subst hab
        rw [List.map_cons, if_pos hb, map_eq_self habsent]
        simp only [List.map_cons, List.sum_cons]
        omega
      · have hmem : a ∈ table := (List.mem_cons.mp hmem).resolve_left fun hab => hb (hab ▸ hkey)
        have hrest := ih htail ((entry_eq_some htail).mpr ⟨hmem, hkey⟩)
        rw [List.map_cons, if_neg hb]
        simp only [List.map_cons, List.sum_cons] at hrest ⊢
        omega

end KeyTable
