import Mathlib.Data.List.Nodup
import Mathlib.Data.List.Perm.Basic
import Mathlib.Tactic.Common

/-!
# Tables with free slots

A table is a list of slots of which some are in use.  `entries` are the slots in use,
in table order.  An entry goes into a free slot (`entries_set`), and entries are
removed by clearing their slots (`entries_clear`), which leaves holes.  Entries that
are distinct stay so.
-/

namespace SlotTable

variable {α : Type} (used : α → Bool)

/-- The slots in use, in table order. -/
def entries (table : List α) : List α := table.filter used

variable {used} {table : List α} {new zero : α}

theorem entries_cons {a : α} :
    entries used (a :: table) = if used a then a :: entries used table else entries used table :=
  List.filter_cons

theorem mem_entries {a : α} : a ∈ entries used table ↔ a ∈ table ∧ used a = true :=
  List.mem_filter

/-- A free slot takes a new entry beside the old ones. -/
theorem entries_set {i : Nat} (hi : i < table.length) (hfree : used table[i] = false)
    (hnew : used new = true) :
    (entries used (table.set i new)).Perm (new :: entries used table) := by
  induction table generalizing i with
  | nil => cases hi
  | cons a table ih =>
      cases i with
      | zero =>
          simp only [List.getElem_cons_zero] at hfree
          simp [entries_cons, hfree, hnew]
      | succ i =>
          simp only [List.getElem_cons_succ] at hfree
          have hrest := ih (Nat.lt_of_succ_lt_succ hi) hfree
          rw [List.set_cons_succ, entries_cons, entries_cons]
          split
          · exact (hrest.cons a).trans (List.Perm.swap new a _)
          · exact hrest

theorem nodup_set {i : Nat} (hi : i < table.length) (hfree : used table[i] = false)
    (hnew : used new = true) (hfresh : new ∉ entries used table)
    (hnodup : (entries used table).Nodup) : (entries used (table.set i new)).Nodup :=
  (entries_set hi hfree hnew).nodup_iff.mpr (List.nodup_cons.mpr ⟨hfresh, hnodup⟩)

theorem mem_set {i : Nat} (hi : i < table.length) (hfree : used table[i] = false)
    (hnew : used new = true) {a : α} :
    a ∈ entries used (table.set i new) ↔ a = new ∨ a ∈ entries used table := by
  rw [(entries_set hi hfree hnew).mem_iff, List.mem_cons]

/-- Clearing the entries that meet `p` keeps the others in their order. -/
theorem entries_clear (table : List α) (p : α → Bool) (hzero : used zero = false) :
    entries used (table.map fun a => if used a && p a then zero else a) =
      (entries used table).filter fun a => !p a := by
  induction table with
  | nil => rfl
  | cons a table ih =>
      rw [List.map_cons, entries_cons, entries_cons, ih]
      cases hused : used a with
      | false => simp [hused]
      | true =>
          cases hp : p a with
          | false => simp [hused, hp]
          | true => simp [hzero, hp]

end SlotTable
