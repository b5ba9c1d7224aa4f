import Mathlib.Logic.Function.Basic
import Mathlib.Tactic.Common

/-!
# A heap of objects

Objects of any type behind addresses.  An address is handed out once, so an object
that was freed stays freed, and reading, writing or freeing it again is a fault.

`Within P h h'` says that `h'` comes from `h` by operations that touch, of the
addresses that `h` has handed out, only those in `P`.
-/

namespace ObjectHeap

inductive Fault where
  | dangling (a : Nat)
deriving DecidableEq, Repr

/-- The addresses below `next` have been handed out. -/
structure Heap (α : Type) where
  next : Nat
  cells : Nat → Option α
  fresh : ∀ a, next ≤ a → cells a = none

variable {α : Type} {h h' h'' : Heap α} {a : Nat} {v : α}

namespace Heap

/-- The object was allocated and is gone. -/
def Freed (h : Heap α) (a : Nat) : Prop := a < h.next ∧ h.cells a = none

theorem lt_next (hcell : h.cells a = some v) : a < h.next := by
  rcases Nat.lt_or_ge a h.next with hlt | hge
  · exact hlt
  · rw [h.fresh a hge] at hcell
    cases hcell

def empty : Heap α := ⟨0, fun _ => none, fun _ _ => rfl⟩

/-- The heap with a new object at the address `h.next`. -/
def alloc (h : Heap α) (v : α) : Heap α where
  next := h.next + 1
  cells := Function.update h.cells h.next (some v)
  fresh := fun a ha => by
    rw [Function.update_of_ne (by omega)]
    exact h.fresh a (by omega)

/-- The heap with another content of one cell. -/
def set (h : Heap α) (a : Nat) (ha : a < h.next) (o : Option α) : Heap α where
  next := h.next
  cells := Function.update h.cells a o
  fresh := fun b hb => by
    rw [Function.update_of_ne (by omega)]
    exact h.fresh b hb

def read (h : Heap α) (a : Nat) : Except Fault α :=
  match h.cells a with
  | some v => .ok v
  | none => .error (.dangling a)

def write (h : Heap α) (a : Nat) (v : α) : Except Fault (Heap α) :=
  match hcell : h.cells a with
  | some _ => .ok (h.set a (lt_next hcell) (some v))
  | none => .error (.dangling a)

def free (h : Heap α) (a : Nat) : Except Fault (Heap α) :=
  match hcell : h.cells a with
  | some _ => .ok (h.set a (lt_next hcell) none)
  | none => .error (.dangling a)

@[simp] theorem alloc_self : (h.alloc v).cells h.next = some v := Function.update_self ..

theorem alloc_of_lt (hlt : a < h.next) : (h.alloc v).cells a = h.cells a :=
  Function.update_of_ne (Nat.ne_of_lt hlt) ..

theorem read_eq_ok : h.read a = .ok v ↔ h.cells a = some v := by
  rw [read]
  cases h.cells a with
  | some u => exact ⟨fun hr => by cases hr; rfl, fun hc => by cases hc; rfl⟩
  | none => exact ⟨nofun, nofun⟩

theorem write_eq_ok :
    h.write a v = .ok h' ↔ ∃ hlt : a < h.next, h.cells a ≠ none ∧ h' = h.set a hlt (some v) := by
  rw [write]
  split
  · next u hcell =>
      have hne : h.cells a ≠ none := by rw [hcell]; nofun
      exact ⟨fun hw => ⟨lt_next hcell, hne, by cases hw; rfl⟩, fun ⟨_, _, he⟩ => by rw [he]⟩
  · next hcell => exact ⟨nofun, fun ⟨_, hne, _⟩ => absurd hcell hne⟩

theorem free_eq_ok :
    h.free a = .ok h' ↔ ∃ hlt : a < h.next, h.cells a ≠ none ∧ h' = h.set a hlt none := by
  rw [free]
  split
  · next u hcell =>
      have hne : h.cells a ≠ none := by rw [hcell]; nofun
      exact ⟨fun hw => ⟨lt_next hcell, hne, by cases hw; rfl⟩, fun ⟨_, _, he⟩ => by rw [he]⟩
  · next hcell => exact ⟨nofun, fun ⟨_, hne, _⟩ => absurd hcell hne⟩

/-- What is there can be freed. -/
theorem free_ok (hcell : h.cells a ≠ none) : ∃ h', h.free a = .ok h' := by
  obtain ⟨v, hv⟩ := Option.ne_none_iff_exists'.mp hcell
  exact ⟨_, free_eq_ok.mpr ⟨lt_next hv, hcell, rfl⟩⟩

end Heap

/-! ## Footprints -/

structure Within (P : Nat → Prop) (h h' : Heap α) : Prop where
  next_le : h.next ≤ h'.next
  kept : ∀ a < h.next, ¬ P a → h'.cells a = h.cells a
  freed : ∀ a, h.Freed a → h'.Freed a

variable {P Q : Nat → Prop}

theorem Within.refl : Within P h h :=
  ⟨Nat.le_refl _, fun _ _ _ => rfl, fun _ hfreed => hfreed⟩

/-- The second footprint matters where the first heap had objects. -/
theorem Within.trans (h₁ : Within P h h') (h₂ : Within Q h' h'')
    (hsub : ∀ a < h.next, Q a → P a) : Within P h h'' where
  next_le := Nat.le_trans h₁.next_le h₂.next_le
  kept := fun a ha hP =>
    (h₂.kept a (Nat.lt_of_lt_of_le ha h₁.next_le) (fun hQ => hP (hsub a ha hQ))).trans
      (h₁.kept a ha hP)
  freed := fun a hfreed => h₂.freed a (h₁.freed a hfreed)

theorem Within.mono (h₁ : Within Q h h') (hsub : ∀ a < h.next, Q a → P a) : Within P h h' :=
  Within.refl.trans h₁ hsub

theorem within_alloc : Within P h (h.alloc v) where
  next_le := Nat.le_succ _
  kept := fun _ ha _ => Heap.alloc_of_lt ha
  freed := fun _ ⟨ha, hcell⟩ => ⟨Nat.lt_succ_of_lt ha, (Heap.alloc_of_lt ha).trans hcell⟩

/-- A cell that held an object gets another content. -/
theorem within_set {ha : a < h.next} {o : Option α} (hne : h.cells a ≠ none) :
    Within (fun b => b = a) h (h.set a ha o) where
  next_le := Nat.le_refl _
  kept := fun _ _ hb => Function.update_of_ne hb ..
  freed := fun b ⟨hb, hcell⟩ =>
    ⟨hb, (Function.update_of_ne (fun heq : b = a => hne (heq ▸ hcell)) ..).trans hcell⟩

end ObjectHeap
