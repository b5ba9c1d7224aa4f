import IotKit.Lib.Heap

/-!
# Doubly linked lists

Nodes with two links on a heap of objects.  `Chain h p ns q` says that the nodes `ns`, each
an address with a value, follow each other on the heap `h`, that the first of them links back
to `p` and the last on to `q`.  A chain splits and joins where a list does (`chain_append`),
so every operation on the links is one on the last node of a chain (`Chain.setNext`) or on the
first (`Chain.setPrev`), and chains without the node that is written stay
(`Chain.congr`).
-/

namespace LinkedList

open ObjectHeap

structure Node (α : Type) where
  prev : Option Nat
  next : Option Nat
  val : α
deriving DecidableEq, Repr

variable {α : Type} {h h' : Heap (Node α)} {p q : Option Nat} {ns ms : List (Nat × α)}
  {a : Nat} {v : α}

def addrs (ns : List (Nat × α)) : List Nat := ns.map Prod.fst

/-- The address of the first node, `q` without one. -/
def front : List (Nat × α) → Option Nat → Option Nat
  | [], q => q
  | (a, _) :: _, _ => some a

/-- The address of the last node, `p` without one. -/
def back : Option Nat → List (Nat × α) → Option Nat
  | p, [] => p
  | _, (a, _) :: ns => back (some a) ns

def Chain (h : Heap (Node α)) : Option Nat → List (Nat × α) → Option Nat → Prop
  | _, [], _ => True
  | p, (a, v) :: ns, q => h.cells a = some ⟨p, front ns q, v⟩ ∧ Chain h (some a) ns q

/-! ## Splitting -/

@[simp] theorem addrs_append : addrs (ns ++ ms) = addrs ns ++ addrs ms := List.map_append

@[simp] theorem addrs_cons : addrs ((a, v) :: ns) = a :: addrs ns := rfl

@[simp] theorem addrs_nil : addrs ([] : List (Nat × α)) = [] := rfl

@[simp] theorem front_append : front (ns ++ ms) q = front ns (front ms q) := by
  cases ns with
  | nil => rfl
  | cons n ns => rfl

@[simp] theorem back_append : back p (ns ++ ms) = back (back p ns) ms := by
  induction ns generalizing p with
  | nil => rfl
  | cons n ns ih => exact ih

theorem chain_append :
    Chain h p (ns ++ ms) q ↔ Chain h p ns (front ms q) ∧ Chain h (back p ns) ms q := by
  induction ns generalizing p with
  | nil => exact ⟨fun hms => ⟨trivial, hms⟩, fun hms => hms.2⟩
  | cons n ns ih =>
      rw [List.cons_append, Chain, Chain, ih, front_append, and_assoc]
      rfl

/-- The chain around one of its nodes. -/
theorem chain_split : Chain h p (ns ++ (a, v) :: ms) q ↔
    Chain h p ns (some a) ∧ h.cells a = some ⟨back p ns, front ms q, v⟩ ∧
      Chain h (some a) ms q := chain_append

theorem Chain.congr (hsame : ∀ a ∈ addrs ns, h'.cells a = h.cells a) (hc : Chain h p ns q) :
    Chain h' p ns q := by
  induction ns generalizing p with
  | nil => trivial
  | cons n ns ih =>
      exact ⟨(hsame _ (List.mem_cons_self ..)).trans hc.1,
        ih (fun a ha => hsame a (List.mem_cons_of_mem _ ha)) hc.2⟩

/-- Every node of a chain has been allocated. -/
theorem Chain.lt_next (hc : Chain h p ns q) : ∀ a ∈ addrs ns, a < h.next := by
  induction ns generalizing p with
  | nil => nofun
  | cons n ns ih =>
      intro a ha
      rcases List.mem_cons.mp ha with rfl | ha
      · exact Heap.lt_next hc.1
      · exact ih hc.2 a ha

/-- The links determine the nodes. -/
theorem Chain.unique {ns' : List (Nat × α)} (hc : Chain h p ns none) (hc' : Chain h p ns' none)
    (hfront : front ns none = front ns' none) : ns = ns' := by
  induction ns generalizing p ns' with
  | nil =>
      cases ns' with
      | nil => rfl
      | cons n' ns' => cases hfront
  | cons n ns ih =>
      cases ns' with
      | nil => cases hfront
      | cons n' ns' =>
          obtain ⟨a, v⟩ := n
          obtain ⟨a', v'⟩ := n'
          cases hfront
          have hsame := hc.1.symm.trans hc'.1
          rw [Option.some.injEq, Node.mk.injEq] at hsame
          obtain ⟨-, hnext, rfl⟩ := hsame
          rw [ih hc.2 hc'.2 hnext]

/-! ## Writing -/

/-- One node of a heap gets another content. -/
structure Rewrites (h h' : Heap (Node α)) (a : Nat) (o : Option (Node α)) : Prop where
  next : h'.next = h.next
  self : h'.cells a = o
  other : ∀ b, b ≠ a → h'.cells b = h.cells b

theorem rewrites_set {ha : a < h.next} {o : Option (Node α)} : Rewrites h (h.set a ha o) a o where
  next := rfl
  self := Function.update_self ..
  other := fun _ hne => Function.update_of_ne hne ..

theorem Rewrites.chain {o : Option (Node α)} (hw : Rewrites h h' a o) (hnot : a ∉ addrs ns)
    (hc : Chain h p ns q) : Chain h' p ns q :=
  hc.congr fun _ hb => hw.other _ fun heq => hnot (heq ▸ hb)

def setNext (h : Heap (Node α)) (a : Nat) (next : Option Nat) : Except Fault (Heap (Node α)) := do
  let n ← h.read a
  h.write a { n with next }

def setPrev (h : Heap (Node α)) (a : Nat) (prev : Option Nat) : Except Fault (Heap (Node α)) := do
  let n ← h.read a
  h.write a { n with prev }

def setVal (h : Heap (Node α)) (a : Nat) (val : α) : Except Fault (Heap (Node α)) := do
  let n ← h.read a
  h.write a { n with val }

/-- A node that is read and written. -/
theorem update_node {n : Node α} (f : Node α → Node α) (hcell : h.cells a = some n) :
    ∃ h', (h.read a >>= fun n => h.write a (f n)) = .ok h' ∧ Rewrites h h' a (some (f n)) := by
  have hread : h.read a = .ok n := Heap.read_eq_ok.mpr hcell
  have hne : h.cells a ≠ none := by
    rw [hcell]
    nofun
  have hwrite : h.write a (f n) = .ok _ := Heap.write_eq_ok.mpr ⟨Heap.lt_next hcell, hne, rfl⟩
  rw [hread]
  exact ⟨_, hwrite, rewrites_set⟩

/-- The last node of a chain links on to another place. -/
theorem Chain.setNext (q' : Option Nat) (hc : Chain h p (ns ++ [(a, v)]) q)
    (hnot : a ∉ addrs ns) :
    ∃ h', setNext h a q' = .ok h' ∧ Chain h' p (ns ++ [(a, v)]) q' ∧
      Rewrites h h' a (some ⟨back p ns, q', v⟩) := by
  obtain ⟨hns, hcell, -⟩ := chain_split.mp hc
  obtain ⟨h', hset, hw⟩ := update_node (fun n => { n with next := q' }) hcell
  exact ⟨h', hset, chain_split.mpr ⟨hw.chain hnot hns, hw.self, trivial⟩, hw⟩

/-- The first node of a chain links back to another place. -/
theorem Chain.setPrev (p' : Option Nat) (hc : Chain h p ((a, v) :: ns) q)
    (hnot : a ∉ addrs ns) :
    ∃ h', setPrev h a p' = .ok h' ∧ Chain h' p' ((a, v) :: ns) q ∧
      Rewrites h h' a (some ⟨p', front ns q, v⟩) := by
  obtain ⟨h', hset, hw⟩ := update_node (fun n => { n with prev := p' }) hc.1
  exact ⟨h', hset, ⟨hw.self, hw.chain hnot hc.2⟩, hw⟩

/-- A node of a chain gets another value. -/
theorem Chain.setVal (w : α) (hc : Chain h p (ns ++ (a, v) :: ms) q)
    (hns : a ∉ addrs ns) (hms : a ∉ addrs ms) :
    ∃ h', setVal h a w = .ok h' ∧ Chain h' p (ns ++ (a, w) :: ms) q ∧
      Rewrites h h' a (some ⟨back p ns, front ms q, w⟩) := by
  obtain ⟨hfirst, hcell, hlast⟩ := chain_split.mp hc
  obtain ⟨h', hset, hw⟩ := update_node (fun n => { n with val := w }) hcell
  exact ⟨h', hset, chain_split.mpr ⟨hw.chain hns hfirst, hw.self, hw.chain hms hlast⟩, hw⟩

end LinkedList
