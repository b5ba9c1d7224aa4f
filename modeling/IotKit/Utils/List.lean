import IotKit.Lib.LinkedList
import IotKit.Lib.Memory
import Mathlib.Data.List.Nodup
import Mathlib.Data.List.Perm.Subperm

/-!
# Lists

`utils_list.c`: a list with pointers to its first and its last node and the number of its
nodes, and the iterator that is one node ahead of its caller.  `ListT` carries the memory that
the nodes lie in.  A value and its node are freed together, so they are one cell.

`Linked l ns` is what every function relies on and keeps: the nodes `ns` are one chain between
`head` and `tail`, no node occurs twice, and `len` counts them.
-/

namespace IotKit.Utils

open ObjectHeap LinkedList
open CMemory (bind_eq_ok)

/-- `list_t`. -/
structure ListT (α : Type) where
  head : Option Nat
  tail : Option Nat
  len : UInt32
  heap : Heap (Node α)

/-- `list_direction_t`. -/
inductive ListDirection where
  | head
  | tail
deriving DecidableEq, Repr

/-- `list_iterator_t`. -/
structure ListIterator where
  next : Option Nat
  direction : ListDirection
deriving DecidableEq, Repr

variable {α : Type}

/-! ## The source -/

/-- `list_new`. -/
def listNew : ListT α := ⟨none, none, 0, .empty⟩

/-- `list_node_new`.  `malloc` says whether there is memory for the node. -/
def listNodeNew (l : ListT α) (val : α) (malloc : Bool) : Option Nat × ListT α :=
  if malloc = false then (none, l)
  else (some l.heap.next, { l with heap := l.heap.alloc ⟨none, none, val⟩ })

/-- `list_rpush`.  A list that is not empty has a last node. -/
def listRpush (l : ListT α) (node : Option Nat) : Except Fault (ListT α) :=
  match node with
  | none => .ok l
  | some node =>
      if l.len ≠ 0 then do
        let heap ← setPrev l.heap node l.tail
        let heap ← setNext heap node none
        let heap ← match l.tail with
          | some tail => setNext heap tail (some node)
          | none => .error (.dangling 0)
        .ok ⟨l.head, some node, l.len + 1, heap⟩
      else do
        let heap ← setNext l.heap node none
        let heap ← setPrev heap node none
        .ok ⟨some node, some node, l.len + 1, heap⟩

/-- The first statement of `list_remove`. -/
def unlinkPrev (l : ListT α) (n : Node α) : Except Fault (ListT α) :=
  match n.prev with
  | some prev => do
      let heap ← setNext l.heap prev n.next
      .ok { l with heap }
  | none => .ok { l with head := n.next }

/-- The second statement of `list_remove`. -/
def unlinkNext (l : ListT α) (n : Node α) : Except Fault (ListT α) :=
  match n.next with
  | some next => do
      let heap ← setPrev l.heap next n.prev
      .ok { l with heap }
  | none => .ok { l with tail := n.prev }

/-- `list_remove`. -/
def listRemove (l : ListT α) (node : Nat) : Except Fault (ListT α) := do
  let n ← l.heap.read node
  let l ← unlinkPrev l n
  let n ← l.heap.read node
  let l ← unlinkNext l n
  let heap ← l.heap.free node
  .ok { l with heap, len := l.len - 1 }

/-- `list_iterator_new`. -/
def listIteratorNew (l : ListT α) (direction : ListDirection) (malloc : Bool) :
    Option ListIterator :=
  if malloc = false then none
  else
    match direction with
    | .head => some ⟨l.head, direction⟩
    | .tail => some ⟨l.tail, direction⟩

/-- `list_iterator_next`. -/
def listIteratorNext (l : ListT α) (it : ListIterator) :
    Except Fault (Option Nat × ListIterator) :=
  match it.next with
  | none => .ok (none, it)
  | some curr => do
      let n ← l.heap.read curr
      match it.direction with
      | .head => .ok (some curr, { it with next := n.next })
      | .tail => .ok (some curr, { it with next := n.prev })

/-! ## Well-formed lists -/

structure Linked (l : ListT α) (ns : List (Nat × α)) : Prop where
  chain : Chain l.heap none ns none
  head : l.head = front ns none
  tail : l.tail = back none ns
  len : l.len.toNat = ns.length
  nodup : (addrs ns).Nodup

/-- The list holds these values, the oldest first. -/
def ListT.Holds (l : ListT α) (vs : List α) : Prop := ∃ ns, Linked l ns ∧ ns.map Prod.snd = vs

variable {l l' : ListT α} {ns ms : List (Nat × α)} {a : Nat} {v : α} {vs ws : List α}

theorem linked_listNew : Linked (listNew : ListT α) [] :=
  ⟨trivial, rfl, rfl, rfl, List.nodup_nil⟩

theorem Linked.unique {ns' : List (Nat × α)} (h : Linked l ns) (h' : Linked l ns') : ns = ns' :=
  h.chain.unique h'.chain (h.head.symm.trans h'.head)

/-- A list holds one sequence of values. -/
theorem ListT.Holds.unique (h : l.Holds vs) (h' : l.Holds ws) : vs = ws := by
  obtain ⟨ns, hns, rfl⟩ := h
  obtain ⟨ns', hns', rfl⟩ := h'
  rw [hns.unique hns']

theorem ListT.Holds.len (h : l.Holds vs) : l.len.toNat = vs.length := by
  obtain ⟨ns, hns, rfl⟩ := h
  rw [hns.len, List.length_map]

theorem holds_listNew : (listNew : ListT α).Holds [] := ⟨[], linked_listNew, rfl⟩

/-- There are no more nodes than addresses. -/
theorem Linked.length_le (h : Linked l ns) : ns.length ≤ l.heap.next := by
  have hsub : addrs ns ⊆ List.range l.heap.next := fun a ha =>
    List.mem_range.mpr (h.chain.lt_next a ha)
  have hle := (List.Nodup.subperm h.nodup hsub).length_le
  rwa [List.length_range, addrs, List.length_map] at hle

theorem Linked.len_eq_zero (h : Linked l ns) : l.len = 0 ↔ ns = [] := by
  rw [← UInt32.toNat_inj, h.len]
  exact List.length_eq_zero_iff

/-! ## Pushing -/

/-- A node that was allocated and is in no list yet. -/
theorem listNodeNew_linked (h : Linked l ns) (val : α) :
    Linked (listNodeNew l val true).2 ns := by
  refine ⟨h.chain.congr fun a ha => ?_, h.head, h.tail, h.len, h.nodup⟩
  exact Heap.alloc_of_lt (h.chain.lt_next a ha)

theorem not_mem_addrs_split (hnodup : (addrs (ns ++ (a, v) :: ms)).Nodup) :
    a ∉ addrs ns ∧ a ∉ addrs ms ∧ (∀ b ∈ addrs ns, b ∉ addrs ms) ∧
      (addrs (ns ++ ms)).Nodup := by
  rw [addrs_append, addrs_cons] at hnodup
  obtain ⟨hns, hcons, hdisj⟩ := List.nodup_append.mp hnodup
  obtain ⟨ha, hms⟩ := List.nodup_cons.mp hcons
  refine ⟨fun hmem => hdisj a hmem a (List.mem_cons_self ..) rfl, ha,
    fun b hb hb' => hdisj b hb b (List.mem_cons_of_mem _ hb') rfl, ?_⟩
  rw [addrs_append]
  exact List.nodup_append.mpr ⟨hns, hms, fun b hb c hc =>
    hdisj b hb c (List.mem_cons_of_mem _ hc)⟩

/-- `list_rpush` puts a node that is not in the list behind its last. -/
theorem listRpush_linked {n : Node α} (h : Linked l ns) (hcell : l.heap.cells a = some n)
    (hnot : a ∉ addrs ns) (hroom : ns.length + 1 < 2 ^ 32) :
    ∃ l', listRpush l (some a) = .ok l' ∧ Linked l' (ns ++ [(a, n.val)]) := by
  have hlen : (l.len + 1).toNat = (ns ++ [(a, n.val)]).length := by
    rw [UInt32.toNat_add, h.len, List.length_append]
    exact Nat.mod_eq_of_lt hroom
  have hnodup : (addrs (ns ++ [(a, n.val)])).Nodup := by
    rw [addrs_append]
    refine List.nodup_append.mpr ⟨h.nodup, List.nodup_singleton _, fun b hb c hc heq => ?_⟩
    obtain rfl := List.mem_singleton.mp hc
    exact hnot (heq ▸ hb)
  rw [listRpush]
  rcases List.eq_nil_or_concat ns with rfl | ⟨ns, ⟨b, w⟩, rfl⟩
  · rw [if_neg (not_not.mpr (h.len_eq_zero.mpr rfl))]
    obtain ⟨h₁, hset₁, hw₁⟩ := update_node (fun n => { n with next := none }) hcell
    obtain ⟨h₂, hset₂, hw₂⟩ := update_node (fun n => { n with prev := none }) hw₁.self
    refine ⟨_, bind_eq_ok.mpr ⟨h₁, hset₁, bind_eq_ok.mpr ⟨h₂, hset₂, rfl⟩⟩, ?_⟩
    exact ⟨⟨hw₂.self, trivial⟩, rfl, rfl, hlen, hnodup⟩
  · rw [List.concat_eq_append] at *
    have hne : l.len ≠ 0 := fun hzero => by
      have hnil := h.len_eq_zero.mp hzero
      simp at hnil
    have htail : l.tail = some b := by
      rw [h.tail, back_append]
      rfl
    obtain ⟨h₁, hset₁, hw₁⟩ := update_node (fun n => { n with prev := l.tail }) hcell
    obtain ⟨h₂, hset₂, hw₂⟩ := update_node (fun n => { n with next := none }) hw₁.self
    have hb : b ∉ addrs ns := by
      have hsplit := h.nodup
      exact (not_mem_addrs_split hsplit).1
    obtain ⟨h₃, hset₃, hchain, hw₃⟩ :=
      (hw₂.chain hnot (hw₁.chain hnot h.chain)).setNext (some a) hb
    have hab : a ≠ b := fun heq => hnot (by simp [heq])
    rw [if_pos hne]
    refine ⟨⟨l.head, some a, l.len + 1, h₃⟩, bind_eq_ok.mpr ⟨h₁, hset₁, bind_eq_ok.mpr
      ⟨h₂, hset₂, ?_⟩⟩, ?_⟩
    · rw [htail]
      exact bind_eq_ok.mpr ⟨h₃, hset₃, rfl⟩
    · refine ⟨chain_append.mpr ⟨hchain, ?_, trivial⟩, ?_, ?_, hlen, hnodup⟩
      · rw [hw₃.other a hab, hw₂.self, h.tail]
        rfl
      · rw [h.head, front_append, front_append, front_append]
        rfl
      · rw [back_append]
        rfl

/-! ## Removing -/

/-- What lies before the node links on past it. -/
theorem unlinkPrev_chain (h : Linked l (ns ++ (a, v) :: ms)) :
    ∃ l₁, unlinkPrev l ⟨back none ns, front ms none, v⟩ = .ok l₁ ∧
      Chain l₁.heap none ns (front ms none) ∧
      (∀ b, b ∉ addrs ns → l₁.heap.cells b = l.heap.cells b) ∧
      l₁.heap.next = l.heap.next ∧ l₁.head = front (ns ++ ms) none ∧ l₁.tail = l.tail ∧
      l₁.len = l.len := by
  obtain ⟨hfirst, -, -⟩ := chain_split.mp h.chain
  rcases List.eq_nil_or_concat ns with rfl | ⟨ns, ⟨b, w⟩, rfl⟩
  · exact ⟨_, rfl, trivial, fun _ _ => rfl, rfl, rfl, rfl, rfl⟩
  · rw [List.concat_eq_append] at *
    have hnodup := h.nodup
    rw [List.append_assoc] at hnodup
    obtain ⟨heap, hset, hchain, hw⟩ :=
      hfirst.setNext (front ms none) (not_mem_addrs_split hnodup).1
    refine ⟨{ l with heap }, ?_, hchain, fun c hc => hw.other c ?_, hw.next, ?_, rfl, rfl⟩
    · rw [unlinkPrev, back_append]
      exact bind_eq_ok.mpr ⟨heap, hset, rfl⟩
    · rintro rfl
      exact hc (by simp)
    · show l.head = _
      rw [h.head, front_append, front_append, front_append, front_append]
      rfl

/-- What lies behind the node links back past it. -/
theorem unlinkNext_chain {l₁ : ListT α} {p : Option Nat} (hlast : Chain l₁.heap (some a) ms none)
    (hnodup : (addrs ms).Nodup) (htail : l₁.tail = back (some a) ms) :
    ∃ l₂, unlinkNext l₁ ⟨p, front ms none, v⟩ = .ok l₂ ∧
      Chain l₂.heap p ms none ∧
      (∀ b, b ∉ addrs ms → l₂.heap.cells b = l₁.heap.cells b) ∧
      l₂.heap.next = l₁.heap.next ∧ l₂.tail = back p ms ∧ l₂.head = l₁.head ∧
      l₂.len = l₁.len := by
  cases ms with
  | nil => exact ⟨_, rfl, trivial, fun _ _ => rfl, rfl, rfl, rfl, rfl⟩
  | cons m ms =>
      obtain ⟨b, w⟩ := m
      obtain ⟨heap, hset, hchain, hw⟩ := hlast.setPrev p (List.nodup_cons.mp hnodup).1
      refine ⟨{ l₁ with heap }, bind_eq_ok.mpr ⟨heap, hset, rfl⟩, hchain,
        fun c hc => hw.other c ?_, hw.next, htail, rfl, rfl⟩
      rintro rfl
      exact hc (List.mem_cons_self ..)

/-- `list_remove` takes one node out of the list and frees it. -/
theorem listRemove_linked (h : Linked l (ns ++ (a, v) :: ms)) :
    ∃ l', listRemove l a = .ok l' ∧ Linked l' (ns ++ ms) ∧ l'.heap.cells a = none ∧
      l'.heap.next = l.heap.next := by
  obtain ⟨ha, ha', hdisj, hnodup⟩ := not_mem_addrs_split h.nodup
  obtain ⟨-, hcell, hlast⟩ := chain_split.mp h.chain
  have hms : (addrs ms).Nodup := by
    rw [addrs_append] at hnodup
    exact (List.nodup_append.mp hnodup).2.1
  obtain ⟨l₁, hprev, hchain₁, hsame₁, hnext₁, hhead₁, htail₁, hlen₁⟩ := unlinkPrev_chain h
  have hcell₁ : l₁.heap.cells a = some ⟨back none ns, front ms none, v⟩ :=
    (hsame₁ a ha).trans hcell
  have hlast₁ : Chain l₁.heap (some a) ms none :=
    hlast.congr fun b hb => hsame₁ b fun hb' => hdisj b hb' hb
  have htail : l₁.tail = back (some a) ms := by
    rw [htail₁, h.tail, back_append]
    rfl
  obtain ⟨l₂, hnext, hchain₂, hsame₂, hnext₂, htail₂, hhead₂, hlen₂⟩ :=
    unlinkNext_chain (v := v) (p := back none ns) hlast₁ hms htail
  have hcell₂ : l₂.heap.cells a = some ⟨back none ns, front ms none, v⟩ :=
    (hsame₂ a ha').trans hcell₁
  have hfree : l₂.heap.free a = .ok _ :=
    Heap.free_eq_ok.mpr ⟨Heap.lt_next hcell₂, by rw [hcell₂]; nofun, rfl⟩
  have hw : Rewrites l₂.heap (l₂.heap.set a (Heap.lt_next hcell₂) none) a none := rewrites_set
  refine ⟨{ l₂ with heap := _, len := l₂.len - 1 }, ?_, ?_, hw.self, ?_⟩
  · rw [listRemove]
    exact bind_eq_ok.mpr ⟨_, Heap.read_eq_ok.mpr hcell, bind_eq_ok.mpr ⟨l₁, hprev,
      bind_eq_ok.mpr ⟨_, Heap.read_eq_ok.mpr hcell₁, bind_eq_ok.mpr ⟨l₂, hnext,
        bind_eq_ok.mpr ⟨_, hfree, rfl⟩⟩⟩⟩⟩
  · have hfirst₂ : Chain l₂.heap none ns (front ms none) :=
      hchain₁.congr fun b hb => hsame₂ b (hdisj b hb)
    refine ⟨chain_append.mpr ⟨hw.chain ha hfirst₂, hw.chain ha' hchain₂⟩, hhead₂.trans hhead₁,
      ?_, ?_, hnodup⟩
    · rw [back_append]
      exact htail₂
    · have hlen := h.len
      rw [List.length_append, List.length_cons] at hlen
      have hone : (1 : UInt32) ≤ l.len := UInt32.le_iff_toNat_le.mpr (by
        rw [hlen]
        exact Nat.succ_le_of_lt (Nat.succ_pos _))
      show (l₂.len - 1).toNat = _
      rw [hlen₂, hlen₁, UInt32.toNat_sub_of_le _ _ hone, hlen, List.length_append]
      rfl
  · exact hnext₂.trans hnext₁

/-! ## Values -/

/-- A node of the list gets another value. -/
theorem setVal_linked (w : α) (h : Linked l (ns ++ (a, v) :: ms)) :
    ∃ heap, setVal l.heap a w = .ok heap ∧ Linked { l with heap } (ns ++ (a, w) :: ms) := by
  obtain ⟨ha, ha', -⟩ := not_mem_addrs_split h.nodup
  obtain ⟨heap, hset, hchain, -⟩ := h.chain.setVal w ha ha'
  refine ⟨heap, hset, hchain, ?_, ?_, ?_, ?_⟩
  · rw [h.head, front_append, front_append]
    rfl
  · rw [h.tail, back_append, back_append]
    rfl
  · rw [h.len, List.length_append, List.length_append]
    rfl
  · have hnodup := h.nodup
    rwa [addrs_append, addrs_cons] at hnodup ⊢

/-! ## Walking -/

/-- From a node of the list the iterator goes on to the one before it. -/
theorem listIteratorNext_tail (h : Linked l (ns ++ (a, v) :: ms)) :
    listIteratorNext l ⟨some a, .tail⟩ = .ok (some a, ⟨back none ns, .tail⟩) := by
  obtain ⟨-, hcell, -⟩ := chain_split.mp h.chain
  rw [listIteratorNext]
  exact bind_eq_ok.mpr ⟨_, Heap.read_eq_ok.mpr hcell, rfl⟩

end IotKit.Utils
