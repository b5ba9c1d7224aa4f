import Mathlib.Algebra.Order.Ring.Int
import Mathlib.Data.List.Nodup

/-!
# Binary heaps

A list is a heap for a key if every element has a larger key than its parent, the element at
`(i - 1) / 2`.  The first element has the least key then (`MinHeap.first_lt`), and a list whose
keys increase is a heap (`minHeap_of_increasing`).

An element whose key becomes the largest is brought down to a leaf by swaps with the smaller
child.  `Sinking` is what holds on the way: the list is a heap but for the children of that
element, and these are above its parent.  No comparison with the element itself is needed, since
it is to end at a leaf anyway.
-/

namespace BinaryHeap

variable {α κ : Type} [LinearOrder κ] {key : α → κ} {xs : List α} {i j : Nat} {a b : α}

/-! ## Swaps -/

/-- Two elements change places. -/
def swap (xs : List α) (i j : Nat) : List α :=
  match xs[i]?, xs[j]? with
  | some a, some b => (xs.set i b).set j a
  | _, _ => xs

theorem swap_perm (xs : List α) (i j : Nat) : (swap xs i j).Perm xs := by
  rw [swap]
  split
  next a b ha hb =>
    obtain ⟨hi, rfl⟩ := List.getElem?_eq_some_iff.mp ha
    obtain ⟨hj, rfl⟩ := List.getElem?_eq_some_iff.mp hb
    exact List.set_set_perm hi hj
  next => exact .refl _

theorem swap_left (hij : i ≠ j) (ha : xs[i]? = some a) (hb : xs[j]? = some b) :
    (swap xs i j)[i]? = some b := by
  have hi := (List.getElem?_eq_some_iff.mp ha).1
  rw [swap, ha, hb]
  dsimp only
  rw [List.getElem?_set_ne hij.symm, List.getElem?_set_self hi]

theorem swap_right (ha : xs[i]? = some a) (hb : xs[j]? = some b) :
    (swap xs i j)[j]? = some a := by
  have hj := (List.getElem?_eq_some_iff.mp hb).1
  rw [swap, ha, hb]
  dsimp only
  rw [List.getElem?_set_self (by rwa [List.length_set])]

theorem swap_of_ne {k : Nat} (hki : k ≠ i) (hkj : k ≠ j) : (swap xs i j)[k]? = xs[k]? := by
  rw [swap]
  split
  · rw [List.getElem?_set_ne hkj.symm, List.getElem?_set_ne hki.symm]
  · rfl

/-! ## Heaps -/

/-- Every element has a larger key than its parent. -/
def MinHeap (key : α → κ) (xs : List α) : Prop :=
  ∀ i a b, 0 < i → xs[(i - 1) / 2]? = some a → xs[i]? = some b → key a < key b

/-- The first element of a heap has the least key. -/
theorem MinHeap.first_lt (h : MinHeap key xs) (ha : xs[0]? = some a) :
    ∀ i b, 0 < i → xs[i]? = some b → key a < key b := by
  intro i
  induction i using Nat.strongRecOn with
  | ind i ih =>
      intro b hi hb
      have hlt := (List.getElem?_eq_some_iff.mp hb).1
      obtain ⟨p, hp⟩ : ∃ p, xs[(i - 1) / 2]? = some p :=
        ⟨_, List.getElem?_eq_getElem (by omega)⟩
      have hpb := h i p b hi hp hb
      by_cases hroot : (i - 1) / 2 = 0
      · rw [hroot, ha] at hp
        cases hp
        exact hpb
      · exact lt_trans (ih _ (by omega) p (Nat.pos_of_ne_zero hroot) hp) hpb

/-- A list whose keys increase is a heap. -/
theorem minHeap_of_increasing (h : xs.Pairwise fun a b => key a < key b) : MinHeap key xs := by
  intro i a b hi ha hb
  obtain ⟨hp, rfl⟩ := List.getElem?_eq_some_iff.mp ha
  obtain ⟨hc, rfl⟩ := List.getElem?_eq_some_iff.mp hb
  exact List.pairwise_iff_getElem.mp h _ _ hp hc (by omega)

/-- Nothing but the keys matters. -/
theorem MinHeap.congr {ys : List α} (h : MinHeap key xs) (hkeys : ys.map key = xs.map key) :
    MinHeap key ys := by
  have hget (j : Nat) : xs[j]?.map key = ys[j]?.map key := by
    rw [← List.getElem?_map, ← hkeys, List.getElem?_map]
  intro i a b hi ha hb
  have hparent := hget ((i - 1) / 2)
  have hchild := hget i
  rw [ha, Option.map_some] at hparent
  rw [hb, Option.map_some] at hchild
  obtain ⟨a', ha', hka⟩ := Option.map_eq_some_iff.mp hparent
  obtain ⟨b', hb', hkb⟩ := Option.map_eq_some_iff.mp hchild
  rw [← hka, ← hkb]
  exact h i a' b' hi ha' hb'

/-! ## Sinking -/

/-- The element at `i` has the largest key, and the list is a heap but for its children. -/
structure Sinking (key : α → κ) (xs : List α) (i : Nat) : Prop where
  distinct : (xs.map key).Nodup
  largest : ∀ j a b, j ≠ i → xs[j]? = some a → xs[i]? = some b → key a < key b
  heap : ∀ j a b, 0 < j → (j - 1) / 2 ≠ i → xs[(j - 1) / 2]? = some a → xs[j]? = some b →
    key a < key b
  above : ∀ j a b, 0 < i → 0 < j → (j - 1) / 2 = i → xs[(i - 1) / 2]? = some a →
    xs[j]? = some b → key a < key b

omit [LinearOrder κ] in
theorem key_ne (hdistinct : (xs.map key).Nodup) (hij : i ≠ j) (ha : xs[i]? = some a)
    (hb : xs[j]? = some b) : key a ≠ key b := by
  obtain ⟨hi, rfl⟩ := List.getElem?_eq_some_iff.mp ha
  obtain ⟨hj, rfl⟩ := List.getElem?_eq_some_iff.mp hb
  have hpair := List.pairwise_iff_getElem.mp (List.pairwise_map.mp hdistinct)
  obtain hlt | hgt := Nat.lt_or_gt_of_ne hij
  · exact hpair i j hi hj hlt
  · exact (hpair j i hj hi hgt).symm

/-- An element of a heap that gets the largest key starts to sink. -/
theorem MinHeap.sinking (h : MinHeap key xs) (hdistinct : ((xs.set i b).map key).Nodup)
    (hlargest : ∀ j a, j ≠ i → xs[j]? = some a → key a < key b) : Sinking key (xs.set i b) i where
  distinct := hdistinct
  largest j a b' hji ha hb' := by
    have hi : i < xs.length := by
      have := (List.getElem?_eq_some_iff.mp hb').1
      rwa [List.length_set] at this
    rw [List.getElem?_set_ne hji.symm] at ha
    rw [List.getElem?_set_self hi] at hb'
    cases hb'
    exact hlargest j a hji ha
  heap j a b' hj hparent ha hb' := by
    rw [List.getElem?_set_ne hparent.symm] at ha
    by_cases hji : j = i
    case pos =>
      subst hji
      have hi : j < xs.length := by
        have := (List.getElem?_eq_some_iff.mp hb').1
        rwa [List.length_set] at this
      rw [List.getElem?_set_self hi] at hb'
      cases hb'
      exact hlargest _ a hparent ha
    case neg =>
      rw [List.getElem?_set_ne (Ne.symm hji)] at hb'
      exact h j a b' hj ha hb'
  above j a b' hi hj hparent ha hb' := by
    rw [List.getElem?_set_ne (by omega)] at ha hb'
    obtain ⟨p, hp⟩ : ∃ p, xs[i]? = some p :=
      ⟨_, List.getElem?_eq_getElem (by have := (List.getElem?_eq_some_iff.mp hb').1; omega)⟩
    exact lt_trans (h i a p hi ha hp) (h j p b' hj (hparent ▸ hp) hb')

/-- The element changes places with a child whose key is less than that of the other. -/
theorem Sinking.swap (h : Sinking key xs i) {next : Nat} {m : α} (hnext : 0 < next)
    (hchild : (next - 1) / 2 = i) (hm : xs[next]? = some m)
    (hleast : ∀ j b, 0 < j → (j - 1) / 2 = i → j ≠ next → xs[j]? = some b → key m < key b) :
    Sinking key (swap xs i next) next := by
  have hne : i ≠ next := by omega
  have hlt := (List.getElem?_eq_some_iff.mp hm).1
  obtain ⟨x, hx⟩ : ∃ x, xs[i]? = some x := ⟨_, List.getElem?_eq_getElem (by omega)⟩
  have hleft := swap_left hne hx hm
  have hright := swap_right hx hm
  have hmx : key m < key x := h.largest next m x hne.symm hm hx
  refine ⟨((swap_perm xs i next).map key).nodup_iff.mpr h.distinct, ?_, ?_, ?_⟩
  · intro j a b hj ha hb
    rw [hright] at hb
    cases hb
    by_cases hji : j = i
    case pos =>
      subst hji
      rw [hleft] at ha
      cases ha
      exact hmx
    case neg =>
      rw [swap_of_ne hji hj] at ha
      exact h.largest j a x hji ha hx
  · intro j a b hj hparent ha hb
    by_cases hjn : j = next
    case pos =>
      subst hjn
      rw [hchild, hleft] at ha
      rw [hright] at hb
      cases ha
      cases hb
      exact hmx
    case neg =>
      by_cases hji : j = i
      case pos =>
        subst hji
        rw [swap_of_ne (by omega) hparent] at ha
        rw [hleft] at hb
        cases hb
        exact h.above next a m hj hnext hchild ha hm
      case neg =>
        rw [swap_of_ne hji hjn] at hb
        by_cases hsibling : (j - 1) / 2 = i
        case pos =>
          rw [hsibling, hleft] at ha
          cases ha
          exact hleast j b hj hsibling hjn hb
        case neg =>
          rw [swap_of_ne hsibling hparent] at ha
          exact h.heap j a b hj hsibling ha hb
  · intro j a b _ hj hparent ha hb
    rw [hchild, hleft] at ha
    cases ha
    rw [swap_of_ne (by omega) (by omega)] at hb
    exact h.heap j m b hj (by omega) (hparent ▸ hm) hb

/-- The element goes on to the place of its smaller child. -/
theorem Sinking.step (h : Sinking key xs i) (ha : xs[i * 2 + 1]? = some a)
    (hb : xs[i * 2 + 1 + 1]? = some b) {next : Nat}
    (hnext : next = if key a < key b then i * 2 + 1 else i * 2 + 1 + 1) :
    Sinking key (BinaryHeap.swap xs i next) next := by
  subst hnext
  split
  next hlt =>
    refine h.swap (by omega) (by omega) ha fun j c hj hparent hne hc => ?_
    obtain rfl : j = i * 2 + 1 + 1 := by omega
    rw [hb] at hc
    cases hc
    exact hlt
  next hlt =>
    refine h.swap (by omega) (by omega) hb fun j c hj hparent hne hc => ?_
    obtain rfl : j = i * 2 + 1 := by omega
    rw [ha] at hc
    cases hc
    exact lt_of_le_of_ne (not_lt.mp hlt) (key_ne h.distinct hne.symm hb ha)

/-- At a leaf it has come to rest. -/
theorem Sinking.rest (h : Sinking key xs i) (hleaf : xs.length ≤ i * 2 + 1) : MinHeap key xs := by
  intro j a b hj ha hb
  have hlt := (List.getElem?_eq_some_iff.mp hb).1
  exact h.heap j a b hj (by omega) ha hb

end BinaryHeap
