import Mathlib.Algebra.Order.Ring.Int
import Mathlib.Order.Nat
import Mathlib.Tactic.Common

/-!
# Infinite schedules

A total step function takes its inputs from a schedule that never ends.  Some
states are final and are never left, some stay where they are while the input is
idle, and from all others an idle input leads to a final state.  An input that is
not idle leads to a final state or spends some of a measure.  Then a final state
is reached exactly when no state that stays meets only idle inputs from then on
(`eventually_final_iff`).
-/

namespace Schedule

variable {σ α : Type} {step : σ → α → σ}

/-- The state after `k` inputs of the schedule. -/
def iter (step : σ → α → σ) (sched : Nat → α) (s : σ) : Nat → σ
  | 0 => s
  | k + 1 => step (iter step sched s k) (sched k)

variable {sched : Nat → α} {s : σ}

@[simp] theorem iter_succ (k : Nat) :
    iter step sched s (k + 1) = step (iter step sched s k) (sched k) := rfl

/-- What every step preserves, the whole run preserves. -/
theorem iter_invariant {Inv : σ → Prop} (hstep : ∀ s a, Inv s → Inv (step s a)) (hs : Inv s)
    (k : Nat) : Inv (iter step sched s k) := by
  induction k with
  | zero => exact hs
  | succ k ih => exact hstep _ _ ih

/-- The run from its second state on is a run of the rest of the schedule. -/
theorem iter_shift (k : Nat) :
    iter step sched s (k + 1) = iter step (fun i => sched (i + 1)) (step s (sched 0)) k := by
  induction k with
  | zero => rfl
  | succ k ih => rw [iter_succ, ih, iter_succ]

/-- A state that every step keeps is never left. -/
theorem iter_absorbing {Final : σ → Prop} (hfinal : ∀ s a, Final s → Final (step s a)) {n k : Nat}
    (hnk : n ≤ k) (hn : Final (iter step sched s n)) : Final (iter step sched s k) := by
  induction k, hnk using Nat.le_induction with
  | base => exact hn
  | succ k _ ih => exact hfinal _ _ ih

/-- Something that holds at last, and from each state if it holds after the next step, holds at
last exactly if it does so for the rest of the run. -/
theorem exists_iter_shift {P : σ → Prop} (hstep : ∀ s a, P s → P (step s a)) :
    (∃ k, P (iter step sched s k)) ↔
      ∃ k, P (iter step (fun i => sched (i + 1)) (step s (sched 0)) k) := by
  constructor
  · rintro ⟨k, hk⟩
    refine ⟨k, ?_⟩
    rw [← iter_shift]
    exact hstep _ _ hk
  · rintro ⟨k, hk⟩
    refine ⟨k + 1, ?_⟩
    rwa [iter_shift]

/-! ## Reaching a final state -/

/-- How idle and other inputs act on a system with final states. -/
structure Settles (step : σ → α → σ) (Inv Final Stays : σ → Prop) (Idle : α → σ → Prop)
    (μ : σ → Nat) : Prop where
  /-- The invariant holds on. -/
  inv : ∀ s a, Inv s → Inv (step s a)
  /-- A final state is not left. -/
  final : ∀ s a, Final s → Final (step s a)
  /-- A state that stays is not final. -/
  not_final : ∀ s, Stays s → ¬ Final s
  /-- It is kept while the input is idle. -/
  stays : ∀ s a, Inv s → Stays s → Idle a s → Stays (step s a)
  /-- Any other state becomes final at the first idle input. -/
  idle : ∀ s a, Inv s → ¬ Final s → ¬ Stays s → Idle a s → Final (step s a)
  /-- An input that is not idle spends some of the measure. -/
  spends : ∀ s a, Inv s → ¬ Final s → ¬ Idle a s → Final (step s a) ∨ μ (step s a) < μ s
  /-- None is ever gained. -/
  measure_le : ∀ s a, μ (step s a) ≤ μ s

variable {Inv Final Stays : σ → Prop} {Idle : α → σ → Prop} {μ : σ → Nat}

theorem Settles.measure_iter_le (h : Settles step Inv Final Stays Idle μ) {k j : Nat}
    (hkj : k ≤ j) : μ (iter step sched s j) ≤ μ (iter step sched s k) := by
  induction j, hkj using Nat.le_induction with
  | base => exact Nat.le_refl _
  | succ j _ ih => exact Nat.le_trans (h.measure_le _ _) ih

/-- A state that stays is kept up to the first input that is not idle. -/
theorem Settles.stays_until (h : Settles step Inv Final Stays Idle μ) (hs : Inv s) {k j : Nat}
    (hkj : k ≤ j) (hk : Stays (iter step sched s k))
    (hidle : ∀ i, k ≤ i → i < j → Idle (sched i) (iter step sched s i)) :
    Stays (iter step sched s j) := by
  induction j, hkj using Nat.le_induction with
  | base => exact hk
  | succ j hkj ih =>
      have hj := ih fun i hki hij => hidle i hki (Nat.lt_succ_of_lt hij)
      exact h.stays _ _ (iter_invariant h.inv hs j) hj (hidle j hkj (Nat.lt_succ_self j))

/-- A final state is reached if no state that stays is left with idle inputs only. -/
theorem Settles.exists_final (h : Settles step Inv Final Stays Idle μ) (hs : Inv s)
    (hstays : ∀ k, Stays (iter step sched s k) →
      ∃ j, k ≤ j ∧ ¬ Idle (sched j) (iter step sched s j)) (k : Nat) :
    ∃ n, Final (iter step sched s n) := by
  classical
  -- on the measure that is left in the state reached by `k` inputs
  induction hm : μ (iter step sched s k) using Nat.strong_induction_on generalizing k with
  | _ m ih =>
      subst hm
      by_cases hfinal : Final (iter step sched s k)
      · exact ⟨k, hfinal⟩
      have hspend : ∀ j, k ≤ j → ¬ Final (iter step sched s j) →
          ¬ Idle (sched j) (iter step sched s j) → ∃ n, Final (iter step sched s n) := by
        intro j hkj hj hbusy
        cases h.spends _ (sched j) (iter_invariant h.inv hs j) hj hbusy with
        | inl hf => exact ⟨j + 1, hf⟩
        | inr hlt => exact ih _ (Nat.lt_of_lt_of_le hlt (h.measure_iter_le hkj)) (j + 1) rfl
      by_cases hk : Stays (iter step sched s k)
      · have hex := hstays k hk
        obtain ⟨hkj, hbusy⟩ := Nat.find_spec hex
        refine hspend _ hkj (h.not_final _ (h.stays_until hs hkj hk fun i hki hi => ?_)) hbusy
        have hmin := Nat.find_min hex hi
        by_contra hbusy'
        exact hmin ⟨hki, hbusy'⟩
      · by_cases hidle : Idle (sched k) (iter step sched s k)
        · exact ⟨k + 1, h.idle _ _ (iter_invariant h.inv hs k) hfinal hk hidle⟩
        · exact hspend k (Nat.le_refl k) hfinal hidle

theorem eventually_final_iff (h : Settles step Inv Final Stays Idle μ) (hs : Inv s) :
    (∃ k, Final (iter step sched s k)) ↔
      ∀ k, Stays (iter step sched s k) → ∃ j, k ≤ j ∧ ¬ Idle (sched j) (iter step sched s j) := by
  constructor
  · rintro ⟨n, hn⟩ k hk
    by_contra hall
    have hidle : ∀ j, k ≤ j → Idle (sched j) (iter step sched s j) := by
      intro j hkj
      by_contra hbusy
      exact hall ⟨j, hkj, hbusy⟩
    have hstays : Stays (iter step sched s (max n k)) :=
      h.stays_until hs (Nat.le_max_right n k) hk fun i hki _ => hidle i hki
    exact h.not_final _ hstays (iter_absorbing h.final (Nat.le_max_left n k) hn)
  · intro hstays
    exact h.exists_final hs hstays 0

/-- Where only idle inputs follow, the state they find decides. -/
theorem Settles.exists_final_iff (h : Settles step Inv Final Stays Idle μ) (hs : Inv s) {k : Nat}
    (hidle : ∀ j, k ≤ j → Idle (sched j) (iter step sched s j)) :
    (∃ n, Final (iter step sched s n)) ↔ ¬ Stays (iter step sched s k) := by
  constructor
  · intro hends hstays
    obtain ⟨j, hkj, hbusy⟩ := (eventually_final_iff h hs).mp hends k hstays
    exact hbusy (hidle j hkj)
  · intro hstays
    by_cases hfinal : Final (iter step sched s k)
    · exact ⟨k, hfinal⟩
    · exact ⟨k + 1, h.idle _ _ (iter_invariant h.inv hs k) hfinal hstays (hidle k (Nat.le_refl k))⟩

end Schedule
