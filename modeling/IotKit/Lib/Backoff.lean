import Mathlib.Algebra.Order.Ring.Int
import Mathlib.Logic.Function.Iterate
import Mathlib.Tactic.Common

/-!
# Exponential backoff

An interval that is under the cap is doubled, and one that has reached it is
replaced by `past`.  With the cap for `past` the interval, cut off at the cap,
follows `base * 2 ^ k` for ever (`min_saturating`); with `base` for `past` it
starts again each time it passes the cap (`restarting_eq`).
-/

namespace Backoff

variable {base cap past : Nat}

/-- The interval after one more failure. -/
def grow (cap past interval : Nat) : Nat := if interval < cap then interval * 2 else past

/-- The interval after `k` failures. -/
def interval (base cap past k : Nat) : Nat := (grow cap past)^[k] base

@[simp] theorem interval_zero : interval base cap past 0 = base := rfl

@[simp] theorem interval_succ (k : Nat) :
    interval base cap past (k + 1) = grow cap past (interval base cap past k) := by
  simp [interval, Function.iterate_succ_apply']

theorem grow_le (hpast : past ≤ 2 * cap) (i : Nat) : grow cap past i ≤ 2 * cap := by
  rw [grow]
  split <;> omega

theorem interval_le (hbase : base ≤ 2 * cap) (hpast : past ≤ 2 * cap) (k : Nat) :
    interval base cap past k ≤ 2 * cap := by
  induction k with
  | zero => exact hbase
  | succ k _ => rw [interval_succ]; exact grow_le hpast _

/-- With the cap as the value above it, the law holds for every number of failures. -/
theorem min_saturating (base cap k : Nat) :
    min (interval base cap cap k) cap = min (base * 2 ^ k) cap := by
  induction k with
  | zero => simp
  | succ k ih =>
      rw [interval_succ, grow, Nat.pow_succ, ← Nat.mul_assoc]
      split <;> omega

/-- With `base` as the value above the cap, the intervals repeat after the first that is
not under it. -/
theorem restarting_eq {p : Nat} (hlt : ∀ j < p, base * 2 ^ j < cap) (hp : cap ≤ base * 2 ^ p)
    (k : Nat) : interval base cap base k = base * 2 ^ (k % (p + 1)) := by
  induction k with
  | zero => simp
  | succ k ih =>
      have hmod : k % (p + 1) < p + 1 := Nat.mod_lt _ (Nat.succ_pos _)
      rw [interval_succ, ih, grow]
      by_cases hend : k % (p + 1) = p
      · have hnext : (k + 1) % (p + 1) = 0 := Nat.succ_mod_succ_eq_zero_iff.mpr hend
        rw [hend, if_neg (Nat.not_lt.mpr hp), hnext, Nat.pow_zero, Nat.mul_one]
      · have hj : k % (p + 1) < p := by omega
        have hnext : (k + 1) % (p + 1) = k % (p + 1) + 1 := by
          rw [Nat.add_mod, Nat.mod_eq_of_lt (show 1 < p + 1 by omega), Nat.mod_eq_of_lt (by omega)]
        rw [if_pos (hlt _ hj), hnext, Nat.pow_succ, Nat.mul_assoc]

end Backoff
