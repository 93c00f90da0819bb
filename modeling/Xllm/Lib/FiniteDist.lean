import Mathlib.Algebra.BigOperators.Field
import Mathlib.Algebra.Order.BigOperators.Group.Finset
import Mathlib.Data.Rat.Cast.Order
import Mathlib.Tactic.Linarith
import Mathlib.Tactic.FieldSimp
import Mathlib.Tactic.Ring

/-!
# Distributions on a finite type

A distribution gives every outcome a rational probability. `excess p q` is what `p` has
more than `q` at each outcome. Two distributions exceed each other by the same total,
and they are equal if this total is zero. `below a` is the probability that a uniform
number of the unit interval is less than `a`.
-/

structure FiniteDist (V : Type*) [Fintype V] where
  prob : V → ℚ
  nonneg : ∀ x, 0 ≤ prob x
  sum_eq : ∑ x, prob x = 1

namespace FiniteDist

/-- What the first weights have more than the second. -/
def excess {V : Type*} (p q : V → ℚ) (x : V) : ℚ := max (p x - q x) 0

section Excess

variable {V : Type*} {p q : V → ℚ} {x : V}

theorem excess_nonneg : 0 ≤ excess p q x := le_max_right _ _

@[simp] theorem excess_of_le (h : p x ≤ q x) : excess p q x = 0 := max_eq_right (sub_nonpos.mpr h)

@[simp] theorem excess_of_ge (h : q x ≤ p x) : excess p q x = p x - q x :=
  max_eq_left (sub_nonneg.mpr h)

theorem excess_pos_iff : 0 < excess p q x ↔ q x < p x := by
  rw [excess, lt_max_iff, sub_pos]
  exact or_iff_left (lt_irrefl 0)

theorem excess_eq_zero_iff : excess p q x = 0 ↔ p x ≤ q x := by
  rw [excess, max_eq_right_iff, sub_nonpos]

@[simp] theorem min_add_excess : min (p x) (q x) + excess p q x = p x := by
  rcases le_total (p x) (q x) with h | h
  · rw [min_eq_left h, excess_of_le h, add_zero]
  · rw [min_eq_right h, excess_of_ge h, add_sub_cancel]

@[simp] theorem min_add_excess' : min (p x) (q x) + excess q p x = q x := by
  rw [min_comm, min_add_excess]

end Excess

section Totals

variable {V : Type*} [Fintype V]

instance : CoeFun (FiniteDist V) fun _ => V → ℚ := ⟨prob⟩

theorem prob_le_one (p : FiniteDist V) (x : V) : p x ≤ 1 := by
  rw [← p.sum_eq]
  exact Finset.single_le_sum (fun y _ => p.nonneg y) (Finset.mem_univ x)

theorem sum_excess_comm (p q : FiniteDist V) : ∑ x, excess p q x = ∑ x, excess q p x := by
  have hp : ∑ x, min (p x) (q x) + ∑ x, excess p q x = 1 := by
    rw [← Finset.sum_add_distrib, ← p.sum_eq]
    exact Finset.sum_congr rfl fun x _ => min_add_excess
  have hq : ∑ x, min (p x) (q x) + ∑ x, excess q p x = 1 := by
    rw [← Finset.sum_add_distrib, ← q.sum_eq]
    exact Finset.sum_congr rfl fun x _ => min_add_excess'
  linarith

theorem sum_excess_nonneg {p q : V → ℚ} : 0 ≤ ∑ x, excess p q x :=
  Finset.sum_nonneg fun _ _ => excess_nonneg

theorem excess_eq_zero_of_sum {p q : V → ℚ} (h : ∑ x, excess p q x = 0) (x : V) :
    excess p q x = 0 :=
  (Finset.sum_eq_zero_iff_of_nonneg fun _ _ => excess_nonneg).mp h x (Finset.mem_univ x)

end Totals

/-- The probability that a uniform number of the unit interval is below a bound. -/
def below (a : ℚ) : ℚ := max 0 (min 1 a)

/-- A draft outcome that is kept when a uniform number is below the quotient of the
probabilities is kept with the smaller one of them. -/
theorem mul_below_div {p q : ℚ} (hp : 0 ≤ p) (hq : 0 ≤ q) : q * below (p / q) = min p q := by
  rcases hq.eq_or_lt with rfl | hpos
  · rw [zero_mul, min_eq_right hp]
  · rw [below, max_eq_right (le_min zero_le_one (div_nonneg hp hq)), mul_min_of_nonneg _ _ hq,
      mul_one, mul_div_cancel₀ _ hpos.ne', min_comm]

end FiniteDist
