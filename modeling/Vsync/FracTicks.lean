/-
Fractional ticks: `m` ticks in `d` cycles, when `m` need not divide `d`. A tick takes `d / m` cycles, and one more when
the accumulated remainders carry. Nothing in this file is about a particular design.

- `elapsed d m j`: the cycles of the first `j` ticks; `phase d m j`: the accumulator behind them.
- `elapsed_succ`, `phase_succ`: what one tick adds.
- `elapsed_mul`: **no drift**, `k * m` ticks take exactly `k * d` cycles.
-/
import Mathlib.Data.Nat.Basic
import Mathlib.Algebra.Order.Group.Nat

namespace Vsync.FracTicks

variable {d m : ℕ}

def elapsed (d m j : ℕ) : ℕ := j * d / m

def phase (d m j : ℕ) : ℕ := j * d % m

@[simp] theorem elapsed_zero : elapsed d m 0 = 0 := by simp [elapsed]

@[simp] theorem phase_zero : phase d m 0 = 0 := by simp [phase]

theorem elapsed_succ (hm : 0 < m) (j : ℕ) :
    elapsed d m (j + 1) = elapsed d m j + d / m + if m ≤ phase d m j + d % m then 1 else 0 := by
  rw [elapsed, Nat.add_mul, Nat.one_mul, Nat.add_div hm]
  rfl

theorem phase_succ (j : ℕ) : phase d m (j + 1) = (phase d m j + d % m) % m := by
  rw [phase, Nat.add_mul, Nat.one_mul, Nat.add_mod]
  rfl

theorem phase_lt (hm : 0 < m) (j : ℕ) : phase d m j < m := Nat.mod_lt _ hm

theorem elapsed_mul (hm : 0 < m) (k : ℕ) : elapsed d m (k * m) = k * d := by
  rw [elapsed, Nat.mul_right_comm, Nat.mul_div_cancel _ hm]

theorem elapsed_div (hd : 0 < d) (j : ℕ) : elapsed d m j / d = j / m := by
  rw [elapsed, Nat.div_div_eq_div_mul, Nat.mul_div_mul_right _ _ hd]

/-- no tick is empty -/
theorem elapsed_lt (hm : 0 < m) (hd : m ≤ d) (j : ℕ) : elapsed d m j < elapsed d m (j + 1) := by
  have hpos : 0 < d / m := Nat.div_pos hd hm
  rw [elapsed_succ hm]
  omega

theorem div_succ_of_last {t : ℕ} (h : t % d + 1 = d) : (t + 1) / d = t / d + 1 ∧ (t + 1) % d = 0 := by
  have hd : 0 < d := by omega
  have ht : t + 1 = d * (t / d + 1) := by
    rw [Nat.mul_add, Nat.mul_one]
    have := Nat.div_add_mod t d
    omega
  rw [ht, Nat.mul_div_cancel_left _ hd, Nat.mul_mod_right]
  exact ⟨rfl, rfl⟩

theorem div_succ_of_not_last {t : ℕ} (hd : 0 < d) (h : t % d + 1 ≠ d) :
    (t + 1) / d = t / d ∧ (t + 1) % d = t % d + 1 := by
  have hlt := Nat.mod_lt t hd
  refine (Nat.div_mod_unique hd).2 ⟨?_, by omega⟩
  have := Nat.mod_add_div t d
  omega

theorem elapsed_le {j k : ℕ} (h : j ≤ k) : elapsed d m j ≤ elapsed d m k :=
  Nat.div_le_div_right (Nat.mul_le_mul_right d h)

end Vsync.FracTicks
