/-
Restoring division, over naturals: a `w`-bit dividend `n` is shifted out of the top of the quotient register, bit by
bit, while the quotient is shifted in below. Nothing in this file is about a particular divider.

- `After w n d k r q`: the remainder and the quotient register after `k` of `w` steps.
- `After.start`, `After.subtract`, `After.restore`, `After.finish`: the steps.
- `Narrow`: the same with a remainder register of only as many bits as the divisor has, whose top bit is shifted out.
- `Narrow.exact_iff`: the result is right exactly if no bit is lost; `Narrow.lost_eq_zero_iff`: when that is.
-/
import Mathlib.Tactic

namespace Vsync.Restoring

/-- after `k` steps the remainder is that of the top `k` bits of `n`, and `q` holds the other bits over the quotient -/
structure After (w n d k r q : ℕ) : Prop where
  rem : r = n / 2 ^ (w - k) % d
  quo : q = n % 2 ^ (w - k) * 2 ^ k + n / 2 ^ (w - k) / d

variable {w n d k r q : ℕ}

theorem After.start (hn : n < 2 ^ w) : After w n d 0 0 n := by
  constructor
  · simp [Nat.div_eq_of_lt hn]
  · simp [Nat.div_eq_of_lt hn, Nat.mod_eq_of_lt hn]

theorem After.finish (h : After w n d w r q) : r = n % d ∧ q = n / d := by
  refine ⟨by simpa using h.rem, ?_⟩
  have := h.quo
  simpa [Nat.mod_one] using this

theorem div_pow_succ (n m : ℕ) : n / 2 ^ m = 2 * (n / 2 ^ (m + 1)) + n / 2 ^ m % 2 := by
  have h : n / 2 ^ (m + 1) = n / 2 ^ m / 2 := by rw [pow_succ, Nat.div_div_eq_div_mul]
  rw [h]
  exact (Nat.div_add_mod _ 2).symm

theorem mod_pow_succ (n m : ℕ) : n % 2 ^ (m + 1) = n / 2 ^ m % 2 * 2 ^ m + n % 2 ^ m := by
  rw [pow_succ, Nat.mod_mul, Nat.mul_comm (2 ^ m), Nat.add_comm]

/-- the quotient register splits into the next bit and the rest -/
theorem After.split (h : After w n d k r q) (hk : k < w) (hn : n < 2 ^ w) :
    q / 2 ^ (w - 1) = n / 2 ^ (w - (k + 1)) % 2 ∧
      q % 2 ^ (w - 1) = n % 2 ^ (w - (k + 1)) * 2 ^ k + n / 2 ^ (w - k) / d := by
  obtain ⟨m, rfl⟩ := Nat.exists_eq_add_of_lt hk
  have h1 : k + m + 1 - k = m + 1 := by omega
  have h2 : k + m + 1 - (k + 1) = m := by omega
  have h3 : k + m + 1 - 1 = m + k := by omega
  have hq := h.quo
  rw [h1] at hq
  rw [h1, h2, h3]
  -- the quotient so far has `k` bits
  have htop : n / 2 ^ (m + 1) < 2 ^ k := by
    apply Nat.div_lt_of_lt_mul
    rwa [← pow_add, show m + 1 + k = k + m + 1 by omega]
  have hquo : n / 2 ^ (m + 1) / d < 2 ^ k := lt_of_le_of_lt (Nat.div_le_self _ _) htop
  have hlow : n % 2 ^ m < 2 ^ m := Nat.mod_lt _ (by positivity)
  have hrest : n % 2 ^ m * 2 ^ k + n / 2 ^ (m + 1) / d < 2 ^ (m + k) := by
    calc n % 2 ^ m * 2 ^ k + n / 2 ^ (m + 1) / d < n % 2 ^ m * 2 ^ k + 2 ^ k := by omega
      _ = (n % 2 ^ m + 1) * 2 ^ k := by ring
      _ ≤ 2 ^ m * 2 ^ k := Nat.mul_le_mul_right _ hlow
      _ = 2 ^ (m + k) := (pow_add 2 m k).symm
  have hsum : q = 2 ^ (m + k) * (n / 2 ^ m % 2) + (n % 2 ^ m * 2 ^ k + n / 2 ^ (m + 1) / d) := by
    rw [hq, mod_pow_succ, pow_add]
    ring
  constructor
  · rw [hsum, Nat.mul_add_div (by positivity), Nat.div_eq_of_lt hrest, Nat.add_zero]
  · rw [hsum, Nat.mul_add_mod, Nat.mod_eq_of_lt hrest]

/-- the remainder and the quotient of the dividend's next prefix -/
theorem div_mod_double (H b d : ℕ) (hd : 0 < d) (hb : b < 2) :
    (d ≤ 2 * (H % d) + b → (2 * H + b) % d = 2 * (H % d) + b - d ∧ (2 * H + b) / d = 2 * (H / d) + 1) ∧
      (2 * (H % d) + b < d → (2 * H + b) % d = 2 * (H % d) + b ∧ (2 * H + b) / d = 2 * (H / d)) := by
  have hH := Nat.div_add_mod H d
  have hr : H % d < d := Nat.mod_lt _ hd
  have hsplit : 2 * H + b = d * (2 * (H / d)) + (2 * (H % d) + b) := by
    calc 2 * H + b = 2 * (d * (H / d) + H % d) + b := by rw [hH]
      _ = d * (2 * (H / d)) + (2 * (H % d) + b) := by ring
  constructor
  · intro hle
    have hover : 2 * (H % d) + b = d + (2 * (H % d) + b - d) := by omega
    have hlt : 2 * (H % d) + b - d < d := by omega
    have hsplit' : 2 * H + b = d * (2 * (H / d) + 1) + (2 * (H % d) + b - d) := by
      rw [hsplit, Nat.mul_add, Nat.mul_one]
      omega
    rw [hsplit', Nat.mul_add_mod, Nat.mod_eq_of_lt hlt, Nat.mul_add_div hd, Nat.div_eq_of_lt hlt]
    exact ⟨rfl, rfl⟩
  · intro hlt
    rw [hsplit, Nat.mul_add_mod, Nat.mod_eq_of_lt hlt, Nat.mul_add_div hd, Nat.div_eq_of_lt hlt]
    exact ⟨rfl, rfl⟩

/-- one step, where the shifted remainder is at least the divisor -/
theorem After.subtract (h : After w n d k r q) (hk : k < w) (hn : n < 2 ^ w) (hd : 0 < d)
    (hle : d ≤ 2 * r + q / 2 ^ (w - 1)) :
    After w n d (k + 1) (2 * r + q / 2 ^ (w - 1) - d) (2 * (q % 2 ^ (w - 1)) + 1) := by
  obtain ⟨hbit, hrest⟩ := h.split hk hn
  have hnext := div_pow_succ n (w - (k + 1))
  rw [show w - (k + 1) + 1 = w - k by omega] at hnext
  rw [hbit, h.rem] at hle ⊢
  obtain ⟨h1, h2⟩ := (div_mod_double _ _ d hd (Nat.mod_lt _ (by decide))).1 hle
  constructor
  · rw [hnext, h1, ← hnext]
  · rw [hrest, hnext, h2, pow_succ]
    ring

theorem After.restore (h : After w n d k r q) (hk : k < w) (hn : n < 2 ^ w) (hd : 0 < d)
    (hlt : 2 * r + q / 2 ^ (w - 1) < d) :
    After w n d (k + 1) (2 * r + q / 2 ^ (w - 1)) (2 * (q % 2 ^ (w - 1))) := by
  obtain ⟨hbit, hrest⟩ := h.split hk hn
  have hnext := div_pow_succ n (w - (k + 1))
  rw [show w - (k + 1) + 1 = w - k by omega] at hnext
  rw [hbit, h.rem] at hlt ⊢
  obtain ⟨h1, h2⟩ := (div_mod_double _ _ d hd (Nat.mod_lt _ (by decide))).2 hlt
  constructor
  · rw [hnext, h1, ← hnext]
  · rw [hrest, hnext, h2, pow_succ]
    ring

/-! ## A remainder register without a bit to spare -/

/-- the remainder, the quotient, and what the lost bits are worth, as a multiple of the size of the register -/
structure Narrow where
  rem : ℕ
  quo : ℕ
  lost : ℕ

namespace Narrow

def step (b d : ℕ) (s : Narrow) (bit : ℕ) : Narrow :=
  if d ≤ (2 * s.rem + bit) % 2 ^ b then
    ⟨(2 * s.rem + bit) % 2 ^ b - d, 2 * s.quo + 1, 2 * s.lost + (2 * s.rem + bit) / 2 ^ b⟩
  else ⟨(2 * s.rem + bit) % 2 ^ b, 2 * s.quo, 2 * s.lost + (2 * s.rem + bit) / 2 ^ b⟩

/-- `k` steps over the top bits of `n`, which has `w` bits -/
def run (b d w n : ℕ) : ℕ → Narrow
  | 0 => ⟨0, 0, 0⟩
  | k + 1 => step b d (run b d w n k) (n / 2 ^ (w - (k + 1)) % 2)

section Step

variable {b d H bit : ℕ} {s : Narrow}

/-- what the registers say about the bits so far -/
structure Holds (b d H : ℕ) (s : Narrow) : Prop where
  sum : H = s.quo * d + s.rem + 2 ^ b * s.lost
  rem_lt : s.rem < d

theorem Holds.step (h : Holds b d H s) (hbit : bit < 2) :
    Holds b d (2 * H + bit) (s.step b d bit) := by
  have hlt := h.rem_lt
  have hsplit := Nat.div_add_mod (2 * s.rem + bit) (2 ^ b)
  have hsum : 2 * H + bit = 2 * s.quo * d + (2 * s.rem + bit) + 2 ^ b * (2 * s.lost) := by
    rw [h.sum]
    ring
  unfold Narrow.step
  split_ifs with hle
  · -- no bit is lost here: the shifted remainder is below twice the divisor
    have hmod : (2 * s.rem + bit) % 2 ^ b ≤ 2 * s.rem + bit := Nat.mod_le _ _
    refine ⟨?_, show (2 * s.rem + bit) % 2 ^ b - d < d by omega⟩
    calc 2 * H + bit
        = 2 * s.quo * d + (d + ((2 * s.rem + bit) % 2 ^ b - d)) + 2 ^ b * (2 * s.lost + (2 * s.rem + bit) / 2 ^ b) := by
          rw [hsum, Nat.mul_add, Nat.add_sub_cancel' hle]
          omega
      _ = (2 * s.quo + 1) * d + ((2 * s.rem + bit) % 2 ^ b - d) +
        2 ^ b * (2 * s.lost + (2 * s.rem + bit) / 2 ^ b) := by ring
  · refine ⟨?_, Nat.lt_of_not_le hle⟩
    change 2 * H + bit = 2 * s.quo * d + (2 * s.rem + bit) % 2 ^ b + 2 ^ b * (2 * s.lost + (2 * s.rem + bit) / 2 ^ b)
    rw [hsum, Nat.mul_add]
    omega

theorem lost_step : (s.step b d bit).lost = 2 * s.lost + (2 * s.rem + bit) / 2 ^ b := by
  unfold Narrow.step
  split_ifs <;> rfl

theorem Holds.lost_step_le (h : Holds b d H s) (hd : d < 2 ^ b) (hbit : bit < 2) :
    (s.step b d bit).lost ≤ 2 * s.lost + 1 := by
  have hlt := h.rem_lt
  have hone : (2 * s.rem + bit) / 2 ^ b ≤ 1 := by
    rw [← Nat.lt_succ_iff]
    apply Nat.div_lt_of_lt_mul
    omega
  rw [lost_step]
  omega

/-- as long as nothing is lost, the registers are those of a division -/
theorem Holds.exact (h : Holds b d H s) (hlost : s.lost = 0) : s.rem = H % d ∧ s.quo = H / d := by
  have hpos : 0 < d := lt_of_le_of_lt (Nat.zero_le _) h.rem_lt
  have hsum := h.sum
  rw [hlost, Nat.mul_zero, Nat.add_zero, Nat.mul_comm] at hsum
  rw [hsum, Nat.mul_add_mod, Nat.mod_eq_of_lt h.rem_lt, Nat.mul_add_div hpos, Nat.div_eq_of_lt h.rem_lt]
  exact ⟨rfl, rfl⟩

/-- with the right remainder and the right low half of the quotient, the quotient is short by a multiple of `2 ^ b`, and
the divisor times that multiple is what was lost -/
theorem Holds.short (h : Holds b d H s) (hrem : s.rem = H % d) (hquo : s.quo % 2 ^ b = H / d % 2 ^ b) :
    ∃ m, H / d = s.quo + 2 ^ b * m ∧ s.lost = d * m := by
  have hpos : 0 < d := lt_of_le_of_lt (Nat.zero_le _) h.rem_lt
  have hsum := h.sum
  have hdiv := Nat.div_add_mod H d
  rw [hrem] at hsum
  have hle : s.quo ≤ H / d := by
    rw [Nat.le_div_iff_mul_le hpos]
    omega
  obtain ⟨m, hm⟩ := (Nat.modEq_iff_dvd' hle).1 hquo
  refine ⟨m, by omega, ?_⟩
  apply Nat.eq_of_mul_eq_mul_left (Nat.two_pow_pos b)
  have heq : d * (H / d) = s.quo * d + 2 ^ b * (d * m) := by
    rw [show H / d = s.quo + 2 ^ b * m by omega]
    ring
  omega

end Step

section Run

variable {b d w n : ℕ}

theorem run_holds (hpos : 0 < d) (hn : n < 2 ^ w) {k : ℕ} (hk : k ≤ w) :
    Holds b d (n / 2 ^ (w - k)) (run b d w n k) := by
  induction k with
  | zero => exact ⟨by simp [run, Nat.div_eq_of_lt hn], hpos⟩
  | succ k ih =>
    have hnext := div_pow_succ n (w - (k + 1))
    rw [show w - (k + 1) + 1 = w - k by omega] at hnext
    rw [hnext]
    exact (ih (by omega)).step (Nat.mod_lt _ (by decide))

/-- **When nothing is lost**: the top bit of no remainder that is shifted is set. -/
theorem lost_eq_zero_iff (hpos : 0 < d) (hn : n < 2 ^ w) (hb : 0 < b) {k : ℕ} (hk : k ≤ w) :
    (run b d w n k).lost = 0 ↔ ∀ j < k, n / 2 ^ (w - j) % d < 2 ^ (b - 1) := by
  induction k with
  | zero => simp [run]
  | succ k ih =>
    have hpow : 2 ^ b = 2 * 2 ^ (b - 1) := by rw [← pow_succ', Nat.sub_add_cancel hb]
    have hbit : n / 2 ^ (w - (k + 1)) % 2 < 2 := Nat.mod_lt _ (by decide)
    have hholds : Holds b d (n / 2 ^ (w - k)) (run b d w n k) := run_holds hpos hn (by omega)
    have hzero : (run b d w n (k + 1)).lost = 0 ↔
        (run b d w n k).lost = 0 ∧ 2 * (run b d w n k).rem + n / 2 ^ (w - (k + 1)) % 2 < 2 ^ b := by
      rw [run, lost_step, Nat.add_eq_zero_iff, Nat.div_eq_zero_iff]
      simp
    rw [hzero, ih (by omega)]
    constructor
    · rintro ⟨hbefore, hnow⟩ j hj
      rcases Nat.lt_succ_iff_lt_or_eq.1 hj with hlt | rfl
      · exact hbefore j hlt
      · rw [← (hholds.exact ((ih (by omega)).2 hbefore)).1]
        omega
    · intro h
      have hbefore : ∀ j < k, n / 2 ^ (w - j) % d < 2 ^ (b - 1) := fun j hj => h j (Nat.lt_succ_of_lt hj)
      refine ⟨hbefore, ?_⟩
      have hnow := h k (Nat.lt_succ_self k)
      rw [← (hholds.exact ((ih (by omega)).2 hbefore)).1] at hnow
      omega

/-- what the later bits can add -/
theorem lost_run_lt (hpos : 0 < d) (hd : d < 2 ^ b) (hn : n < 2 ^ w) {k m : ℕ} (hkm : k + m ≤ w) :
    (run b d w n (k + m)).lost < 2 ^ m * ((run b d w n k).lost + 1) := by
  induction m with
  | zero => simp
  | succ m ih =>
    have hstep : (run b d w n (k + m + 1)).lost ≤ 2 * (run b d w n (k + m)).lost + 1 :=
      (run_holds hpos hn (by omega)).lost_step_le hd (Nat.mod_lt _ (by decide))
    have hbefore := ih (by omega)
    rw [pow_succ, Nat.mul_comm (2 ^ m) 2, Nat.mul_assoc, ← Nat.add_assoc]
    omega

/-- where the divisor fits into the top half, the first step of the bottom half loses nothing, and the rest less than
the divisor -/
theorem lost_lt_of_le (hpos : 0 < d) (hd : d < 2 ^ b) (hn : n < 2 ^ (b + b)) (hle : d ≤ n / 2 ^ b) :
    (run b d (b + b) n (b + b)).lost < 2 ^ (b - 1) := by
  have hb : 0 < b := by
    rw [Nat.pos_iff_ne_zero]
    rintro rfl
    omega
  have hpow : 2 ^ b = 2 * 2 ^ (b - 1) := by rw [← pow_succ', Nat.sub_add_cancel hb]
  have htop : n / 2 ^ b < 2 ^ b := Nat.div_lt_of_lt_mul (by rwa [← pow_add])
  have hzero : (run b d (b + b) n (b + 1)).lost = 0 := by
    rw [lost_eq_zero_iff hpos hn hb (by omega)]
    intro j hj
    rcases Nat.lt_succ_iff_lt_or_eq.1 hj with hlt | rfl
    · -- in the top half the remainder has at most as many bits as there were steps
      have hprefix : n / 2 ^ (b + b - j) < 2 ^ j := by
        apply Nat.div_lt_of_lt_mul
        rwa [← pow_add, show b + b - j + j = b + b by omega]
      exact lt_of_le_of_lt (Nat.mod_le _ _) (lt_of_lt_of_le hprefix (Nat.pow_le_pow_right (by decide) (by omega)))
    · have hmod := Nat.mod_lt (n / 2 ^ j) hpos
      have hdiv := Nat.div_add_mod (n / 2 ^ j) d
      have hquo : d * 1 ≤ d * (n / 2 ^ j / d) := Nat.mul_le_mul_left d (Nat.div_pos hle hpos)
      rw [Nat.add_sub_cancel]
      omega
  have hlt := lost_run_lt hpos hd hn (k := b + 1) (m := b - 1) (by omega)
  rwa [hzero, Nat.zero_add, Nat.mul_one, show b + 1 + (b - 1) = b + b by omega] at hlt

/-- something is lost only under a divisor above the half of the register -/
theorem half_lt_of_lost (hpos : 0 < d) (hn : n < 2 ^ w) (hb : 0 < b) {k : ℕ} (hk : k ≤ w)
    (hlost : (run b d w n k).lost ≠ 0) :
    2 ^ (b - 1) < d := by
  by_contra hnot
  refine hlost ((lost_eq_zero_iff hpos hn hb hk).2 fun j _ => ?_)
  exact lt_of_lt_of_le (Nat.mod_lt _ hpos) (Nat.le_of_not_lt hnot)

/-- **When the result is right**, for a dividend of twice the bits: exactly when nothing is lost. -/
theorem exact_iff (hpos : 0 < d) (hd : d < 2 ^ b) (hn : n < 2 ^ (b + b)) :
    ((run b d (b + b) n (b + b)).rem = n % d ∧ (run b d (b + b) n (b + b)).quo % 2 ^ b = n / d % 2 ^ b) ↔
      (run b d (b + b) n (b + b)).lost = 0 := by
  have hholds : Holds b d n (run b d (b + b) n (b + b)) := by simpa using run_holds (k := b + b) hpos hn (le_refl _)
  constructor
  · rintro ⟨hrem, hquo⟩
    obtain ⟨m, hm, hlost⟩ := hholds.short hrem hquo
    by_contra hne
    have hm0 : 0 < m := by
      rw [Nat.pos_iff_ne_zero]
      rintro rfl
      exact hne hlost
    rcases Nat.lt_or_ge (n / 2 ^ b) d with hlt | hge
    · -- the quotient fits, so that nothing can be missing
      have hq : n / d < 2 ^ b := by
        rw [Nat.div_lt_iff_lt_mul hpos, Nat.mul_comm]
        rwa [Nat.div_lt_iff_lt_mul (Nat.two_pow_pos b)] at hlt
      have hone : 2 ^ b * 1 ≤ 2 ^ b * m := Nat.mul_le_mul_left _ hm0
      omega
    · -- less is lost than the divisor
      have hb : 0 < b := by
        rw [Nat.pos_iff_ne_zero]
        rintro rfl
        omega
      have hbig := half_lt_of_lost hpos hn hb (le_refl _) hne
      have hsmall := lost_lt_of_le hpos hd hn hge
      have hone : d * 1 ≤ d * m := Nat.mul_le_mul_left d hm0
      omega
  · intro hlost
    obtain ⟨hrem, hquo⟩ := hholds.exact hlost
    rw [hrem, hquo]
    exact ⟨rfl, rfl⟩

end Run

end Narrow

end Vsync.Restoring
