/-
`div64by32` of the shell: bit-by-bit long division of a 64-bit value by a 32-bit divisor, in 32-bit words.

- `DivState.scan`: the loop over one word; `scan_run`: it is the restoring division with a remainder of 32 bits.
- `div64by32_exact_iff`: **when the remainder and the low word of the quotient are right.** The remainder is shifted in
  32 bits, so a divisor above `2 ^ 31` can lose its top bit.
-/
import Vsync.Pkg
import Vsync.Restoring

namespace Vsync.Shell

open Restoring

/-- `rem` and the quotient word of a loop -/
structure DivState where
  rem : Word
  q : Word
  deriving DecidableEq, Repr

namespace DivState

section Loop

variable (word divisor : Word)

def bit (s : DivState) (i : ℕ) : DivState :=
  let rem := (s.rem <<< 1) ||| ((word >>> i) &&& 1#32)
  if divisor ≤ rem then ⟨rem - divisor, s.q ||| (1#32 <<< i)⟩ else ⟨rem, s.q⟩

def scan : ℕ → DivState → DivState
  | 0, s => s
  | i + 1, s => scan i (s.bit word divisor i)

end Loop

theorem shift_in (r word : Word) (i : ℕ) :
    ((r <<< 1) ||| ((word >>> i) &&& 1#32)).toNat = (2 * r.toNat + word.toNat / 2 ^ i % 2) % 2 ^ 32 := by
  have hshift : (r <<< 1).toNat = (r.toNat % 2 ^ 31) <<< 1 := by
    rw [BitVec.toNat_shiftLeft, Nat.shiftLeft_eq, Nat.shiftLeft_eq]
    omega
  have hbit : ((word >>> i) &&& 1#32).toNat = word.toNat / 2 ^ i % 2 := by
    rw [BitVec.toNat_and, BitVec.toNat_ushiftRight, Nat.shiftRight_eq_div_pow]
    exact Nat.and_one_is_mod _
  have hlt : word.toNat / 2 ^ i % 2 < 2 ^ 1 := Nat.mod_lt _ (by decide)
  rw [BitVec.toNat_or, hshift, hbit, ← Nat.shiftLeft_add_eq_or_of_lt hlt, Nat.shiftLeft_eq]
  omega

theorem set_bit (q : Word) {i : ℕ} (hi : i < 32) {m : ℕ} (hq : q.toNat = m * 2 ^ (i + 1)) :
    (q ||| (1#32 <<< i)).toNat = (2 * m + 1) * 2 ^ i := by
  have hone : (1#32 <<< i).toNat = 2 ^ i := by
    rw [BitVec.toNat_shiftLeft, Nat.shiftLeft_eq]
    exact (Nat.one_mul _).symm ▸ Nat.mod_eq_of_lt (Nat.pow_lt_pow_right (by decide) hi)
  have hlt : 2 ^ i < 2 ^ (i + 1) := Nat.pow_lt_pow_right (by decide) (Nat.lt_succ_self i)
  rw [BitVec.toNat_or, hone, hq, ← Nat.shiftLeft_eq, ← Nat.shiftLeft_add_eq_or_of_lt hlt, Nat.shiftLeft_eq, pow_succ]
  ring

section Refine

variable {word divisor : Word} {n o : ℕ}

/-- the registers before bit `i - 1` of a word, whose bits are those of `n` from bit `o` on -/
structure Tracks (divisor : Word) (n o i : ℕ) (s : DivState) : Prop where
  rem : s.rem.toNat = (Narrow.run 32 divisor.toNat 64 n (64 - o - i)).rem
  quo : s.q.toNat = (Narrow.run 32 divisor.toNat 64 n (64 - o - i)).quo % 2 ^ (32 - i) * 2 ^ i

/-- **One bit** of the code is one step of the division. -/
theorem Tracks.bit {s : DivState} {i : ℕ} (h : Tracks divisor n o (i + 1) s) (hi : i < 32) (ho : o ≤ 32)
    (hbits : n / 2 ^ (o + i) % 2 = word.toNat / 2 ^ i % 2) : Tracks divisor n o i (s.bit word divisor i) := by
  have hk : 64 - o - i = (64 - o - (i + 1)) + 1 := by omega
  have hpos : 64 - (64 - o - (i + 1) + 1) = o + i := by omega
  have hw : 32 - i = 32 - (i + 1) + 1 := by omega
  have hrem := h.rem
  have hquo := h.quo
  have hshift := shift_in s.rem word i
  have hmod (Q c : ℕ) (hc : c < 2) : (2 * Q + c) % 2 ^ (32 - i) = 2 * (Q % 2 ^ (32 - (i + 1))) + c := by
    have hdiv : (2 * Q + c) / 2 = Q := by omega
    rw [hw, pow_succ', Nat.mod_mul, hdiv]
    omega
  rw [hrem] at hshift
  generalize hrun : Narrow.run 32 divisor.toNat 64 n (64 - o - (i + 1)) = t at *
  have hstep : Narrow.run 32 divisor.toNat 64 n (64 - o - i) = t.step 32 divisor.toNat (word.toNat / 2 ^ i % 2) := by
    rw [hk, Narrow.run, hrun, hpos, hbits]
  unfold DivState.bit
  dsimp only
  split_ifs with hle
  · rw [BitVec.le_def, hshift] at hle
    have hsub : (((s.rem <<< 1) ||| ((word >>> i) &&& 1#32)) - divisor).toNat =
        (2 * t.rem + word.toNat / 2 ^ i % 2) % 2 ^ 32 - divisor.toNat := by
      rw [BitVec.toNat_sub_of_le (by rw [BitVec.le_def, hshift]; exact hle), hshift]
    constructor
    · rw [hstep, hsub, Narrow.step, if_pos hle]
    · rw [hstep, Narrow.step, if_pos hle, set_bit s.q hi hquo, hmod _ 1 (by decide)]
  · rw [BitVec.le_def, hshift] at hle
    constructor
    · rw [hstep, hshift, Narrow.step, if_neg hle]
    · rw [hstep, Narrow.step, if_neg hle, hquo]
      have := hmod t.quo 0 (by decide)
      rw [Nat.add_zero, Nat.add_zero] at this
      rw [this, pow_succ]
      ring

theorem Tracks.scan {s : DivState} {i : ℕ} (h : Tracks divisor n o i s) (hi : i ≤ 32) (ho : o ≤ 32)
    (hbits : ∀ j < 32, n / 2 ^ (o + j) % 2 = word.toNat / 2 ^ j % 2) :
    Tracks divisor n o 0 (s.scan word divisor i) := by
  induction i generalizing s with
  | zero => exact h
  | succ i ih => exact ih (h.bit hi ho (hbits i hi)) (by omega)

end Refine

end DivState

/-- `q_lo`, which is returned, and what is stored through `remainder` if it is not null -/
structure DivResult where
  quotient : Word
  remainder : Word
  deriving DecidableEq, Repr

/-- `div64by32`; `q_hi` is thrown away -/
def div64by32 (hi lo divisor : Word) : DivResult :=
  let high := DivState.scan hi divisor 32 ⟨0, 0⟩
  let low := DivState.scan lo divisor 32 ⟨high.rem, 0⟩
  ⟨low.q, low.rem⟩

def dividend (hi lo : Word) : ℕ := hi.toNat * 2 ^ 32 + lo.toNat

theorem toNat_pos {d : Word} (hne : d ≠ 0) : 0 < d.toNat := by
  rw [Nat.pos_iff_ne_zero]
  intro h0
  exact hne (BitVec.eq_of_toNat_eq h0)

section Division

variable (hi lo divisor : Word)

theorem dividend_lt : dividend hi lo < 2 ^ (32 + 32) := by
  have h1 := hi.isLt
  have h2 := lo.isLt
  unfold dividend
  omega

theorem dividend_high (j : ℕ) : dividend hi lo / 2 ^ (32 + j) % 2 = hi.toNat / 2 ^ j % 2 := by
  have hdiv : dividend hi lo / 2 ^ 32 = hi.toNat := by
    have h2 := lo.isLt
    unfold dividend
    omega
  rw [pow_add, ← Nat.div_div_eq_div_mul, hdiv]

theorem dividend_low (j : ℕ) (hj : j < 32) : dividend hi lo / 2 ^ (0 + j) % 2 = lo.toNat / 2 ^ j % 2 := by
  have hsplit : dividend hi lo = 2 ^ j * (2 * (hi.toNat * 2 ^ (32 - (j + 1)))) + lo.toNat := by
    have hpow : (2 : ℕ) ^ (j + 1 + (32 - (j + 1))) = 2 ^ 32 := by rw [Nat.add_sub_cancel' hj]
    rw [dividend, ← hpow, pow_add, pow_succ]
    ring
  rw [Nat.zero_add, hsplit, Nat.mul_add_div (by positivity), Nat.mul_add_mod]

/-- **The code is the division with a narrow remainder.** -/
theorem div64by32_run :
    (div64by32 hi lo divisor).remainder.toNat = (Narrow.run 32 divisor.toNat 64 (dividend hi lo) 64).rem ∧
      (div64by32 hi lo divisor).quotient.toNat =
        (Narrow.run 32 divisor.toNat 64 (dividend hi lo) 64).quo % 2 ^ 32 := by
  have hhigh : DivState.Tracks divisor (dividend hi lo) 32 0 (DivState.scan hi divisor 32 ⟨0, 0⟩) := by
    refine DivState.Tracks.scan ⟨?_, ?_⟩ (le_refl 32) (le_refl 32) fun j _ => dividend_high hi lo j
    · rfl
    · simp [Narrow.run]
  have hlow : DivState.Tracks divisor (dividend hi lo) 0 0
      (DivState.scan lo divisor 32 ⟨(DivState.scan hi divisor 32 ⟨0, 0⟩).rem, 0⟩) := by
    refine DivState.Tracks.scan ⟨hhigh.rem, ?_⟩ (le_refl 32) (Nat.zero_le 32) (dividend_low hi lo)
    simp [Nat.mod_one]
  refine ⟨hlow.rem, ?_⟩
  have hquo := hlow.quo
  rwa [pow_zero, Nat.mul_one] at hquo

/-- the exact remainder, and the low word of the exact quotient -/
def DivResult.Exact (r : DivResult) (n d : ℕ) : Prop := r.remainder.toNat = n % d ∧ r.quotient.toNat = n / d % 2 ^ 32

instance (r : DivResult) (n d : ℕ) : Decidable (r.Exact n d) := inferInstanceAs (Decidable (_ ∧ _))

/-- right exactly if nothing is lost -/
theorem exact_iff_lost (hne : divisor ≠ 0) :
    (div64by32 hi lo divisor).Exact (dividend hi lo) divisor.toNat ↔
      (Narrow.run 32 divisor.toNat 64 (dividend hi lo) 64).lost = 0 := by
  obtain ⟨hrem, hquo⟩ := div64by32_run hi lo divisor
  rw [DivResult.Exact, hrem, hquo]
  exact Narrow.exact_iff (toNat_pos hne) divisor.isLt (dividend_lt hi lo)

/-- **When `div64by32` is right**, for every nonzero divisor: exactly if none of the remainders of the leading parts of
the dividend has bit 31 set. -/
theorem div64by32_exact_iff (hne : divisor ≠ 0) :
    (div64by32 hi lo divisor).Exact (dividend hi lo) divisor.toNat ↔
      ∀ j < 64, dividend hi lo / 2 ^ (64 - j) % divisor.toNat < 2 ^ 31 :=
  (exact_iff_lost hi lo divisor hne).trans
    (Narrow.lost_eq_zero_iff (toNat_pos hne) (dividend_lt hi lo) (by decide) (le_refl 64))

/-- up to half the range of a word no divisor loses a bit -/
theorem exact_of_le (hne : divisor ≠ 0) (hle : divisor.toNat ≤ 2 ^ 31) :
    (div64by32 hi lo divisor).Exact (dividend hi lo) divisor.toNat := by
  have hlost := Narrow.lost_eq_zero_iff (toNat_pos hne) (dividend_lt hi lo) (b := 32) (by decide) (le_refl 64)
  rw [exact_iff_lost hi lo divisor hne, hlost]
  intro j _
  exact lt_of_lt_of_le (Nat.mod_lt _ (toNat_pos hne)) hle

end Division

theorem div64by32_wrong : ¬ ∀ hi lo divisor : Word, divisor ≠ 0 →
    (div64by32 hi lo divisor).Exact (dividend hi lo) divisor.toNat := by
  intro h
  have hexact := h 0x80000000 0 0xFFFFFFFF (by decide)
  have hwrong : ¬ (div64by32 0x80000000 0 0xFFFFFFFF).Exact (dividend 0x80000000 0) (0xFFFFFFFF : Word).toNat := by
    decide +kernel
  exact hwrong hexact

theorem div64by32_exact_iff_wrong :
    (div64by32 0x80000000 0 0xFFFFFFFF).Exact (dividend 0x80000000 0) (0xFFFFFFFF : Word).toNat ↔
      ∀ j < 64, dividend 0x80000000 0 / 2 ^ (64 - j) % (0xFFFFFFFF : Word).toNat < 2 ^ 31 :=
  div64by32_exact_iff 0x80000000 0 0xFFFFFFFF (by decide)

end Vsync.Shell
