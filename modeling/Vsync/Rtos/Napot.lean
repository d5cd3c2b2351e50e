/-
The naturally aligned regions of `pmp_unit.sv`.

- `TrailingOnes`: the low 30 bits of a `pmpaddr` end in a zero and `k` ones.
- `napotBase`, `NapotRegion`: the region of `2 ^ (k + 3)` bytes that the encoding stands for.
- `napot_half`: the mask compares the zero as well, so the entry matches the lower half of the region only.
- `napot_iff`: the entry answers by the encoding exactly for the addresses outside the upper half.
Failing input:
- `napot_upper`: `pmpaddr` 0 stands for the 8 bytes from 0; the word at 4 does not match.
-/
import Vsync.Rtos.PmpUnit

namespace Vsync

/-- the low 30 bits of the word end in exactly `k` ones -/
structure TrailingOnes (p : Word) (k : ℕ) : Prop where
  bound : k < 30
  ones : ∀ j < k, p.getLsbD j = true
  zero : p.getLsbD k = false

/-- the address register with its trailing ones and their zero cleared, in bytes -/
def napotBase (p : Word) (k : ℕ) : ℕ := (low30 p).toNat / 2 ^ (k + 1) * 2 ^ (k + 3)

/-- the naturally aligned region of `2 ^ (k + 3)` bytes -/
def NapotRegion (p : Word) (k : ℕ) (a : Word) : Prop :=
  napotBase p k ≤ a.toNat ∧ a.toNat < napotBase p k + 2 ^ (k + 3)

/-- the upper half of that region -/
def NapotUpper (p : Word) (k : ℕ) (a : Word) : Prop :=
  napotBase p k + 2 ^ (k + 2) ≤ a.toNat ∧ a.toNat < napotBase p k + 2 ^ (k + 3)

/-! ## The mask -/

/-- `found` after `n` rounds -/
theorem napot_found (p : Word) (n : ℕ) :
    ((List.range n).foldl (napotStep p) (0, false)).2 = true ↔ ∃ j < n, p.getLsbD j = false := by
  induction n with
  | zero => simp
  | succ n ih =>
    rw [List.range_succ, List.foldl_concat, napotStep, Bool.or_eq_true, ih, Bool.not_eq_true']
    constructor
    · rintro (⟨j, hj, h⟩ | h)
      · exact ⟨j, Nat.lt_succ_of_lt hj, h⟩
      · exact ⟨n, Nat.lt_succ_self n, h⟩
    · rintro ⟨j, hj, h⟩
      rcases (Nat.le_of_lt_succ hj).lt_or_eq with hj | rfl
      · exact .inl ⟨j, hj, h⟩
      · exact .inr h

/-- `mask` after `n` rounds: the bits from the first zero on -/
theorem napot_mask (p : Word) (n b : ℕ) (hn : n ≤ 32) :
    ((List.range n).foldl (napotStep p) (0, false)).1.getLsbD b = true ↔ b < n ∧ ∃ j ≤ b, p.getLsbD j = false := by
  induction n with
  | zero => simp
  | succ n ih =>
    have hfound := napot_found p (n + 1)
    rw [List.range_succ, List.foldl_concat] at hfound ⊢
    rw [napotStep] at hfound ⊢
    have hbit : (BitVec.twoPow 32 n).getLsbD b = decide (b = n) := by
      rw [BitVec.getLsbD_twoPow, decide_eq_true (by omega : n < 32), Bool.true_and]
      exact decide_eq_decide.2 eq_comm
    dsimp only at hfound ⊢
    split
    case isTrue h =>
      rw [BitVec.getLsbD_or, Bool.or_eq_true, ih (by omega), hbit, decide_eq_true_iff]
      constructor
      · rintro (⟨hb, hz⟩ | rfl)
        · exact ⟨by omega, hz⟩
        · obtain ⟨j, hj, hz⟩ := hfound.1 h
          exact ⟨by omega, j, by omega, hz⟩
      · rintro ⟨hb, hz⟩
        rcases (Nat.le_of_lt_succ hb).lt_or_eq with hb | hb
        · exact .inl ⟨hb, hz⟩
        · exact .inr hb
    case isFalse h =>
      rw [ih (by omega)]
      refine ⟨fun ⟨hb, hz⟩ => ⟨by omega, hz⟩, fun ⟨hb, j, hj, hz⟩ => ?_⟩
      exact absurd (hfound.2 ⟨j, by omega, hz⟩) h

variable {p : Word} {k : ℕ}

/-- the first zero is where the trailing ones end -/
theorem TrailingOnes.le_of_zero (h : TrailingOnes p k) {j : ℕ} (hz : p.getLsbD j = false) : k ≤ j := by
  by_contra hj
  rw [h.ones j (not_le.1 hj)] at hz
  exact absurd hz (by simp)

/-- the mask keeps the zero behind the trailing ones, and all bits above it -/
theorem getLsbD_napotMask (h : TrailingOnes p k) {b : ℕ} (hb : b < 32) :
    (napotMask p).getLsbD b = decide (k ≤ b) := by
  have hk := h.bound
  have hfound := (napot_found p 32).2 ⟨k, by omega, h.zero⟩
  rw [napotMask, if_pos hfound, Bool.eq_iff_iff, napot_mask p 32 b (le_refl 32), decide_eq_true_iff]
  refine ⟨fun ⟨_, j, hj, hz⟩ => (h.le_of_zero hz).trans hj, fun hkb => ⟨hb, k, hkb, h.zero⟩⟩

/-! ## The match -/

/-- two words agree under the mask when they agree above the trailing ones -/
theorem masked_eq_iff (h : TrailingOnes p k) (x y : BitVec 30) :
    x &&& low30 (napotMask p) = y &&& low30 (napotMask p) ↔ x.toNat / 2 ^ k = y.toNat / 2 ^ k := by
  have hmask (b : ℕ) (hb : b < 30) : (low30 (napotMask p)).getLsbD b = decide (k ≤ b) := by
    rw [low30, BitVec.getLsbD_extractLsb', decide_eq_true hb, Bool.true_and, Nat.zero_add]
    exact getLsbD_napotMask h (by omega)
  rw [← Nat.shiftRight_eq_div_pow, ← Nat.shiftRight_eq_div_pow, ← BitVec.toNat_ushiftRight,
    ← BitVec.toNat_ushiftRight, BitVec.toNat_inj]
  constructor
  · intro he
    apply BitVec.eq_of_getLsbD_eq
    intro b hb
    rw [BitVec.getLsbD_ushiftRight, BitVec.getLsbD_ushiftRight]
    rcases Nat.lt_or_ge (k + b) 30 with hkb | hkb
    · have := congrArg (fun z => z.getLsbD (k + b)) he
      simpa only [BitVec.getLsbD_and, hmask _ hkb, Nat.le_add_right, decide_true, Bool.and_true] using this
    · rw [BitVec.getLsbD_of_ge _ _ hkb, BitVec.getLsbD_of_ge _ _ hkb]
  · intro he
    apply BitVec.eq_of_getLsbD_eq
    intro b hb
    rw [BitVec.getLsbD_and, BitVec.getLsbD_and, hmask b hb]
    by_cases hkb : k ≤ b
    · have := congrArg (fun z => z.getLsbD (b - k)) he
      simp only [BitVec.getLsbD_ushiftRight, Nat.add_sub_cancel' hkb] at this
      rw [this]
    · simp [hkb]

/-- above the trailing ones there is a zero -/
theorem TrailingOnes.shifted (h : TrailingOnes p k) :
    (low30 p).toNat / 2 ^ k = 2 * ((low30 p).toNat / 2 ^ (k + 1)) := by
  have hbit : (low30 p).toNat.testBit k = false := by
    have : (low30 p).getLsbD k = false := by
      rw [low30, BitVec.getLsbD_extractLsb', Nat.zero_add, h.zero, Bool.and_false]
    exact this
  have heven : (low30 p).toNat / 2 ^ k % 2 = 0 := by
    rw [Nat.testBit_eq_decide_div_mod_eq] at hbit
    have := of_decide_eq_false hbit
    omega
  have hdiv : (low30 p).toNat / 2 ^ (k + 1) = (low30 p).toNat / 2 ^ k / 2 := by
    rw [pow_succ, Nat.div_div_eq_div_mul]
  omega

variable {u : PmpUnit} {i : Fin 8}

/-- a NAPOT entry matches the lower half of its region -/
theorem napot_half (hmode : u.mode i = 0b11#2) (h : TrailingOnes (u.pmpaddr i) k) (a : Word) :
    u.regionMatch a i = true ↔ napotBase (u.pmpaddr i) k ≤ a.toNat ∧
      a.toNat < napotBase (u.pmpaddr i) k + 2 ^ (k + 2) := by
  have hword : (a.extractLsb' 2 30).toNat / 2 ^ k = a.toNat / 2 ^ (k + 2) := by
    have : (a.extractLsb' 2 30).toNat = a.toNat / 4 := by
      rw [BitVec.extractLsb'_toNat, Nat.shiftRight_eq_div_pow]
      omega
    rw [this, Nat.div_div_eq_div_mul, pow_add, mul_comm]
    norm_num
  rw [PmpUnit.regionMatch, hmode, if_neg (by decide), if_neg (by decide), if_pos rfl, beq_iff_eq, masked_eq_iff h,
    hword, h.shifted, napotBase]
  have hpos : 0 < 2 ^ (k + 2) := by positivity
  have hpow : (low30 (u.pmpaddr i)).toNat / 2 ^ (k + 1) * 2 ^ (k + 3) =
      2 * ((low30 (u.pmpaddr i)).toNat / 2 ^ (k + 1)) * 2 ^ (k + 2) := by
    rw [pow_succ 2 (k + 2)]
    ring
  rw [hpow, Nat.div_eq_iff hpos]
  omega

/-- a NAPOT entry answers by the encoding of its address register outside the upper half of the region -/
theorem napot_iff (u : PmpUnit) (i : Fin 8) (k : ℕ) (hmode : u.mode i = 0b11#2) (h : TrailingOnes (u.pmpaddr i) k)
    (a : Word) :
    (u.regionMatch a i = true ↔ NapotRegion (u.pmpaddr i) k a) ↔ ¬ NapotUpper (u.pmpaddr i) k a := by
  have hpow : 2 ^ (k + 3) = 2 ^ (k + 2) + 2 ^ (k + 2) := by rw [pow_succ 2 (k + 2), mul_two]
  have hpos : 0 < 2 ^ (k + 2) := by positivity
  rw [napot_half hmode h, NapotRegion, NapotUpper, hpow]
  omega

/-- entry 0 in NAPOT mode, address register 0 -/
def firstBytes : PmpUnit := ⟨fun i => if i = 0 then 0x1f#8 else 0, fun _ => 0⟩

/-- the witness: the word at 0 is in the lower half and matches -/
theorem firstBytes_low :
    (firstBytes.regionMatch 0 0 = true ↔ NapotRegion 0 0 0) ↔ ¬ NapotUpper 0 0 0 :=
  napot_iff firstBytes 0 0 (by decide) ⟨by decide, fun _ h => absurd h (Nat.not_lt_zero _), by decide⟩ 0

/-- eight bytes from 0, and the word at 4 does not match -/
theorem napot_upper : ¬ ∀ (u : PmpUnit) (i : Fin 8) (k : ℕ), u.mode i = 0b11#2 → TrailingOnes (u.pmpaddr i) k →
    ∀ a, u.regionMatch a i = true ↔ NapotRegion (u.pmpaddr i) k a := by
  intro h
  have hones : TrailingOnes (firstBytes.pmpaddr 0) 0 := ⟨by decide, fun _ h => absurd h (Nat.not_lt_zero _), by decide⟩
  have hmatch := (h firstBytes 0 0 (by decide) hones 4#32).2 ⟨by decide, by decide⟩
  exact absurd hmatch (by decide +kernel)

end Vsync
