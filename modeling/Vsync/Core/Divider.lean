/-
The divider computes the RV32M results.

- `Rv32m.divide`: the results of `DIV`, `DIVU`, `REM` and `REMU`, with their special cases.
- `Divides`, `step_divides`: the divider's registers are those of a restoring division of its latched operands.
- `divResult_eq`: a finished division has the RV32M result of its latched operands.
-/
import Vsync.Core.MulDiv
import Vsync.Restoring

namespace Vsync

def Rv32m.divide (op : MextOp) (a b : Word) : Word :=
  match op with
  | .div => if b = 0 then 0xFFFFFFFF else a.sdiv b
  | .divu => if b = 0 then 0xFFFFFFFF else a / b
  | .rem => if b = 0 then a else a.srem b
  | .remu => if b = 0 then a else a % b
  | _ => 0

namespace MulDiv

open Restoring

/-! ## The special cases -/

theorem byZeroResult_eq {op : MextOp} {a b : Word} (h : divByZero b = true) :
    byZeroResult op a = Rv32m.divide op a b := by
  have hb : b = 0 := by simpa [divByZero] using h
  subst hb
  cases op <;> rfl

theorem overflowResult_eq {op : MextOp} {a b : Word} (h : divOverflow op a b = true) :
    overflowResult op = Rv32m.divide op a b := by
  simp only [divOverflow, Bool.and_eq_true, beq_iff_eq] at h
  obtain ⟨⟨hs, rfl⟩, rfl⟩ := h
  cases op <;> first | (exact absurd hs (by decide)) | decide

/-! ## The iterations -/

/-- the registers are those of a division of the latched operands -/
def Divides (u : MulDiv) : Prop :=
  match u.state with
  | .idle => True
  | .calc => isMulOp u.op = false ∧ 0 < u.divisor.toNat ∧ u.divisor = absOf u.op u.operandB ∧
      After 32 (absOf u.op u.operandA).toNat u.divisor.toNat u.count.toNat u.remainder.toNat u.quotient.toNat
  | _ => isMulOp u.op = false ∧ u.operandB ≠ 0 ∧
      u.remainder.toNat = (absOf u.op u.operandA).toNat % (absOf u.op u.operandB).toNat ∧
      u.quotient.toNat = (absOf u.op u.operandA).toNat / (absOf u.op u.operandB).toNat

theorem absOf_eq_zero (op : MextOp) (x : Word) : absOf op x = 0 ↔ x = 0 := by
  unfold absOf
  split_ifs
  · constructor
    · intro h
      bv_omega
    · rintro rfl
      rfl
  · rfl

theorem remainder_lt {w n d k r q : ℕ} (h : After w n d k r q) (hd : 0 < d) : r < d := by
  rw [h.rem]
  exact Nat.mod_lt _ hd

section Iterate

variable {u : MulDiv}

/-- the remainder with the next bit of the dividend -/
theorem shifted_toNat (h : u.remainder.toNat < 2 ^ 32) :
    (u.remainder.setWidth 32 ++ u.quotient.extractLsb' 31 1 : BitVec 33).toNat =
      2 * u.remainder.toNat + u.quotient.toNat / 2 ^ 31 := by
  have hq := u.quotient.isLt
  rw [BitVec.toNat_append, BitVec.toNat_setWidth, BitVec.extractLsb'_toNat, Nat.mod_eq_of_lt h,
    Nat.shiftRight_eq_div_pow, Nat.shiftLeft_eq]
  have hb : u.quotient.toNat / 2 ^ 31 < 2 ^ 1 := by omega
  rw [Nat.mod_eq_of_lt hb, ← Nat.shiftLeft_eq, ← Nat.shiftLeft_add_eq_or_of_lt hb, Nat.shiftLeft_eq]
  omega

theorem shiftedIn_toNat (q : Word) (b : BitVec 1) :
    (q.extractLsb' 0 31 ++ b : BitVec 32).toNat = 2 * (q.toNat % 2 ^ 31) + b.toNat := by
  rw [BitVec.toNat_append, BitVec.extractLsb'_toNat, Nat.shiftRight_zero, ← Nat.shiftLeft_add_eq_or_of_lt b.isLt,
    Nat.shiftLeft_eq]
  omega

/-- one iteration is one step of the restoring division -/
theorem iterate_after {n : ℕ} (hn : n < 2 ^ 32) (hd : 0 < u.divisor.toNat)
    (h : After 32 n u.divisor.toNat u.count.toNat u.remainder.toNat u.quotient.toNat) :
    After 32 n u.divisor.toNat (u.count.toNat + 1) u.iterate.remainder.toNat u.iterate.quotient.toNat := by
  have hrem := remainder_lt h hd
  have hdiv := u.divisor.isLt
  have hk : u.count.toNat < 32 := u.count.isLt
  have hshift := shifted_toNat (u := u) (by omega)
  have hle : u.divisor.setWidth 33 ≤ (u.remainder.setWidth 32 ++ u.quotient.extractLsb' 31 1 : BitVec 33) ↔
      u.divisor.toNat ≤ 2 * u.remainder.toNat + u.quotient.toNat / 2 ^ 31 := by
    rw [BitVec.le_def, hshift, BitVec.toNat_setWidth, Nat.mod_eq_of_lt (by omega)]
  unfold iterate
  by_cases hc : u.divisor.toNat ≤ 2 * u.remainder.toNat + u.quotient.toNat / 2 ^ 31
  · rw [if_pos (hle.2 hc)]
    have hs := h.subtract hk hn hd hc
    have hsub : (u.remainder.setWidth 32 ++ u.quotient.extractLsb' 31 1 - u.divisor.setWidth 33 : BitVec 33).toNat =
        2 * u.remainder.toNat + u.quotient.toNat / 2 ^ 31 - u.divisor.toNat := by
      rw [BitVec.toNat_sub_of_le (hle.2 hc), hshift, BitVec.toNat_setWidth, Nat.mod_eq_of_lt (by omega)]
    simp only [hsub, shiftedIn_toNat]
    exact hs
  · rw [if_neg fun hn => hc (hle.1 hn)]
    have hs := h.restore hk hn hd (by omega)
    simp only [hshift, shiftedIn_toNat]
    exact hs

theorem iterate_eq (u : MulDiv) : ∃ r q, u.iterate = { u with
    state := if u.count = 31 then .done else .calc, count := u.count + 1, remainder := r, quotient := q } := by
  unfold iterate
  by_cases h : u.divisor.setWidth 33 ≤ (u.remainder.setWidth 32 ++ u.quotient.extractLsb' 31 1 : BitVec 33)
  · exact ⟨_, _, if_pos h⟩
  · exact ⟨_, _, if_neg h⟩

end Iterate

/-- **The divider divides its latched operands.** -/
theorem step_divides {u : MulDiv} (start : Bool) (op : MextOp) (a b : Word) (h : Divides u) :
    Divides (u.step start op a b) := by
  rcases hs : u.state with _ | _ | _ | _
  · -- a division may start
    unfold step
    rw [hs]
    dsimp only
    split_ifs with hc
    · simp only [Bool.and_eq_true, Bool.not_eq_true'] at hc
      obtain ⟨⟨⟨-, hmul⟩, hzero⟩, -⟩ := hc
      have hb : b ≠ 0 := by simpa [divByZero] using hzero
      have hpos : 0 < (absOf op b).toNat := by
        apply Nat.pos_of_ne_zero
        intro hz
        exact hb ((absOf_eq_zero op b).1 (BitVec.eq_of_toNat_eq hz))
      exact ⟨hmul, hpos, rfl, After.start (absOf op a).isLt⟩
    · exact h
  · have hstep : u.step start op a b = u.iterate := by simp [step, hs]
    rw [hstep]
    rw [Divides, hs] at h
    obtain ⟨hmul, hpos, hdiv, hafter⟩ := h
    have hnext := iterate_after (absOf u.op u.operandA).isLt hpos hafter
    obtain ⟨r, q, hit⟩ := iterate_eq u
    rw [hit] at hnext ⊢
    by_cases hc : u.count = 31
    · rw [if_pos hc]
      have h32 : u.count.toNat + 1 = 32 := by rw [hc]; rfl
      rw [h32] at hnext
      obtain ⟨hrem, hquo⟩ := hnext.finish
      rw [hdiv] at hrem hquo
      refine ⟨hmul, fun hb => ?_, hrem, hquo⟩
      have hz := (absOf_eq_zero u.op u.operandB).2 hb
      rw [hdiv, hz] at hpos
      exact absurd hpos (by decide)
    · rw [if_neg hc]
      have hcount : (u.count + 1).toNat = u.count.toNat + 1 := by bv_omega
      rw [← hcount] at hnext
      exact ⟨hmul, hpos, hdiv, hnext⟩
  · have hstep : u.step start op a b = { u with state := .hold } := by simp [step, hs]
    rw [hstep]
    rw [Divides, hs] at h
    exact h
  · have hstep : u.step start op a b = { u with state := .idle } := by simp [step, hs]
    rw [hstep]
    trivial

/-- the unit has finished a division -/
def Finished (u : MulDiv) : Prop := u.state = .done ∨ u.state = .hold

instance (u : MulDiv) : Decidable u.Finished := by unfold Finished; infer_instance

/-- **A finished division has the RV32M result of its latched operands.** -/
theorem divResult_eq {u : MulDiv} (h : Divides u) (hf : u.Finished) :
    u.divResult = Rv32m.divide u.op u.operandA u.operandB := by
  have hd : isMulOp u.op = false ∧ u.operandB ≠ 0 ∧
      u.remainder.toNat = (absOf u.op u.operandA).toNat % (absOf u.op u.operandB).toNat ∧
      u.quotient.toNat = (absOf u.op u.operandA).toNat / (absOf u.op u.operandB).toNat := by
    rcases hf with hs | hs <;> · rw [Divides, hs] at h; exact h
  obtain ⟨hmul, hb, hrem, hquo⟩ := hd
  have hq : u.quotient = absOf u.op u.operandA / absOf u.op u.operandB := by
    apply BitVec.eq_of_toNat_eq
    rw [hquo, BitVec.toNat_udiv]
  have hr : u.remainder.setWidth 32 = absOf u.op u.operandA % absOf u.op u.operandB := by
    apply BitVec.eq_of_toNat_eq
    rw [BitVec.toNat_setWidth, hrem, BitVec.toNat_umod, Nat.mod_eq_of_lt]
    exact lt_of_le_of_lt (Nat.mod_le _ _) (absOf u.op u.operandA).isLt
  have hneg (x : Word) : ~~~x + 1 = -x := (BitVec.neg_eq_not_add x).symm
  unfold divResult signedQuotient signedRemainder Rv32m.divide
  rw [hq, hr]
  cases hop : u.op with
  | div =>
    simp only [isSignedDiv, absOf, hneg, if_neg hb, BitVec.sdiv]
    cases u.operandA.msb <;> cases u.operandB.msb <;> simp
  | divu =>
    simp only [isSignedDiv, absOf, if_neg hb]
    rfl
  | rem =>
    simp only [isSignedDiv, absOf, hneg, if_neg hb, BitVec.srem]
    cases u.operandA.msb <;> cases u.operandB.msb <;> simp
  | remu =>
    simp only [isSignedDiv, absOf, if_neg hb]
    rfl
  | _ => simp [hop, isMulOp] at hmul

end MulDiv

end Vsync
