/-
The operations of `multiplier_divider.sv`, from a start in `DIV_IDLE` until the unit is idle again.

- `Rv32m.value`: the RV32M results, over the integers.
- `Pulsed`: a start, and no other while the unit works.
- `computes`: `done` is up in the first cycle for a multiplication and for the special cases of a division, and
  otherwise in the two cycles behind the 32 iterations; with it comes the RV32M result.
-/
import Vsync.Core.Divider
import Vsync.Core.Effects
import Vsync.Machine

namespace Vsync

def Rv32m.value (op : MextOp) (a b : Word) : Word :=
  match op with
  | .mul => BitVec.ofInt 32 (a.toInt * b.toInt)
  | .mulh => BitVec.ofInt 32 (a.toInt * b.toInt / 2 ^ 32)
  | .mulhsu => BitVec.ofInt 32 (a.toInt * b.toNat / 2 ^ 32)
  | .mulhu => BitVec.ofNat 32 (a.toNat * b.toNat / 2 ^ 32)
  | .div => if b = 0 then BitVec.ofInt 32 (-1) else BitVec.ofInt 32 (a.toInt.tdiv b.toInt)
  | .divu => if b = 0 then BitVec.ofNat 32 (2 ^ 32 - 1) else BitVec.ofNat 32 (a.toNat / b.toNat)
  | .rem => if b = 0 then a else BitVec.ofInt 32 (a.toInt.tmod b.toInt)
  | .remu => if b = 0 then a else BitVec.ofNat 32 (a.toNat % b.toNat)

/-- `start`, `op`, `operand_a`, `operand_b` -/
structure MulDivIn where
  start : Bool
  op : MextOp
  a : Word
  b : Word
  deriving DecidableEq, Repr

namespace MulDiv

open Machine

section Step

variable (u : MulDiv) (i : MulDivIn)

def next : MulDiv := u.step i.start i.op i.a i.b

def output : Option Word := u.result i.start i.op i.a i.b

end Step

def span (op : MextOp) (a b : Word) : ℕ := if immediate op a b then 1 else 35

/-- the cycles of an operation in which `done` is up -/
def DoneIn (op : MextOp) (a b : Word) (k : ℕ) : Prop := if immediate op a b then k = 0 else k = 33 ∨ k = 34

instance (op : MextOp) (a b : Word) (k : ℕ) : Decidable (DoneIn op a b k) := by unfold DoneIn; infer_instance

/-- a start of an idle unit, and no other until the unit is idle again -/
structure Pulsed (u : MulDiv) (ins : ℕ → MulDivIn) (op : MextOp) (a b : Word) : Prop where
  idle : u.state = .idle
  start : ins 0 = ⟨true, op, a, b⟩
  quiet : ∀ k, 0 < k → (∀ j ≤ k, 0 < j → (trace next u ins j).state ≠ .idle) → (ins k).start = false

/-! ## Results -/

theorem sdiv_eq_ofInt (a b : Word) : a.sdiv b = BitVec.ofInt 32 (a.toInt.tdiv b.toInt) := by
  apply BitVec.eq_of_toInt_eq
  rw [BitVec.toInt_sdiv, BitVec.toInt_ofInt]

theorem srem_eq_ofInt (a b : Word) : a.srem b = BitVec.ofInt 32 (a.toInt.tmod b.toInt) := by
  rw [← BitVec.toInt_srem, BitVec.ofInt_toInt]

theorem udiv_eq_ofNat (a b : Word) : a / b = BitVec.ofNat 32 (a.toNat / b.toNat) := by
  apply BitVec.eq_of_toNat_eq
  rw [BitVec.toNat_udiv, BitVec.toNat_ofNat, Nat.mod_eq_of_lt (lt_of_le_of_lt (Nat.div_le_self _ _) a.isLt)]

theorem umod_eq_ofNat (a b : Word) : a % b = BitVec.ofNat 32 (a.toNat % b.toNat) := by
  apply BitVec.eq_of_toNat_eq
  rw [BitVec.toNat_umod, BitVec.toNat_ofNat, Nat.mod_eq_of_lt (lt_of_le_of_lt (Nat.mod_le _ _) a.isLt)]

theorem divide_eq_value {op : MextOp} (h : isMulOp op = false) (a b : Word) :
    Rv32m.divide op a b = Rv32m.value op a b := by
  cases op with
  | div =>
    simp only [Rv32m.divide, Rv32m.value, sdiv_eq_ofInt]
    rfl
  | divu =>
    simp only [Rv32m.divide, Rv32m.value, udiv_eq_ofNat]
    rfl
  | rem => simp only [Rv32m.divide, Rv32m.value, srem_eq_ofInt]
  | remu => simp only [Rv32m.divide, Rv32m.value, umod_eq_ofNat]
  | mul | mulh | mulhsu | mulhu => exact Bool.noConfusion h

theorem mulResult_eq_value {op : MextOp} (h : isMulOp op = true) (a b : Word) :
    mulResult op a b = Rv32m.value op a b := by
  cases op with
  | mul => exact Isa.mulResult_eq .mul a b
  | mulh => exact Isa.mulResult_eq .mulh a b
  | mulhsu => exact Isa.mulResult_eq .mulhsu a b
  | mulhu => exact Isa.mulResult_eq .mulhu a b
  | div | divu | rem | remu => exact Bool.noConfusion h

section Operation

variable {u : MulDiv} {op : MextOp} {a b : Word}

/-- what an operation gives in its first cycle -/
theorem result_start (h : u.state = .idle) :
    u.result true op a b = if immediate op a b then some (Rv32m.value op a b) else none := by
  have hnot : ¬ (u.state = .done ∨ u.state = .hold) := by simp [h]
  cases hmul : isMulOp op with
  | true => simp [result, immediate, hmul, mulResult_eq_value hmul]
  | false =>
    have hvalue := divide_eq_value hmul a b
    cases hzero : divByZero b with
    | true => simp [result, immediate, hmul, hzero, byZeroResult_eq hzero, hvalue]
    | false =>
      cases hover : divOverflow op a b with
      | true => simp [result, immediate, hmul, hzero, hover, overflowResult_eq hover, hvalue]
      | false => simp [result, immediate, hmul, hzero, hover, hnot]

theorem step_start (h : u.state = .idle) :
    u.step true op a b = if immediate op a b then u else ⟨.calc, 0, absOf op a, 0, absOf op b, op, a, b⟩ := by
  cases hmul : isMulOp op <;> cases hzero : divByZero b <;> cases hover : divOverflow op a b <;>
    simp [step, immediate, h, hmul, hzero, hover]

/-- without a start the unit shows a division that is finished -/
theorem result_quiet (op' : MextOp) (a' b' : Word) :
    u.result false op' a' b' = if u.state = .done ∨ u.state = .hold then some u.divResult else none := by
  simp [result]

end Operation

/-! ## A division -/

section Division

variable {u : MulDiv} {ins : ℕ → MulDivIn} {op : MextOp} {a b : Word} {k : ℕ}

/-- the unit is in `st` with a division of `a` by `b` -/
structure Working (op : MextOp) (a b : Word) (st : DivState) (u : MulDiv) : Prop where
  divides : u.Divides
  state : u.state = st
  op : u.op = op
  operandA : u.operandA = a
  operandB : u.operandB = b

theorem Working.result (h : Working op a b .done u ∨ Working op a b .hold u) (hmul : isMulOp op = false) :
    u.divResult = Rv32m.value op a b := by
  rcases h with h | h
  · rw [divResult_eq h.divides (.inl h.state), h.op, h.operandA, h.operandB, divide_eq_value hmul]
  · rw [divResult_eq h.divides (.inr h.state), h.op, h.operandA, h.operandB, divide_eq_value hmul]

theorem working_calc (i : MulDivIn) (h : Working op a b .calc u) :
    Working op a b (if u.count = 31 then .done else .calc) (u.next i) ∧ (u.next i).count = u.count + 1 := by
  have hstep : u.next i = u.iterate := by simp [next, step, h.state]
  have hdivides : (u.next i).Divides := step_divides i.start i.op i.a i.b h.divides
  obtain ⟨r, q, hit⟩ := iterate_eq u
  rw [hstep] at hdivides ⊢
  rw [hit] at hdivides ⊢
  exact ⟨⟨hdivides, rfl, h.op, h.operandA, h.operandB⟩, rfl⟩

variable (ins) in
theorem calc_run (h : Working op a b .calc u) (hcount : u.count = 0) (hk : k < 32) :
    Working op a b .calc (trace next u ins k) ∧ (trace next u ins k).count = BitVec.ofNat 5 k := by
  induction k with
  | zero => exact ⟨h, hcount⟩
  | succ k ih =>
    obtain ⟨hcalc, hc⟩ := ih (Nat.lt_of_succ_lt hk)
    obtain ⟨hnext, hc'⟩ := working_calc (ins k) hcalc
    have hne : (trace next u ins k).count ≠ 31 := by
      rw [hc]
      bv_omega
    rw [if_neg hne] at hnext
    refine ⟨hnext, ?_⟩
    rw [trace_succ, hc', hc]
    bv_omega

variable (ins) in
/-- the division is over, is shown for two cycles, and the unit is idle -/
theorem finish_run (h : Working op a b .calc u) (hcount : u.count = 0) :
    Working op a b .done (trace next u ins 32) ∧ Working op a b .hold (trace next u ins 33) ∧
      (trace next u ins 34).state = .idle := by
  obtain ⟨hcalc, hc⟩ := calc_run ins h hcount (show 31 < 32 by decide)
  obtain ⟨hdone, -⟩ := working_calc (ins 31) hcalc
  have hlast : (trace next u ins 31).count = 31 := hc
  rw [if_pos hlast] at hdone
  change Working op a b .done (trace next u ins 32) at hdone
  have hhold : trace next u ins 33 = { trace next u ins 32 with state := .hold } := by
    rw [trace_succ, next, step, hdone.state]
  have hidle : trace next u ins 34 = { trace next u ins 33 with state := .idle } := by
    rw [trace_succ, next, step]
    simp only [hhold]
  refine ⟨hdone, ?_, ?_⟩
  · have hdivides := step_divides (ins 32).start (ins 32).op (ins 32).a (ins 32).b hdone.divides
    change (trace next u ins 33).Divides at hdivides
    rw [hhold] at hdivides ⊢
    exact ⟨hdivides, rfl, hdone.op, hdone.operandA, hdone.operandB⟩
  · rw [hidle]

theorem working_start (hp : Pulsed u ins op a b) (hi : immediate op a b = false) :
    Working op a b .calc (trace next u ins 1) ∧ (trace next u ins 1).count = 0 := by
  have hstep : trace next u ins 1 = ⟨.calc, 0, absOf op a, 0, absOf op b, op, a, b⟩ := by
    change u.step (ins 0).start (ins 0).op (ins 0).a (ins 0).b = _
    rw [hp.start]
    simpa [hi] using @step_start u op a b hp.idle
  have hbefore : u.Divides := by
    rw [Divides, hp.idle]
    trivial
  have hdivides : (trace next u ins 1).Divides := step_divides (ins 0).start (ins 0).op (ins 0).a (ins 0).b hbefore
  rw [hstep] at hdivides ⊢
  exact ⟨⟨hdivides, rfl, rfl, rfl, rfl⟩, rfl⟩

theorem working_run (hp : Pulsed u ins op a b) (hi : immediate op a b = false) (hk : 0 < k) (hlt : k < 35) :
    Working op a b (if k ≤ 32 then .calc else if k = 33 then .done else .hold) (trace next u ins k) := by
  obtain ⟨h1, hcount⟩ := working_start hp hi
  have hadd (m : ℕ) : trace next u ins (1 + m) = trace next (trace next u ins 1) (fun j => ins (1 + j)) m :=
    trace_add next u ins 1 m
  obtain ⟨hdone, hhold, -⟩ := finish_run (fun j => ins (1 + j)) h1 hcount
  rw [← hadd] at hdone hhold
  obtain ⟨m, rfl⟩ : ∃ m, k = 1 + m := ⟨k - 1, by omega⟩
  rcases Nat.lt_trichotomy m 32 with hm | rfl | hm
  · have hcalc := (calc_run (fun j => ins (1 + j)) h1 hcount hm).1
    rw [← hadd] at hcalc
    rwa [if_pos (by omega)]
  · exact hdone
  · obtain rfl : m = 33 := by omega
    exact hhold

theorem idle_after (hp : Pulsed u ins op a b) (hi : immediate op a b = false) :
    (trace next u ins 35).state = .idle := by
  obtain ⟨h1, hcount⟩ := working_start hp hi
  obtain ⟨-, -, hidle⟩ := finish_run (fun j => ins (1 + j)) h1 hcount
  rw [← trace_add next u ins 1 34] at hidle
  exact hidle

/-- no start comes while the unit divides -/
theorem quiet_run (hp : Pulsed u ins op a b) (hi : immediate op a b = false) (hk : 0 < k) (hlt : k < 35) :
    (ins k).start = false := by
  refine hp.quiet k hk fun j hj hpos => ?_
  rw [(working_run hp hi hpos (lt_of_le_of_lt hj hlt)).state]
  split_ifs <;> decide

theorem output_run (hp : Pulsed u ins op a b) (hi : immediate op a b = false) (hk : 0 < k) (hlt : k < 35) :
    (trace next u ins k).output (ins k) = if k = 33 ∨ k = 34 then some (Rv32m.value op a b) else none := by
  have hmul : isMulOp op = false := by
    simp only [immediate, Bool.or_eq_false_iff] at hi
    exact hi.1.1
  have hdiv := working_run hp hi hk hlt
  rw [output, quiet_run hp hi hk hlt, result_quiet, hdiv.state]
  by_cases h32 : k ≤ 32
  · have hnot : ¬ (k = 33 ∨ k = 34) := by omega
    simp [h32, hnot]
  · have hend : k = 33 ∨ k = 34 := by omega
    rw [if_neg h32] at hdiv ⊢
    rcases hend with rfl | rfl
    · simpa using Working.result (.inl hdiv) hmul
    · simpa using Working.result (.inr hdiv) hmul

end Division

/-- **The unit computes RV32M**: in its cycles an operation shows its result exactly when it is done, and then the unit
is idle again, for the first time. -/
theorem computes {u : MulDiv} {ins : ℕ → MulDivIn} {op : MextOp} {a b : Word} (hp : Pulsed u ins op a b) :
    (∀ k < span op a b, (trace next u ins k).output (ins k) =
      if DoneIn op a b k then some (Rv32m.value op a b) else none) ∧
    (∀ k < span op a b, 0 < k → (trace next u ins k).state ≠ .idle) ∧
    (trace next u ins (span op a b)).state = .idle := by
  have hfirst : u.output (ins 0) = if immediate op a b then some (Rv32m.value op a b) else none := by
    rw [output, hp.start]
    exact result_start hp.idle
  cases hi : immediate op a b with
  | true =>
    have hspan : span op a b = 1 := by simp [span, hi]
    rw [hspan]
    refine ⟨fun k hk => ?_, fun k hk hpos => ?_, ?_⟩
    · obtain rfl : k = 0 := by omega
      simpa [DoneIn, hi] using hfirst
    · omega
    · change (u.step (ins 0).start (ins 0).op (ins 0).a (ins 0).b).state = _
      rw [hp.start]
      simpa [step_start hp.idle, hi] using hp.idle
  | false =>
    have hspan : span op a b = 35 := by simp [span, hi]
    rw [hspan]
    refine ⟨fun k hk => ?_, fun k hk hpos => ?_, idle_after hp hi⟩
    · rcases Nat.eq_zero_or_pos k with rfl | hpos
      · simpa [DoneIn, hi] using hfirst
      · simpa [DoneIn, hi] using output_run hp hi hpos hk
    · rw [(working_run hp hi hpos hk).state]
      split_ifs <;> decide

theorem computes_neg_seven : (∀ k < 35,
    (trace next reset (fun k => ⟨k == 0, .div, -7, 2⟩) k).output ⟨k == 0, .div, -7, 2⟩ =
      if DoneIn .div (-7) 2 k then some (-3) else none) ∧
    (∀ k < 35, 0 < k → (trace next reset (fun k => ⟨k == 0, .div, -7, 2⟩) k).state ≠ .idle) ∧
    (trace next reset (fun k => ⟨k == 0, .div, -7, 2⟩) 35).state = .idle :=
  @computes reset (fun k => ⟨k == 0, .div, -7, 2⟩) .div (-7) 2 ⟨rfl, rfl, fun k hk _ => by simp; omega⟩

end MulDiv

end Vsync
