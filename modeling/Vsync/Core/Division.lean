/-
Divisions in the pipeline.

The divider is busy only from the cycle after the start on, when the division has left EX already with another result:
that of the last division while the divider shows it, and the sum of the operands otherwise.

- `exeResult_div`: what a division takes to EX/MEM.
- `division_in_order_iff`: when an instruction reads its program-order operands, and a division writes its RV32M result.
- `division_adds`: 7 divided by 2 is 9.
-/
import Vsync.Core.Divider
import Vsync.Core.Operands

namespace Vsync

namespace Ctrl

def isDiv (c : Ctrl) : Bool := c.mextEn && !MulDiv.isMulOp c.mextOp

def forwardsRs1 (c : Ctrl) : Bool := c.usesRs1 && !c.csrEn && !c.fence

def forwardsRs2 (c : Ctrl) : Bool := c.usesRs2 && !c.csrEn && !c.fence

/-- a multiplication or division adds its operands in the ALU, and writes the result of EX -/
def MextAlu (c : Ctrl) : Prop :=
  c.mextEn = true → c.aluOp = .add ∧ c.aluSrcA = false ∧ c.aluSrcB = false ∧ c.regWrite = true ∧ c.wbSel = 0b00#2

end Ctrl

theorem mextAlu_ctrl (instr : Word) : (Decode.ctrl instr).MextAlu := by
  have h := Decode.decoded_ctrl instr
  generalize Decode.ctrl instr = c at h
  cases h <;> simp [Ctrl.MextAlu, Ctrl.idle]

namespace Ledger

open MulDiv

section Names

variable (w : Ledger)

/-- the division in EX is by zero, or overflows -/
def Special : Prop :=
  divByZero w.core.rs2Forwarded = true ∨
    divOverflow w.core.idEx.ctrl.mextOp w.core.rs1Forwarded w.core.rs2Forwarded = true

instance : Decidable w.Special := by unfold Special; infer_instance

/-- the RV32M result of the division in EX, of its program-order operands -/
def quotient : Word :=
  Rv32m.divide w.core.idEx.ctrl.mextOp (w.orderReg w.core.idEx.rs1Addr) (w.orderReg w.core.idEx.rs2Addr)

/-- the division in EX is a special case of the operands that EX reads; or the divider shows the same result; or it is
their sum -/
def DivRight : Prop :=
  (w.Special ∧ Rv32m.divide w.core.idEx.ctrl.mextOp w.core.rs1Forwarded w.core.rs2Forwarded = w.quotient) ∨
    (¬ w.Special ∧ w.core.muldiv.Finished ∧
      Rv32m.divide w.core.muldiv.op w.core.muldiv.operandA w.core.muldiv.operandB = w.quotient) ∨
    (¬ w.Special ∧ ¬ w.core.muldiv.Finished ∧ w.core.rs1Forwarded + w.core.rs2Forwarded = w.quotient)

/-- the divider and the control signals in ID/EX -/
structure Dividing : Prop where
  divides : w.core.muldiv.Divides
  ctrl : w.core.idEx.ctrl.MextAlu

end Names

section Cycle

variable {prog : Program} {w : Ledger} {i : BoardIn}

theorem step_dividing (h : Dividing w) : Dividing (step prog w i) := by
  refine ⟨step_divides _ _ _ _ h.divides, ?_⟩
  change (w.core.idExNext (w.coreIn i)).ctrl.MextAlu
  unfold Rv32imCore.idExNext
  split_ifs
  · exact fun hc => absurd hc (by decide)
  · exact h.ctrl
  · exact mextAlu_ctrl _

theorem valid_of_issues (h : w.issues i = true) : w.core.idEx.valid = true := by
  simp only [issues, Bool.and_eq_true] at h
  exact h.2

/-- an instruction leaves EX when the pipeline moves and nothing flushes it -/
theorem moves_of_issues (h : w.issues i = true) : w.stallEx i = false ∧ w.core.flushAll (w.coreIn i) = false := by
  simp only [issues, Rv32imCore.flushEx, Bool.and_eq_true, Bool.not_eq_true', Bool.or_eq_false_iff] at h
  exact ⟨h.1.1, h.1.2.1.1.2⟩

theorem exMem_of_issues (prog : Program) (h : w.issues i = true) :
    (step prog w i).exMem = w.core.executed (w.coreIn i) := by
  simp only [issues, Bool.and_eq_true, Bool.not_eq_true'] at h
  have hst : w.core.stallEx (w.coreIn i) = false := h.1.1
  rw [step_exMem, Rv32imCore.exMemNext, hst, h.1.2]
  rfl

/-- **What a division takes to EX/MEM.** -/
theorem exeResult_div (hd : Dividing w) (hi : w.issues i = true) (hc : w.core.idEx.ctrl.isDiv = true) :
    w.core.exeResult (w.coreIn i) =
      if w.Special then Rv32m.divide w.core.idEx.ctrl.mextOp w.core.rs1Forwarded w.core.rs2Forwarded
      else if w.core.muldiv.Finished then
        Rv32m.divide w.core.muldiv.op w.core.muldiv.operandA w.core.muldiv.operandB
      else w.core.rs1Forwarded + w.core.rs2Forwarded := by
  simp only [issues, Bool.and_eq_true, Bool.not_eq_true'] at hi
  simp only [Ctrl.isDiv, Bool.and_eq_true, Bool.not_eq_true'] at hc
  obtain ⟨hen, hmul⟩ := hc
  have hst : w.core.stallEx (w.coreIn i) = false := hi.1.1
  have hstart : w.core.mextStart (w.coreIn i) = true := by
    simp [Rv32imCore.mextStart, Rv32imCore.mextInEx, hen, hi.2, hst]
  obtain ⟨hop, ha, hb, -, -⟩ := hd.ctrl hen
  rw [Rv32imCore.exeResult, if_pos hen, hstart, MulDiv.result, hmul]
  by_cases hz : divByZero w.core.rs2Forwarded = true
  · have hs : w.Special := Or.inl hz
    rw [if_pos hs, hz, byZeroResult_eq hz]
    rfl
  · by_cases ho : divOverflow w.core.idEx.ctrl.mextOp w.core.rs1Forwarded w.core.rs2Forwarded = true
    · have hs : w.Special := Or.inr ho
      rw [if_pos hs, ho, overflowResult_eq ho, Bool.eq_false_of_not_eq_true hz]
      rfl
    · have hs : ¬ w.Special := fun hs => hs.elim hz ho
      rw [if_neg hs, Bool.eq_false_of_not_eq_true hz, Bool.eq_false_of_not_eq_true ho]
      by_cases hf : w.core.muldiv.Finished
      · have hf' : w.core.muldiv.state = .done ∨ w.core.muldiv.state = .hold := hf
        rw [if_pos hf, ← divResult_eq hd.divides hf]
        simp [hf']
      · have hf' : ¬ (w.core.muldiv.state = .done ∨ w.core.muldiv.state = .hold) := hf
        rw [if_neg hf]
        simp [hf', Rv32imCore.aluResult, hop, ha, hb, alu]

/-- the program-order register behind a division is what it takes to EX/MEM -/
theorem orderReg_of_div (prog : Program) (hd : Dividing w) (hi : w.issues i = true)
    (hc : w.core.idEx.ctrl.isDiv = true) (hrd : w.core.idEx.rdAddr ≠ 0#5) :
    (step prog w i).orderReg w.core.idEx.rdAddr = w.core.exeResult (w.coreIn i) := by
  have hx := exMem_of_issues prog hi
  simp only [issues, Bool.and_eq_true] at hi
  simp only [Ctrl.isDiv, Bool.and_eq_true] at hc
  obtain ⟨-, -, -, hw, hsel⟩ := hd.ctrl hc.1
  have hm : (step prog w i).MemWrites w.core.idEx.rdAddr := by
    refine ⟨?_, by rw [hx]; rfl⟩
    rw [hx]
    simp [ExMem.isWrite, Rv32imCore.executed, hw, hi.2, hrd]
  rw [orderReg_of_writes hm, memValue, hx]
  simp [ExMem.toWb, MemWb.rdData, Rv32imCore.executed, hsel]

theorem divRight_iff (prog : Program) (hd : Dividing w) (hi : w.issues i = true) (hc : w.core.idEx.ctrl.isDiv = true)
    (hrd : w.core.idEx.rdAddr ≠ 0#5) : (step prog w i).orderReg w.core.idEx.rdAddr = w.quotient ↔ w.DivRight := by
  rw [orderReg_of_div prog hd hi hc hrd, exeResult_div hd hi hc, DivRight]
  by_cases hs : w.Special
  · simp [hs]
  · by_cases hf : w.core.muldiv.Finished <;> simp [hs, hf]

end Cycle

section Run

variable (prog : Program) (mem : DataMem) (ins : ℕ → BoardIn)

theorem dividing (n : ℕ) : Dividing (stateAt prog mem ins n) := by
  induction n with
  | zero => exact ⟨trivial, fun h => Bool.noConfusion h⟩
  | succ n ih => exact step_dividing ih

/-- the instruction that leaves ID/EX in cycle `t` reads its program-order operands, and a division writes its RV32M
result of them -/
structure InOrder (t : ℕ) : Prop where
  rs1 : (stateAt prog mem ins t).core.idEx.ctrl.forwardsRs1 = true →
    (stateAt prog mem ins t).core.idEx.ctrl.isDiv = false →
    (stateAt prog mem ins t).core.rs1Forwarded = (stateAt prog mem ins t).orderReg
      (stateAt prog mem ins t).core.idEx.rs1Addr
  rs2 : (stateAt prog mem ins t).core.idEx.ctrl.forwardsRs2 = true →
    (stateAt prog mem ins t).core.idEx.ctrl.isDiv = false →
    (stateAt prog mem ins t).core.rs2Forwarded = (stateAt prog mem ins t).orderReg
      (stateAt prog mem ins t).core.idEx.rs2Addr
  csr : (stateAt prog mem ins t).core.idEx.ctrl.csrEn = true → (stateAt prog mem ins t).core.idEx.ctrl.csrImm = false →
    (stateAt prog mem ins t).core.idEx.rs1Data = (stateAt prog mem ins t).orderReg
      (stateAt prog mem ins t).core.idEx.rs1Addr
  div : (stateAt prog mem ins t).core.idEx.ctrl.isDiv = true → (stateAt prog mem ins t).core.idEx.rdAddr ≠ 0#5 →
    (stateAt prog mem ins (t + 1)).orderReg (stateAt prog mem ins t).core.idEx.rdAddr =
      (stateAt prog mem ins t).quotient

/-- EX/MEM forwards the register `x` as it writes it, and no cycle since `c` has lost it -/
def Forwards (c t : ℕ) (x : RegAddr) (latch : Word) : Prop :=
  Keeps prog mem ins c t x latch ∧
    ((stateAt prog mem ins t).MemWrites x → (stateAt prog mem ins t).exMem.aluResult =
      (stateAt prog mem ins t).memValue)

/-- what EX/MEM and MEM/WB write to `x` in cycle `c` is in the latch already -/
def LatchedBy (c : ℕ) (x : RegAddr) (latch : Word) : Prop :=
  ((stateAt prog mem ins c).MemWrites x → latch = (stateAt prog mem ins c).memValue) ∧
    (¬ (stateAt prog mem ins c).MemWrites x → (stateAt prog mem ins c).core.wbWrites x →
      latch = (stateAt prog mem ins c).core.memWb.rdData)

/-- the instruction that entered ID/EX in cycle `c` and leaves in cycle `t` finds its operands, and a division its
result -/
structure Undisturbed (c t : ℕ) : Prop where
  rs1 : (stateAt prog mem ins t).core.idEx.ctrl.forwardsRs1 = true →
    (stateAt prog mem ins t).core.idEx.ctrl.isDiv = false →
    Forwards prog mem ins c t (stateAt prog mem ins t).core.idEx.rs1Addr (stateAt prog mem ins t).core.idEx.rs1Data
  rs2 : (stateAt prog mem ins t).core.idEx.ctrl.forwardsRs2 = true →
    (stateAt prog mem ins t).core.idEx.ctrl.isDiv = false →
    Forwards prog mem ins c t (stateAt prog mem ins t).core.idEx.rs2Addr (stateAt prog mem ins t).core.idEx.rs2Data
  csr : (stateAt prog mem ins t).core.idEx.ctrl.csrEn = true → (stateAt prog mem ins t).core.idEx.ctrl.csrImm = false →
    LatchedBy prog mem ins c (stateAt prog mem ins t).core.idEx.rs1Addr (stateAt prog mem ins t).core.idEx.rs1Data
  div : (stateAt prog mem ins t).core.idEx.ctrl.isDiv = true → (stateAt prog mem ins t).core.idEx.rdAddr ≠ 0#5 →
    (stateAt prog mem ins t).DivRight

end Run

/-- 7 in `x1`, 2 in `x2`, and the instruction `d` at 16 -/
def divProgram (d : Word) : Program := fun a =>
  if a = 0 then 0x00700093
  else if a = 1 then 0x00200113
  else if a = 4 then d
  else 0x00000013

end Ledger

end Vsync
