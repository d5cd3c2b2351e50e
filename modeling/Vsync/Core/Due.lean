/-
The registers and the memory behind the instructions that have left EX, when all of them have done what they owe.

An access that traps in MEM owes nothing. `dueReg` and `dueMem` are `orderReg` and `orderMem` but for it.

- `step_dueReg`, `step_dueMem`: they stay while nothing leaves EX, if the cycle drops no register write.
- `dueReg_of_issues`, `dueMem_of_issues`: the instruction that leaves EX is added to them.
-/
import Vsync.Core.Division
import Vsync.Core.InstrSet
import Vsync.Core.Misaligned

namespace Vsync.Ledger

section Names

variable (w : Ledger)

/-- the instruction in EX/MEM writes `x`, and does not trap -/
def Due (x : RegAddr) : Prop := w.MemWrites x ∧ w.exMem.faults = false

instance (x : RegAddr) : Decidable (w.Due x) := by unfold Due; infer_instance

def dueReg (x : RegAddr) : Word := if w.Due x then w.memValue else w.core.visible x

def dueMem : DataMem := if w.exMem.faults then w.board.bus.mem else w.orderMem

/-- the cycle drops no register write: if it flushes MEM/WB, then EX/MEM is held, or what it is to write is there
already -/
def Loseless (i : BoardIn) : Prop := w.flushMem i = true → w.stallEx i = true ∨ ∀ x, w.core.visible x = w.dueReg x

end Names

section Cycle

variable {prog : Program} {w : Ledger} {i : BoardIn}

theorem dueReg_of_due {x : RegAddr} (h : w.Due x) : w.dueReg x = w.memValue := if_pos h

theorem dueReg_of_not_due {x : RegAddr} (h : ¬ w.Due x) : w.dueReg x = w.core.visible x := if_neg h

/-- when nothing traps in MEM, what is due is the program order -/
theorem dueReg_of_noFault (h : w.exMem.faults = false) (x : RegAddr) : w.dueReg x = w.orderReg x := by
  simp [dueReg, orderReg, Due, h]

theorem dueReg_of_enters (h : w.entersWb i = true) (x : RegAddr) : w.dueReg x = w.orderReg x :=
  dueReg_of_noFault (faults_of_enters h) x

theorem step_visible_due (prog : Program) (hd : BusData w) (hk : Kinds w) (hpl : w.board.Plain)
    (hsys : w.core.sysState ≠ .writeback) (x : RegAddr) :
    (step prog w i).core.visible x = if w.entersWb i then w.dueReg x else w.core.visible x := by
  rw [step_visible prog hd hk hpl hsys]
  cases he : w.entersWb i with
  | true => simp [dueReg_of_enters he]
  | false => rfl

/-- while EX/MEM is held, what is due stays -/
theorem step_dueReg_of_held (prog : Program) (hd : BusData w) (hk : Kinds w) (hpl : w.board.Plain)
    (hsys : w.core.sysState ≠ .writeback) (hst : w.stallEx i = true) (x : RegAddr) :
    (step prog w i).dueReg x = w.dueReg x := by
  have hx : (step prog w i).exMem = w.exMem := step_held hst
  have hdue : (step prog w i).Due x ↔ w.Due x := by simp [Due, MemWrites, hx]
  by_cases h : w.Due x
  · rw [dueReg_of_due (hdue.2 h), dueReg_of_due h, step_memValue prog hk h.1.1 hx]
  · rw [dueReg_of_not_due (mt hdue.1 h), step_visible_due prog hd hk hpl hsys, dueReg_of_not_due h, ite_self]

/-- when EX/MEM moves on, what was due is behind it -/
theorem step_visible_of_moves (prog : Program) (hd : BusData w) (hk : Kinds w) (hpl : w.board.Plain)
    (hsys : w.core.sysState ≠ .writeback) (hst : w.stallEx i = false) (hl : w.Loseless i) (x : RegAddr) :
    (step prog w i).core.visible x = w.dueReg x := by
  rw [step_visible_due prog hd hk hpl hsys]
  cases he : w.entersWb i with
  | true => rfl
  | false =>
    have hf : w.flushMem i = true := by simpa [entersWb, stallMem_of_moves hst] using he
    rw [if_neg (by decide)]
    rcases hl hf with h | h
    · simp [hst] at h
    · exact h x

/-- a valid instruction that stays in EX leaves nothing to EX/MEM -/
theorem bubble_of_moves (prog : Program) (hst : w.stallEx i = false) (hi : w.issues i = false) :
    (step prog w i).exMem.isWrite = false ∧ (step prog w i).exMem.isAccess = false := by
  have hst' : w.core.stallEx (w.coreIn i) = false := hst
  rw [step_exMem, Rv32imCore.exMemNext, hst']
  cases hf : w.core.flushEx (w.coreIn i) with
  | true => exact ⟨rfl, rfl⟩
  | false =>
    have hv : w.core.idEx.valid = false := by simpa [issues, hst, hf] using hi
    simp [ExMem.isWrite, ExMem.isAccess, Rv32imCore.executed, hv]

/-- **What is due stays while nothing leaves EX**, if no register write is dropped. -/
theorem step_dueReg (prog : Program) (hd : BusData w) (hk : Kinds w) (hpl : w.board.Plain)
    (hsys : w.core.sysState ≠ .writeback) (hl : w.Loseless i) (hi : w.issues i = false) (x : RegAddr) :
    (step prog w i).dueReg x = w.dueReg x := by
  cases hst : w.stallEx i with
  | true => exact step_dueReg_of_held prog hd hk hpl hsys hst x
  | false =>
    have hno := (bubble_of_moves prog hst hi).1
    rw [dueReg_of_not_due fun h => by simp [h.1.1] at hno]
    exact step_visible_of_moves prog hd hk hpl hsys hst hl x

theorem step_dueMem_of_held (prog : Program) (hst : w.stallEx i = true) : (step prog w i).dueMem = w.dueMem := by
  have hx : (step prog w i).exMem = w.exMem := step_held hst
  rw [dueMem, dueMem, hx]
  split_ifs with hf
  · exact (misaligned_iff.2 hf).step_mem
  · exact step_orderMem_of_held prog hst

theorem step_mem_due (prog : Program) (hd : BusData w) (hst : w.stallEx i = false) :
    (step prog w i).board.bus.mem = w.dueMem := by
  rw [dueMem]
  split_ifs with hf
  · exact (misaligned_iff.2 hf).step_mem
  · exact step_mem_of_moves prog hd hst

theorem dueMem_of_noAccess (h : w.exMem.isAccess = false) : w.dueMem = w.board.bus.mem := by
  have hf : w.exMem.faults = false := by simp [ExMem.faults, h]
  rw [dueMem, hf, if_neg (by decide)]
  exact orderMem_of_not_storing fun hs => by simp [hs.1] at h

theorem step_dueMem (prog : Program) (hd : BusData w) (hi : w.issues i = false) :
    (step prog w i).dueMem = w.dueMem := by
  cases hst : w.stallEx i with
  | true => exact step_dueMem_of_held prog hst
  | false =>
    rw [dueMem_of_noAccess (bubble_of_moves prog hst hi).2]
    exact step_mem_due prog hd hst

/-! ## An instruction leaves EX -/

theorem entersWb_of_issues (hpl : w.board.Plain) (h : w.issues i = true) : w.entersWb i = true := by
  obtain ⟨hst, hf⟩ := moves_of_issues h
  have hc : w.core.ctxState = .idle := hpl.1
  simp [entersWb, flushMem, Rv32imCore.flushMem, hf, hc, stallMem_of_moves hst]

/-- **What is due when an instruction leaves EX** -/
theorem step_dueReg_of_issues (prog : Program) (hd : BusData w) (hk : Kinds w) (hpl : w.board.Plain)
    (hsys : w.core.sysState ≠ .writeback) (h : w.issues i = true) (x : RegAddr) :
    (step prog w i).dueReg x = if (step prog w i).Due x then (step prog w i).memValue else w.dueReg x := by
  rw [dueReg, step_visible_due prog hd hk hpl hsys, entersWb_of_issues hpl h, if_pos rfl]

variable {e : Isa.Effect} {s : Isa.State}

theorem noFault_of_carries {m : ExMem} {mem : DataMem} (h : m.Carries e mem) : m.faults = false := by
  cases ha : m.isAccess with
  | false => simp [ExMem.faults, ha]
  | true =>
    simp only [ExMem.isAccess, Bool.and_eq_true] at ha
    simp [ExMem.faults, ExMem.isAccess, ha, h.aligned ha.1]

/-- an instruction whose effect EX/MEM carries does it to the registers that are due -/
theorem step_dueReg_of_carries (prog : Program) (hd : BusData w) (hk : Kinds w) (hpl : w.board.Plain)
    (hsys : w.core.sysState ≠ .writeback) (hi : w.issues i = true) (hmem : s.mem = w.dueMem)
    (hreg : ∀ x, s.reg x = w.dueReg x) (hc : (step prog w i).exMem.Carries e s.mem) (x : RegAddr) :
    (step prog w i).dueReg x = (s.apply e).reg x := by
  have hfault := noFault_of_carries hc
  have hbus := step_mem_due prog hd (moves_of_issues hi).1
  have hw := hc.write
  rw [hmem, ← hbus, ExMem.write] at hw
  rw [step_dueReg_of_issues prog hd hk hpl hsys hi]
  by_cases hdue : (step prog w i).Due x
  · obtain ⟨⟨hwr, rfl⟩, -⟩ := hdue
    simp only [ExMem.isWrite, Bool.and_eq_true, bne_iff_ne] at hwr
    rw [if_pos hwr.1.1] at hw
    have hne : (step prog w i).exMem.rdAddr ≠ 0#5 := hwr.2
    rw [if_pos ⟨⟨by simp [ExMem.isWrite, hwr, hne], rfl⟩, hfault⟩]
    simp [Isa.State.apply, Isa.State.reg, ← hw, hne, memValue]
  · rw [if_neg hdue, ← hreg]
    refine (Isa.reg_apply_of_ne fun v hx hv => hdue ⟨⟨?_, ?_⟩, hfault⟩).symm
    · rw [← hw] at hv
      split_ifs at hv with hrw
      cases hv
      simp [ExMem.isWrite, hrw, hc.valid]
      exact hx
    · rw [← hw] at hv
      split_ifs at hv
      cases hv
      rfl

theorem step_dueMem_of_carries (prog : Program) (hd : BusData w) (hi : w.issues i = true) (hmem : s.mem = w.dueMem)
    (hc : (step prog w i).exMem.Carries e s.mem) : (step prog w i).dueMem = (s.apply e).mem := by
  have hbus := step_mem_due prog hd (moves_of_issues hi).1
  have hx : (step prog w i).core.exMem = (step prog w i).exMem := rfl
  rw [dueMem, noFault_of_carries hc, if_neg (by decide), orderMem, hbus, ← hmem, Isa.State.apply]
  dsimp only
  rw [← hc.access, ExMem.access]
  cases hr : (step prog w i).exMem.memRead with
  | true => simp
  | false =>
    cases hwr : (step prog w i).exMem.memWrite with
    | false => simp [hr, hwr, ExMem.isAccess]
    | true => simp [hr, hwr, ExMem.isAccess, hc.valid, Rv32imCore.memWdata, Rv32imCore.memBe, hx]

end Cycle

end Vsync.Ledger
