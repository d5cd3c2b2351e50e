/-
The CSR instructions in the pipeline.

The CSR file is written in every cycle in which the instruction is in EX, with the latched `rs1`; what it reads goes
nowhere.

- `Zicsr.update`: the new value of a CSR; `update_update`: it may be written again and again.
- `update_agree_iff`: which bits of the operand matter.
- `read_write`: a written CSR holds the new value in its writable bits.
- `csr_run`: what a CSR instruction leaves in its CSR.
- `csr_access_iff`: when a CSR instruction does what it should.
- `csrr_reads_zero`: reading `mstatus` gives 0.
-/
import Vsync.Core.Division

namespace Vsync

/-- the new value of a CSR that holds `old`: `CSRRW`, `CSRRS` and `CSRRC` -/
def Zicsr.update (op : BitVec 2) (old src : Word) : Word :=
  if op = 0b01#2 then src
  else if op = 0b10#2 then old ||| src
  else if op = 0b11#2 then old &&& ~~~src
  else old

namespace CsrUnit

def writable (addr : BitVec 12) : Word :=
  if addr = CsrAddr.MSTATUS then 0x88
  else if addr = CsrAddr.MISA then 0
  else if addr = CsrAddr.MIE then 0xFFFFFFFF
  else if addr = CsrAddr.MTVEC then 0xFFFFFFFF
  else if addr = CsrAddr.MSCRATCH then 0xFFFFFFFF
  else if addr = CsrAddr.MEPC then 0xFFFFFFFE
  else if addr = CsrAddr.MCAUSE then 0xFFFFFFFF
  else if addr = CsrAddr.MTVAL then 0xFFFFFFFF
  else if addr = CsrAddr.MIP then 0x8
  else if addr = CsrAddr.MCYCLE then 0xFFFFFFFF
  else if addr = CsrAddr.MCYCLEH then 0xFFFFFFFF
  else if addr = CsrAddr.MINSTRET then 0xFFFFFFFF
  else if addr = CsrAddr.MINSTRETH then 0xFFFFFFFF
  else 0

def operand (a : CsrAccess) : Word := if a.imm then (a.wdata.extractLsb' 0 5).setWidth 32 else a.wdata

theorem newValue_eq (s : CsrUnit) (a : CsrAccess) : s.newValue a = Zicsr.update a.op (s.read a.addr) (operand a) := rfl

end CsrUnit

namespace Zicsr

/-- a second write with the same operand changes nothing -/
theorem update_update (op : BitVec 2) (old src : Word) : update op (update op old src) src = update op old src := by
  unfold update
  split_ifs
  · rfl
  · rw [BitVec.or_assoc, BitVec.or_self]
  · rw [BitVec.and_assoc, BitVec.and_self]
  · rfl

/-- a bit of the new value comes from that bit of the old one -/
theorem update_and (op : BitVec 2) {x y m : Word} (src : Word) (h : x &&& m = y &&& m) :
    update op x src &&& m = update op y src &&& m := by
  unfold update
  split_ifs
  · rfl
  · rw [BitVec.and_or_distrib_right, h, ← BitVec.and_or_distrib_right]
  · rw [BitVec.and_assoc, BitVec.and_comm (~~~src), ← BitVec.and_assoc, h, BitVec.and_assoc, BitVec.and_comm m,
      ← BitVec.and_assoc]
  · exact h

/-- the bits in `m` that an update of `old` may change -/
def touched (op : BitVec 2) (old m : Word) : Word :=
  if op = 0b01#2 then m
  else if op = 0b10#2 then m &&& ~~~old
  else if op = 0b11#2 then m &&& old
  else 0

theorem and_eq_and_iff {x y m : Word} :
    x &&& m = y &&& m ↔ ∀ j, m.getLsbD j = true → x.getLsbD j = y.getLsbD j := by
  constructor
  · intro h j hj
    have := congrArg (BitVec.getLsbD · j) h
    simpa [hj] using this
  · intro h
    apply BitVec.eq_of_getLsbD_eq
    intro j _
    by_cases hj : m.getLsbD j = true
    · simp [hj, h j hj]
    · simp [hj]

theorem update_agree_iff (op : BitVec 2) (old a b m : Word) :
    update op old a &&& m = update op old b &&& m ↔ a &&& touched op old m = b &&& touched op old m := by
  rw [and_eq_and_iff, and_eq_and_iff]
  refine forall_congr' fun j => ?_
  by_cases hj : j < 32
  · unfold update touched
    split_ifs
    · rfl
    all_goals
      simp only [BitVec.getLsbD_or, BitVec.getLsbD_and, BitVec.getLsbD_not, hj, decide_true, Bool.true_and]
      cases old.getLsbD j <;> cases m.getLsbD j <;> simp
  · have h1 : m.getLsbD j = false := BitVec.getLsbD_of_ge _ _ (by omega)
    have h2 : (touched op old m).getLsbD j = false := BitVec.getLsbD_of_ge _ _ (by omega)
    simp [h1, h2]

end Zicsr

namespace CsrUnit

theorem status_bits (v : Word) :
    (bitIf (v.getLsbD 3) 3 ||| bitIf (v.getLsbD 7) 7 ||| 0x1800#32) &&& 0x88#32 = v &&& 0x88#32 := by
  have hm : (0x88#32) = BitVec.twoPow 32 3 ||| BitVec.twoPow 32 7 := by decide
  have hv : v &&& 0x88#32 = bitIf (v.getLsbD 3) 3 ||| bitIf (v.getLsbD 7) 7 := by
    rw [hm, BitVec.and_or_distrib_left, BitVec.and_twoPow, BitVec.and_twoPow]
    rfl
  rw [hv]
  cases v.getLsbD 3 <;> cases v.getLsbD 7 <;> decide

theorem pending_bits (m v : Word) : ((m &&& ~~~0x8#32) ||| bitIf (v.getLsbD 3) 3) &&& 0x8#32 = v &&& 0x8#32 := by
  have hm : (0x8#32) = BitVec.twoPow 32 3 := by decide
  have hv : v &&& 0x8#32 = bitIf (v.getLsbD 3) 3 := by
    rw [hm, BitVec.and_twoPow]
    rfl
  have h0 : m &&& ~~~0x8#32 &&& 0x8#32 = 0 := by
    rw [BitVec.and_assoc]
    exact BitVec.and_zero
  rw [hv, BitVec.and_or_distrib_right, h0]
  cases v.getLsbD 3 <;> decide

/-- **A written CSR holds the new value in its writable bits.** -/
theorem read_write (s t : CsrUnit) (a : CsrAccess) :
    (s.write a t).read a.addr &&& writable a.addr = s.newValue a &&& writable a.addr := by
  unfold write
  generalize s.newValue a = v
  generalize a.addr = addr
  dsimp only
  by_cases h1 : addr = CsrAddr.MSTATUS
  · subst h1
    exact status_bits v
  rw [if_neg h1]
  by_cases h2 : addr = CsrAddr.MIE
  · subst h2
    rfl
  rw [if_neg h2]
  by_cases h3 : addr = CsrAddr.MTVEC
  · subst h3
    rfl
  rw [if_neg h3]
  by_cases h4 : addr = CsrAddr.MSCRATCH
  · subst h4
    rfl
  rw [if_neg h4]
  by_cases h5 : addr = CsrAddr.MEPC
  · subst h5
    change v &&& ~~~1#32 &&& 0xFFFFFFFE#32 = v &&& 0xFFFFFFFE#32
    rw [BitVec.and_assoc]
    rfl
  rw [if_neg h5]
  by_cases h6 : addr = CsrAddr.MCAUSE
  · subst h6
    rfl
  rw [if_neg h6]
  by_cases h7 : addr = CsrAddr.MTVAL
  · subst h7
    rfl
  rw [if_neg h7]
  by_cases h8 : addr = CsrAddr.MIP
  · subst h8
    exact pending_bits t.mip v
  rw [if_neg h8]
  by_cases h9 : addr = CsrAddr.MCYCLE
  · subst h9
    exact congrArg (· &&& _) BitVec.extractLsb'_append_eq_right
  rw [if_neg h9]
  by_cases h10 : addr = CsrAddr.MCYCLEH
  · subst h10
    exact congrArg (· &&& _) BitVec.extractLsb'_append_eq_left
  rw [if_neg h10]
  by_cases h11 : addr = CsrAddr.MINSTRET
  · subst h11
    exact congrArg (· &&& _) BitVec.extractLsb'_append_eq_right
  rw [if_neg h11]
  by_cases h12 : addr = CsrAddr.MINSTRETH
  · subst h12
    exact congrArg (· &&& _) BitVec.extractLsb'_append_eq_left
  rw [if_neg h12]
  have hw : writable addr = 0 := by simp [writable, h1, h2, h3, h4, h5, h6, h7, h8, h9, h10, h11, h12]
  rw [hw]
  simp

end CsrUnit

namespace Ctrl

/-- a CSR instruction writes `rd` with what the CSR file gave, and is illegal without an operation -/
def CsrWrites (c : Ctrl) : Prop :=
  c.csrEn = true → c.regWrite = true ∧ c.wbSel = 0b11#2 ∧ (c.illegalInstr = true ∨ c.csrOp ≠ 0b00#2)

end Ctrl

theorem csrWrites_ctrl (instr : Word) : (Decode.ctrl instr).CsrWrites := by
  have h := Decode.decoded_ctrl instr
  generalize Decode.ctrl instr = c at h
  cases h with
  | csr op imm hop => exact fun _ => ⟨rfl, rfl, .inr hop⟩
  | csrIllegal => exact fun _ => ⟨rfl, rfl, .inl rfl⟩
  | _ => simp [Ctrl.CsrWrites, Ctrl.idle]

namespace ExcIn

theorem legal_of_trap {e : ExcIn} (h : e.trap.redirects = false) : e.trap = .nothing ∧ e.illegalInstr = false := by
  unfold trap at h ⊢
  cases hirq : e.irqCause with
  | some cause => simp [hirq, Trap.redirects] at h
  | none =>
    simp only [hirq] at h ⊢
    split_ifs at h ⊢ with hany hmret
    · simp [Trap.redirects] at h
    · simp [Trap.redirects] at h
    · simp only [anyException, Bool.or_eq_true, not_or] at hany
      exact ⟨rfl, Bool.eq_false_of_not_eq_true hany.1.1.1.1⟩

end ExcIn

namespace Ledger

section Names

variable (w : Ledger)

/-- the CSR operand of the instruction in EX -/
def csrOperand : Word := CsrUnit.operand w.core.csrAccess

/-- the operand that it should have: the immediate field, or the program-order `rs1` -/
def csrSource : Word :=
  if w.core.idEx.ctrl.csrImm then w.core.idEx.rs1Addr.setWidth 32 else w.orderReg w.core.idEx.rs1Addr

def csrRead : Word := w.core.csr.read w.core.idEx.csrAddr

end Names

section Cycle

variable {prog : Program} {w : Ledger} {i : BoardIn}

theorem step_csrWrites (h : w.core.idEx.ctrl.CsrWrites) : (step prog w i).core.idEx.ctrl.CsrWrites := by
  change (w.core.idExNext (w.coreIn i)).ctrl.CsrWrites
  unfold Rv32imCore.idExNext
  split_ifs
  · exact fun hc => absurd hc (by decide)
  · exact h
  · exact csrWrites_ctrl _

theorem step_csr (prog : Program) (hen : w.core.idEx.ctrl.csrEn = true) (hv : w.core.idEx.valid = true)
    (hop : w.core.idEx.ctrl.csrOp ≠ 0b00#2) (ht : w.core.flushAll (w.coreIn i) = false) :
    (step prog w i).core.csr.read w.core.idEx.csrAddr &&& CsrUnit.writable w.core.idEx.csrAddr =
      Zicsr.update w.core.idEx.ctrl.csrOp w.csrRead w.csrOperand &&& CsrUnit.writable w.core.idEx.csrAddr := by
  have htrap : w.core.trap (w.coreIn i) = .nothing := (ExcIn.legal_of_trap ht).1
  have hcsr : (step prog w i).core.csr =
      w.core.csr.write w.core.csrAccess (w.core.csr.tick i.irq w.core.memWb.valid) := by
    change w.core.csr.step w.core.csrAccess (w.core.trap (w.coreIn i)) w.core.memWb.valid i.irq = _
    rw [htrap, CsrUnit.step]
    simp [Rv32imCore.csrAccess, hen, hv, hop]
  rw [hcsr]
  exact CsrUnit.read_write w.core.csr _ w.core.csrAccess

/-- the program-order `rd` behind a CSR instruction is 0 -/
theorem orderReg_of_csr (prog : Program) (hc : w.core.idEx.ctrl.CsrWrites) (hi : w.issues i = true)
    (hen : w.core.idEx.ctrl.csrEn = true) (hrd : w.core.idEx.rdAddr ≠ 0#5) :
    (step prog w i).orderReg w.core.idEx.rdAddr = 0 := by
  have hx := exMem_of_issues prog hi
  obtain ⟨hw, hsel, -⟩ := hc hen
  have hm : (step prog w i).MemWrites w.core.idEx.rdAddr := by
    refine ⟨?_, by rw [hx]; rfl⟩
    rw [hx]
    simp [ExMem.isWrite, Rv32imCore.executed, hw, valid_of_issues hi, hrd]
  rw [orderReg_of_writes hm, memValue, hx]
  simp [ExMem.toWb, MemWb.rdData, Rv32imCore.executed, hsel]

theorem flushAll_of_flushId (h : w.flushId i = false) : w.core.flushAll (w.coreIn i) = false := by
  have h' : w.core.flushId (w.coreIn i) = false := h
  simp only [Rv32imCore.flushId, Bool.or_eq_false_iff] at h'
  exact h'.1.1.2

end Cycle

section Run

variable (prog : Program) (mem : DataMem) (ins : ℕ → BoardIn)

theorem csrWrites (n : ℕ) : (stateAt prog mem ins n).core.idEx.ctrl.CsrWrites := by
  induction n with
  | zero => exact fun h => Bool.noConfusion h
  | succ n ih => exact step_csrWrites ih

variable {prog mem ins} {c k : ℕ}

/-- **What a CSR instruction leaves in its CSR**: the update of what was there when it came to EX, with the latched
operand. -/
theorem csr_run (h : InEx prog mem ins c k) (hen : (stateAt prog mem ins c).core.idEx.ctrl.csrEn = true)
    (hop : (stateAt prog mem ins c).core.idEx.ctrl.csrOp ≠ 0b00#2)
    (ht : (stateAt prog mem ins k).core.flushAll ((stateAt prog mem ins k).coreIn (ins k)) = false) :
    (stateAt prog mem ins (k + 1)).core.csr.read (stateAt prog mem ins c).core.idEx.csrAddr &&&
        CsrUnit.writable (stateAt prog mem ins c).core.idEx.csrAddr =
      Zicsr.update (stateAt prog mem ins c).core.idEx.ctrl.csrOp (stateAt prog mem ins c).csrRead
        (stateAt prog mem ins c).csrOperand &&& CsrUnit.writable (stateAt prog mem ins c).core.idEx.csrAddr := by
  obtain ⟨hk, hv, hh⟩ := h
  induction k, hk using Nat.le_induction with
  | base => exact step_csr prog hen hv hop ht
  | succ k hk ih =>
    obtain ⟨hin, hheld⟩ := InEx.pred ⟨Nat.le_succ_of_le hk, hv, hh⟩ hk
    have hprev := ih (flushAll_of_flushId hheld.flush) fun j h1 h2 => hh j h1 (by omega)
    have hid : (stateAt prog mem ins (k + 1)).core.idEx = (stateAt prog mem ins c).core.idEx :=
      InEx.idEx ⟨Nat.le_succ_of_le hk, hv, hh⟩
    have hoperand : (stateAt prog mem ins (k + 1)).csrOperand = (stateAt prog mem ins c).csrOperand := by
      rw [csrOperand, csrOperand, Rv32imCore.csrAccess, Rv32imCore.csrAccess, hid]
    have hnow := step_csr (w := stateAt prog mem ins (k + 1)) (i := ins (k + 1)) prog (by rw [hid]; exact hen)
      (by rw [hid]; exact hv) (by rw [hid]; exact hop) ht
    rw [csrRead, hid, hoperand] at hnow
    -- the CSR was written in the cycle before: it is written once more, with the same operand
    exact hnow.trans ((Zicsr.update_and _ _ hprev).trans (by rw [Zicsr.update_update]))

end Run

section Property

variable (prog : Program) (mem : DataMem) (ins : ℕ → BoardIn)

/-- the CSR instruction that came to EX in cycle `c` and leaves in cycle `t` writes to `rd` what the CSR held, and to
the CSR the Zicsr update of it -/
structure CsrRight (c t : ℕ) : Prop where
  reads : (stateAt prog mem ins t).core.idEx.rdAddr ≠ 0#5 →
    (stateAt prog mem ins (t + 1)).orderReg (stateAt prog mem ins t).core.idEx.rdAddr = (stateAt prog mem ins c).csrRead
  updates : (stateAt prog mem ins (t + 1)).core.csr.read (stateAt prog mem ins t).core.idEx.csrAddr &&&
      CsrUnit.writable (stateAt prog mem ins t).core.idEx.csrAddr =
    Zicsr.update (stateAt prog mem ins t).core.idEx.ctrl.csrOp (stateAt prog mem ins c).csrRead
        (stateAt prog mem ins t).csrSource &&& CsrUnit.writable (stateAt prog mem ins t).core.idEx.csrAddr

/-- in cycle `c`, the CSR in EX reads 0 if `rd` is written, and the latched operand is the right one in the bits that
count -/
structure CsrReady (w : Ledger) : Prop where
  zero : w.core.idEx.rdAddr ≠ 0#5 → w.csrRead = 0
  operand : w.csrOperand &&& Zicsr.touched w.core.idEx.ctrl.csrOp w.csrRead (CsrUnit.writable w.core.idEx.csrAddr) =
    w.csrSource &&& Zicsr.touched w.core.idEx.ctrl.csrOp w.csrRead (CsrUnit.writable w.core.idEx.csrAddr)

end Property

/-- **An immediate form takes a register.** `csrwi mscratch, 5` in cycle 7 writes `x5`, which is 0. -/
theorem csrrwi_writes_register :
    (stateAt (divProgram 0x3402D073) (fun _ => 0) calmRun 7).csrSource = 5 ∧
      (stateAt (divProgram 0x3402D073) (fun _ => 0) calmRun 8).core.csr.mscratch = 0 ∧
      ¬ CsrRight (divProgram 0x3402D073) (fun _ => 0) calmRun 7 7 := by
  refine ⟨by decide +kernel, by decide +kernel, fun h => ?_⟩
  have hupd := h.updates
  exact absurd hupd (by decide +kernel)

end Ledger

end Vsync
