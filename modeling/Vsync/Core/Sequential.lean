/-
The sequential machine beside the core.

`Sequential` fetches from the program, executes and writes on its own, one instruction at a time; the core only says
when: an instruction leaves EX, an `ecall` is dispatched, a syscall is done. Traps and `mret` take it where they take
the core, since the CSRs are not part of it; a trap on the target of a jump is its own only if the target is misaligned.

- `Orderly`: what a cycle must not do: read a wrong operand, drop a register write, and so on.
- `Agrees`, `agrees`: as long as every cycle is orderly, the core stands where the sequential machine stands, and what
  is due are its registers and its memory.
-/
import Vsync.Core.CsrAccess
import Vsync.Core.EcallState
import Vsync.Core.FrontEnd

namespace Vsync

structure Sequential where
  arch : Isa.State
  /-- what the CSR of the instruction in EX held when the instruction came there -/
  csr : Word

/-- without a trap the instruction in EX is no breakpoint and no `mret` -/
theorem ExcIn.quiet_of_trap {e : ExcIn} (h : e.trap = .nothing) : e.ebreak = false ∧ e.mret = false := by
  unfold ExcIn.trap at h
  cases hirq : e.irqCause with
  | some cause => simp [hirq] at h
  | none =>
    simp only [hirq] at h
    split_ifs at h with hany hmret
    simp only [ExcIn.anyException, Bool.or_eq_true, not_or] at hany
    exact ⟨Bool.eq_false_of_not_eq_true hany.1.1.1.2, Bool.eq_false_of_not_eq_true hmret⟩

namespace Ledger

section Names

variable (w : Ledger) (i : BoardIn)

/-- the target of the jump in EX is misaligned, and no interrupt or access in MEM traps -/
def TargetTrap : Prop :=
  w.NoIrq i ∧ w.core.loadMisalign = false ∧ w.core.storeMisalign = false ∧ w.core.instrMisalign = true

instance : Decidable (w.TargetTrap i) := by unfold TargetTrap; infer_instance

/-- the operands of the instruction in EX count: it leaves EX, or redirects the fetch stage, or traps on its target -/
def Consults : Prop :=
  w.issues i = true ∨ (w.core.branchFlush = true ∧ w.core.flushAll (w.coreIn i) = false) ∨ w.TargetTrap i

/-- the result of the syscall that is done in this cycle -/
def syscallResult : Option Word := if w.core.sysState = .wait then i.syscallDone else none

end Names

end Ledger

namespace Sequential

open Ledger

def reset (mem : DataMem) : Sequential := ⟨Isa.init mem, 0⟩

section Step

variable (prog : Program) (q : Sequential) (w : Ledger) (i : BoardIn)

def effect : Isa.Effect := q.arch.fullEffect prog q.csr

/-- what the cycle does to the pc, the registers and the memory, but for the result of a syscall -/
def moved : Isa.State :=
  if w.core.flushAll (w.coreIn i) then
    if w.TargetTrap i ∧ (q.effect prog).nextPc.extractLsb' 0 2 = 0#2 then q.arch
    else { q.arch with pc := (w.core.trap (w.coreIn i)).redirectPc }
  else if w.core.ecallDetected then { q.arch with pc := q.arch.pc + 4 }
  else if w.issues i then q.arch.execute prog q.csr
  else q.arch

def step : Sequential where
  arch :=
    match w.syscallResult i with
    | some r => { q.moved prog w i with regs := Function.update (q.moved prog w i).regs 10 r }
    | none => q.moved prog w i
  csr := if w.stallId i then q.csr else (Ledger.step prog w i).csrRead

end Step

end Sequential

namespace Ledger

section Run

variable (prog : Program) (mem : DataMem) (ins : ℕ → BoardIn)

def seqAt : ℕ → Sequential
  | 0 => .reset mem
  | n + 1 => (seqAt n).step prog (stateAt prog mem ins n) (ins n)

/-- what cycle `k` must not do wrong -/
structure Orderly (k : ℕ) : Prop where
  /-- the instruction in EX is a valid encoding, and finds its operands; a division finds its result -/
  word : (stateAt prog mem ins k).Consults (ins k) → Isa.Valid (prog.fetch (stateAt prog mem ins k).core.idEx.pc)
  operands : (stateAt prog mem ins k).Consults (ins k) → ∀ c, Latches prog mem ins c → InEx prog mem ins c k →
    Undisturbed prog mem ins c k
  /-- a jump that traps on its target does not wait for a load -/
  loads : (stateAt prog mem ins k).TargetTrap (ins k) →
    ((stateAt prog mem ins k).core.idEx.ctrl.forwardsRs1 = true →
      Hazard.loads (stateAt prog mem ins k).exMem (stateAt prog mem ins k).core.idEx.rs1Addr = false) ∧
    ((stateAt prog mem ins k).core.idEx.ctrl.forwardsRs2 = true →
      Hazard.loads (stateAt prog mem ins k).exMem (stateAt prog mem ins k).core.idEx.rs2Addr = false)
  /-- a CSR instruction that writes a register reads 0 -/
  csr : (stateAt prog mem ins k).issues (ins k) = true → (stateAt prog mem ins k).core.idEx.ctrl.csrEn = true →
    (stateAt prog mem ins k).core.idEx.rdAddr ≠ 0#5 →
    ∀ c, Latches prog mem ins c → InEx prog mem ins c k → (stateAt prog mem ins c).csrRead = 0
  lossless : (stateAt prog mem ins k).Loseless (ins k)
  /-- an `ecall` keeps the registers and its result -/
  ecall : (stateAt prog mem ins k).EcallInEx → ∀ d r, DoneAt prog mem ins k d r →
    (stateAt prog mem ins k).RetWritten (ins k) r ∧ (stateAt prog mem ins k).Kept (ins k) True r

structure Agrees (n : ℕ) : Prop where
  front : Front prog (stateAt prog mem ins n) (seqAt prog mem ins n).arch.pc
    ((seqAt prog mem ins n).effect prog).nextPc
  regs : (stateAt prog mem ins n).core.sysState = .idle →
    ∀ x, (seqAt prog mem ins n).arch.reg x = (stateAt prog mem ins n).dueReg x
  mem : (seqAt prog mem ins n).arch.mem = (stateAt prog mem ins n).dueMem

end Run

/-! ## The instruction in EX -/

/-- a branch or a jump is nothing else, and a branch reads both operands -/
theorem jump_ctrl {instr : Word} (h : (Decode.ctrl instr).branch = true ∨ (Decode.ctrl instr).jal = true ∨
    (Decode.ctrl instr).jalr = true) :
    ((Decode.ctrl instr).ecall = false ∧ (Decode.ctrl instr).ebreak = false ∧ (Decode.ctrl instr).mret = false) ∧
      ((Decode.ctrl instr).csrEn = false ∧ (Decode.ctrl instr).fence = false ∧ (Decode.ctrl instr).mextEn = false) ∧
      ((Decode.ctrl instr).branch = true → (Decode.ctrl instr).usesRs1 = true ∧
        (Decode.ctrl instr).usesRs2 = true) := by
  have hd := Decode.decoded_ctrl instr
  generalize Decode.ctrl instr = c at h hd
  cases hd with
  | branch f => simp [Ctrl.idle, Ctrl.usesRs1, Ctrl.usesRs2]
  | jal => simp [Ctrl.idle]
  | jalr => simp [Ctrl.idle]
  | _ => simp [Ctrl.idle] at h

theorem jump_of_taken {c : Ctrl} {v : Bool} {a b : Word} (h : BranchUnit.taken c v a b = true) :
    v = true ∧ (c.branch = true ∨ c.jal = true ∨ c.jalr = true) := by
  simp only [BranchUnit.taken, Bool.or_eq_true, Bool.and_eq_true] at h
  tauto

section Cycle

variable {w : Ledger} {i : BoardIn}

theorem jump_of_branchFlush (h : w.core.branchFlush = true) : w.core.branchTaken = true ∧ w.core.loadUseEx = false := by
  simpa [Rv32imCore.branchFlush] using h

theorem valid_of_consults (h : w.Consults i) : w.core.idEx.valid = true := by
  rcases h with h | ⟨h, -⟩ | ⟨-, -, -, h⟩
  · exact valid_of_issues h
  · exact (jump_of_taken (jump_of_branchFlush h).1).1
  · simp only [Rv32imCore.instrMisalign, Bool.and_eq_true] at h
    exact (jump_of_taken h.1).1

/-- no access traps in MEM while the operands in EX count -/
theorem noFault_of_consults (h : w.Consults i) : w.exMem.faults = false := by
  by_contra hf
  have hm := misaligned_iff.2 (Bool.eq_true_of_not_eq_false hf)
  rcases h with h | ⟨-, h⟩ | ⟨-, h1, h2, -⟩
  · exact absurd (hm.flushAll (i := i)) (by simp [(moves_of_issues h).2])
  · exact absurd (hm.flushAll (i := i)) (by simp [h])
  · simp [Misaligned, h1, h2] at hm

/-- what the core's EX makes of an instruction of the base ISA that leaves it -/
theorem executed_of_base (hi : w.issues i = true) (hb : w.core.idEx.ctrl.Base) :
    w.core.executed (w.coreIn i) = w.core.idEx.executed w.core.rs1Forwarded w.core.rs2Forwarded := by
  have hst : w.core.stallEx (w.coreIn i) = false := (moves_of_issues hi).1
  have hx : w.core.exeResult (w.coreIn i) = w.core.idEx.result w.core.rs1Forwarded w.core.rs2Forwarded := by
    unfold Rv32imCore.exeResult IdEx.result
    cases hm : w.core.idEx.ctrl.mextEn with
    | false => rfl
    | true =>
      simp [MulDiv.result, Rv32imCore.mextStart, Rv32imCore.mextInEx, hm, valid_of_issues hi, hst, hb.mext hm]
  rw [Rv32imCore.executed, hx]
  rfl

end Cycle

section Agreement

variable {prog : Program} {mem : DataMem} {ins : ℕ → BoardIn} {n : ℕ}

/-- the machine's CSR value is what the CSR held in the first cycle of the instruction in EX -/
theorem seq_csr {c k : ℕ} (hc : Latches prog mem ins c) (h : InEx prog mem ins c k) :
    (seqAt prog mem ins k).csr = (stateAt prog mem ins c).csrRead := by
  obtain ⟨hk, hv, hh⟩ := h
  induction k, hk using Nat.le_induction with
  | base =>
    obtain ⟨n, rfl, hst, -⟩ := hc
    change (if (stateAt prog mem ins n).stallId (ins n) then _ else _) = _
    rw [hst]
    rfl
  | succ k hk ih =>
    have hst := (hh k hk (Nat.lt_succ_self k)).1
    change (if (stateAt prog mem ins k).stallId (ins k) then _ else _) = _
    rw [hst, if_pos rfl]
    exact ih fun j h1 h2 => hh j h1 (by omega)

/-- an instruction whose operands count is one of the four kinds -/
theorem kind_of_consults (ha : Agrees prog mem ins n) (ho : Orderly prog mem ins n)
    (hc : (stateAt prog mem ins n).Consults (ins n)) : Isa.Kind (prog.fetch (seqAt prog mem ins n).arch.pc) := by
  have hv := valid_of_consults hc
  obtain ⟨r1, r2, hid⟩ := ha.front.idEx hv
  have hword := ho.word hc
  have hpc : (stateAt prog mem ins n).core.idEx.pc = (seqAt prog mem ins n).arch.pc := by rw [hid]; rfl
  have hctrl : (stateAt prog mem ins n).core.idEx.ctrl = Decode.ctrl (prog.fetch (seqAt prog mem ins n).arch.pc) := by
    rw [hid]; rfl
  rw [hpc] at hword
  have jump (ht : (stateAt prog mem ins n).core.branchTaken = true) := by
    have hj := (jump_of_taken ht).2
    rw [hctrl] at hj
    exact (jump_ctrl hj).1
  rcases hc with hi | ⟨hb, -⟩ | ⟨-, -, -, hm⟩
  · -- an instruction that leaves EX does not trap
    have hsys := sys_of_valid (idExInv prog mem ins n) hv
    have hf := (moves_of_issues hi).2
    have htrap := (ExcIn.legal_of_trap hf).1
    have hecall : (stateAt prog mem ins n).core.ecallDetected = false := by
      simp only [issues, Rv32imCore.flushEx, Bool.and_eq_true, Bool.not_eq_true', Bool.or_eq_false_iff] at hi
      exact hi.1.2.2
    have hexc := (ExcIn.quiet_of_trap htrap)
    refine Isa.kind_of_valid hword ?_ ?_ ?_
    · rw [← hctrl]
      simpa [Rv32imCore.ecallDetected, hv, hsys] using hecall
    · rw [← hctrl]
      simpa [Rv32imCore.excIn, hv] using hexc.1
    · rw [← hctrl]
      simpa [Rv32imCore.excIn, hv] using hexc.2
  · obtain ⟨h1, h2, h3⟩ := jump (jump_of_branchFlush hb).1
    exact Isa.kind_of_valid hword h1 h2 h3
  · simp only [Rv32imCore.instrMisalign, Bool.and_eq_true] at hm
    obtain ⟨h1, h2, h3⟩ := jump hm.1
    exact Isa.kind_of_valid hword h1 h2 h3

/-- the loads in EX/MEM are no sources of an instruction whose operands count -/
theorem loads_of_consults (ho : Orderly prog mem ins n) (hc : (stateAt prog mem ins n).Consults (ins n)) :
    ((stateAt prog mem ins n).core.idEx.ctrl.forwardsRs1 = true →
      Hazard.loads (stateAt prog mem ins n).exMem (stateAt prog mem ins n).core.idEx.rs1Addr = false) ∧
    ((stateAt prog mem ins n).core.idEx.ctrl.forwardsRs2 = true →
      Hazard.loads (stateAt prog mem ins n).exMem (stateAt prog mem ins n).core.idEx.rs2Addr = false) := by
  rcases hc with hi | ⟨hb, -⟩ | ht
  · exact ⟨fun _ => (loads_of_issues hi).1, fun _ => (loads_of_issues hi).2⟩
  · have hl := (jump_of_branchFlush hb).2
    simp only [Rv32imCore.loadUseEx, Hazard.loadUse, Bool.or_eq_false_iff] at hl
    exact ⟨fun _ => hl.1, fun _ => hl.2⟩
  · exact ho.loads ht

/-- **The operands of a base instruction are the registers of the sequential machine.** -/
theorem operands_of_consults (ha : Agrees prog mem ins n) (ho : Orderly prog mem ins n)
    (hc : (stateAt prog mem ins n).Consults (ins n)) {i : Isa.Instr}
    (hd : Isa.decode (prog.fetch (seqAt prog mem ins n).arch.pc) = some i) :
    (stateAt prog mem ins n).core.idEx.Operands (stateAt prog mem ins n).core.rs1Forwarded
      (stateAt prog mem ins n).core.rs2Forwarded (seqAt prog mem ins n).arch := by
  have hv := valid_of_consults hc
  obtain ⟨c, hlat, hin⟩ := exists_latches hv
  obtain ⟨hcur1, hcur2⟩ := current_first hlat
  rw [← hin.idEx] at hcur1 hcur2
  have hu := ho.operands hc c hlat hin
  obtain ⟨hl1, hl2⟩ := loads_of_consults ho hc
  have hsys := sys_of_valid (idExInv prog mem ins n) hv
  have hreg (x : RegAddr) : (stateAt prog mem ins n).orderReg x = (seqAt prog mem ins n).arch.reg x := by
    rw [ha.regs hsys, dueReg_of_noFault (noFault_of_consults hc)]
  -- a base instruction reads its operands through the forwarding of EX
  obtain ⟨r1, r2, hid⟩ := ha.front.idEx hv
  have hctrl : (stateAt prog mem ins n).core.idEx.ctrl = Decode.ctrl (prog.fetch (seqAt prog mem ins n).arch.pc) := by
    rw [hid]; rfl
  have hbase := Isa.base_of_decode hd
  have hfence := Isa.fence_of_decode hd
  rw [← hctrl] at hbase hfence
  have hdiv : (stateAt prog mem ins n).core.idEx.ctrl.isDiv = false := by
    cases hm : (stateAt prog mem ins n).core.idEx.ctrl.mextEn with
    | false => simp [Ctrl.isDiv, hm]
    | true => simp [Ctrl.isDiv, hbase.mext hm]
  constructor
  · intro huse
    have hfwd : (stateAt prog mem ins n).core.idEx.ctrl.forwardsRs1 = true := by
      simp [Ctrl.forwardsRs1, huse, hbase.csr, hfence]
    rw [← hreg]
    exact (forwarded_iff hin hcur1 (hl1 hfwd)).2 (hu.rs1 hfwd hdiv)
  · intro huse
    have hfwd : (stateAt prog mem ins n).core.idEx.ctrl.forwardsRs2 = true := by
      simp [Ctrl.forwardsRs2, huse, hbase.csr, hfence]
    rw [← hreg]
    exact (forwarded_iff hin hcur2 (hl2 hfwd)).2 (hu.rs2 hfwd hdiv)

/-- the instruction goes where the sequential machine goes -/
theorem nextPc_of_consults (ha : Agrees prog mem ins n) (ho : Orderly prog mem ins n)
    (hc : (stateAt prog mem ins n).Consults (ins n)) :
    (stateAt prog mem ins n).core.idEx.nextPc (stateAt prog mem ins n).core.rs1Forwarded
      (stateAt prog mem ins n).core.rs2Forwarded = ((seqAt prog mem ins n).effect prog).nextPc := by
  obtain ⟨r1, r2, hid⟩ := ha.front.idEx (valid_of_consults hc)
  have hop := fun i hd => operands_of_consults ha ho hc (i := i) hd
  rw [hid] at hop ⊢
  exact Isa.nextPc_of_kind (kind_of_consults ha ho hc) hop

theorem branchTarget_of_consults (ha : Agrees prog mem ins n) (ho : Orderly prog mem ins n)
    (hc : (stateAt prog mem ins n).Consults (ins n)) (ht : (stateAt prog mem ins n).core.branchTaken = true) :
    (stateAt prog mem ins n).core.branchTarget = ((seqAt prog mem ins n).effect prog).nextPc := by
  rw [← nextPc_of_consults ha ho hc, IdEx.nextPc,
    if_pos (show (stateAt prog mem ins n).core.idEx.taken _ _ = true from ht)]
  rfl

/-- an instruction that is not taken goes on to the next word -/
theorem straight_of_consults (ha : Agrees prog mem ins n) (ho : Orderly prog mem ins n)
    (hc : (stateAt prog mem ins n).Consults (ins n)) (ht : (stateAt prog mem ins n).core.branchTaken = false) :
    ((seqAt prog mem ins n).effect prog).nextPc = (seqAt prog mem ins n).arch.pc + 4 := by
  obtain ⟨r1, r2, hid⟩ := ha.front.idEx (valid_of_consults hc)
  have hno : (stateAt prog mem ins n).core.idEx.taken (stateAt prog mem ins n).core.rs1Forwarded
      (stateAt prog mem ins n).core.rs2Forwarded = false := ht
  rw [← nextPc_of_consults ha ho hc, IdEx.nextPc, hno, if_neg (by decide), hid]
  rfl

/-! ## A branch that waits -/

theorem memRead_valid (n : ℕ) (h : (stateAt prog mem ins n).exMem.memRead = true) :
    (stateAt prog mem ins n).exMem.valid = true := by
  induction n with
  | zero => exact Bool.noConfusion h
  | succ n ih =>
    rw [stateAt_succ, step_exMem] at h ⊢
    unfold Rv32imCore.exMemNext at h ⊢
    split_ifs at h ⊢ with h1 h2
    · exact ih h
    · exact absurd h (by decide)
    · simp only [Rv32imCore.executed, Bool.and_eq_true] at h ⊢
      exact h.2

/-- a branch depends on its operands only, and a jump on none -/
theorem taken_congr {instr : Word} {v : Bool} {a a' b b' : Word}
    (h1 : (Decode.ctrl instr).usesRs1 = true → a = a') (h2 : (Decode.ctrl instr).usesRs2 = true → b = b') :
    BranchUnit.taken (Decode.ctrl instr) v a b = BranchUnit.taken (Decode.ctrl instr) v a' b' := by
  cases hb : (Decode.ctrl instr).branch with
  | false => simp [BranchUnit.taken, hb]
  | true =>
    obtain ⟨hu1, hu2⟩ := (jump_ctrl (Or.inl hb)).2.2 hb
    rw [h1 hu1, h2 hu2]

/-- an operand that counts in a cycle was the same in the cycle before, with EX/MEM held -/
theorem forwarded_before {c m : ℕ} {x : RegAddr} {latch : Word} (hin : InEx prog mem ins c (m + 1)) (hcm : c ≤ m)
    (hst : (stateAt prog mem ins m).stallEx (ins m) = true) (hcur : (stateAt prog mem ins c).Current x latch)
    (hload : Hazard.loads (stateAt prog mem ins (m + 1)).exMem x = false)
    (hf : Forwards prog mem ins c (m + 1) x latch) :
    (stateAt prog mem ins m).core.forwarded x latch = (stateAt prog mem ins (m + 1)).core.forwarded x latch := by
  have hx : (stateAt prog mem ins (m + 1)).exMem = (stateAt prog mem ins m).exMem := step_held hst
  obtain ⟨hprev, -⟩ := hin.pred hcm
  have hkeep : Keeps prog mem ins c m x latch := fun j h1 h2 => hf.1 j h1 (by omega)
  have hfwd : (stateAt prog mem ins m).MemWrites x →
      (stateAt prog mem ins m).exMem.aluResult = (stateAt prog mem ins m).memValue := by
    intro hm
    have hm' : (stateAt prog mem ins (m + 1)).MemWrites x := by unfold MemWrites; rw [hx]; exact hm
    have hval := hf.2 hm'
    rw [hx] at hval
    exact hval.trans (step_memValue prog (kinds prog mem ins m) hm.1 hx)
  rw [(forwarded_iff hin hcur hload).2 hf, (forwarded_iff hprev hcur (hx ▸ hload)).2 ⟨hkeep, hfwd⟩, orderReg_run hin,
    orderReg_run hprev]

/-- **A branch that redirects is not dropped**: the load that ID waits for has been in EX/MEM for a cycle at least, in
which the branch has emptied IF/ID. -/
theorem stallEx_of_branchFlush (ha : Agrees prog mem ins n) (ho : Orderly prog mem ins n)
    (hb : (stateAt prog mem ins n).core.branchFlush = true)
    (hf : (stateAt prog mem ins n).core.flushAll ((stateAt prog mem ins n).coreIn (ins n)) = false)
    (hs : (stateAt prog mem ins n).stallId (ins n) = true) : (stateAt prog mem ins n).stallEx (ins n) = true := by
  by_contra hst
  have hst : (stateAt prog mem ins n).stallEx (ins n) = false := Bool.eq_false_of_not_eq_true hst
  have hc : (stateAt prog mem ins n).Consults (ins n) := Or.inr (Or.inl ⟨hb, hf⟩)
  have hv := valid_of_consults hc
  obtain ⟨htaken, hex⟩ := jump_of_branchFlush hb
  -- ID waits for a load in EX/MEM, which has been answered
  have hid : (stateAt prog mem ins n).core.loadUseId = true := by
    have hst' : (stateAt prog mem ins n).core.stallEx ((stateAt prog mem ins n).coreIn (ins n)) = false := hst
    have hs' : (stateAt prog mem ins n).core.stallId ((stateAt prog mem ins n).coreIn (ins n)) = true := hs
    simpa [Rv32imCore.stallId, hst', Rv32imCore.loadUse, hex] using hs'
  have hread : (stateAt prog mem ins n).exMem.memRead = true := by
    by_contra hr
    have hr' : (stateAt prog mem ins n).core.exMem.memRead = false := Bool.eq_false_of_not_eq_true hr
    simp [Rv32imCore.loadUseId, Hazard.loadUse, Hazard.loads, hr'] at hid
  have hsent := (answered_of_moves hst (by simp [ExMem.isAccess, hread, memRead_valid n hread])).1
  cases n with
  | zero => exact Bool.noConfusion hsent
  | succ m =>
    have hstm : (stateAt prog mem ins m).stallEx (ins m) = true := by
      by_contra hgo
      have := (step_entered prog (busInv prog mem ins m) (Bool.eq_false_of_not_eq_true hgo)).1
      rw [← stateAt_succ, hsent] at this
      exact Bool.noConfusion this
    have hstid : (stateAt prog mem ins m).stallId (ins m) = true := by
      have h' : (stateAt prog mem ins m).core.stallEx ((stateAt prog mem ins m).coreIn (ins m)) = true := hstm
      simp [stallId, Rv32imCore.stallId, h']
    obtain ⟨c, hlat, hin⟩ := exists_latches hv
    have hcm : c ≤ m := by
      by_contra hcm
      obtain ⟨k, hk, hno, -⟩ := hlat
      have hkm : k = m := by have := hin.1; omega
      rw [hkm, hstid] at hno
      exact Bool.noConfusion hno
    -- the branch was in EX then, with the same operands
    have hx : (stateAt prog mem ins (m + 1)).core.exMem = (stateAt prog mem ins m).core.exMem := step_held hstm
    have hd : (stateAt prog mem ins (m + 1)).core.idEx = (stateAt prog mem ins m).core.idEx :=
      (hin.pred hcm).2.step_idEx prog
    obtain ⟨hcur1, hcur2⟩ := current_first hlat
    rw [← hin.idEx] at hcur1 hcur2
    obtain ⟨r1, r2, hid'⟩ := ha.front.idEx hv
    have hctrl : (stateAt prog mem ins (m + 1)).core.idEx.ctrl =
        Decode.ctrl (prog.fetch (seqAt prog mem ins (m + 1)).arch.pc) := by rw [hid']; rfl
    have hj := (jump_of_taken htaken).2
    rw [hctrl] at hj
    obtain ⟨-, ⟨hcsr, hfence, hmext⟩, -⟩ := jump_ctrl hj
    have hu := ho.operands hc c hlat hin
    have hl := hex
    simp only [Rv32imCore.loadUseEx, Hazard.loadUse, Bool.or_eq_false_iff] at hl
    have hdiv : (stateAt prog mem ins (m + 1)).core.idEx.ctrl.isDiv = false := by simp [Ctrl.isDiv, hctrl, hmext]
    have hbefore : (stateAt prog mem ins m).core.branchTaken = true := by
      rw [← htaken, Rv32imCore.branchTaken, Rv32imCore.branchTaken, Rv32imCore.rs1Forwarded, Rv32imCore.rs2Forwarded,
        Rv32imCore.rs1Forwarded, Rv32imCore.rs2Forwarded, ← hd, hctrl]
      refine taken_congr (fun huse => ?_) fun huse => ?_
      · exact forwarded_before hin hcm hstm hcur1 hl.1
          (hu.rs1 (by simp [Ctrl.forwardsRs1, hctrl, huse, hcsr, hfence]) hdiv)
      · exact forwarded_before hin hcm hstm hcur2 hl.2
          (hu.rs2 (by simp [Ctrl.forwardsRs2, hctrl, huse, hcsr, hfence]) hdiv)
    have hflush : (stateAt prog mem ins m).core.flushIf ((stateAt prog mem ins m).coreIn (ins m)) = true := by
      have hexm : (stateAt prog mem ins m).core.loadUseEx = false := by
        rw [← hex, Rv32imCore.loadUseEx, Rv32imCore.loadUseEx, hx, hd]
      simp [Rv32imCore.flushIf, Rv32imCore.branchFlush, hbefore, hexm]
    have hempty : (stateAt prog mem ins (m + 1)).core.ifId = .bubble := by
      change (stateAt prog mem ins m).core.ifIdNext ((stateAt prog mem ins m).coreIn (ins m)) = _
      rw [Rv32imCore.ifIdNext, if_pos hflush]
    -- so ID waits for nothing
    have h1 : Decode.rs1 IfId.bubble.instruction = 0#5 := by decide
    have h2 : Decode.rs2 IfId.bubble.instruction = 0#5 := by decide
    simp only [Rv32imCore.loadUseId, hempty, h1, h2, Hazard.loadUse, Hazard.loads, Bool.or_self, Bool.and_eq_true,
      bne_iff_ne, beq_iff_eq] at hid
    exact hid.1.2 hid.2

end Agreement

end Ledger

end Vsync
