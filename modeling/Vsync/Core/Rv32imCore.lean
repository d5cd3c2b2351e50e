/-
`rv32im_core.sv` with `fetch_stage`, `execute_stage` and `register_file`: the signals of one cycle and the registers
after it.

The signals stand in the order in which they depend on one another, but for one loop: `mext_busy` stalls EX,
`mext_start` waits for the stall, and `mext_busy` reads `mext_start`. Behind a division in progress an immediate
operation may start or wait, and both are solutions of the loop; the input `mextStarts` says which one it settles in
(`mextBusy_eq`, `mextBusy_settles`). Left out, as nothing here reads them: the debug
probes, `mem_error`, `ctx_restore_pc` (the core never resumes there), and the task id ports.
-/
import Vsync.Core.Alu
import Vsync.Core.Csr
import Vsync.Core.Decode
import Vsync.Core.Hazard
import Vsync.Core.MemoryStage
import Vsync.Core.MulDiv

namespace Vsync

/-- `syscall_state_t` -/
inductive SysState where
  | idle
  | readA7
  | readA0
  | readA1
  | readA2
  | wait
  | writeback
  deriving DecidableEq, Repr

/-- `ctx_state_t` of the core -/
inductive CoreCtx where
  | idle
  | flush
  | saveRegs
  | savePc
  | waitRestore
  | restoreRegs
  | resume
  deriving DecidableEq, Repr

/-- `ctx_restore_en` and `syscall_done` come as the `Option` of their data -/
structure CoreIn where
  imemRdata : Word
  memRdata : Word
  memReady : Bool
  irq : IrqLines
  ctxSwitchReq : Bool
  ctxRestore : Option (RegAddr × Word)
  syscallDone : Option Word
  debugHaltReq : Bool
  debugRegAddr : RegAddr
  /-- an immediate operation starts behind a division in progress -/
  mextStarts : Bool

structure Rv32imCore where
  pc : Word
  pcDelayed : Word
  suppressValid : Bool
  ifId : IfId
  idEx : IdEx
  exMem : ExMem
  memWb : MemWb
  regs : RegAddr → Word
  memReqSent : Bool
  csr : CsrUnit
  muldiv : MulDiv
  sysState : SysState
  syscallNum : BitVec 8
  syscallArg0 : Word
  syscallArg1 : Word
  syscallArg2 : Word
  syscallRetData : Word
  ctxState : CoreCtx
  ctxRegCounter : RegAddr
  debugHalt : Bool

namespace Rv32imCore

def reset : Rv32imCore where
  pc := 0
  pcDelayed := 0
  suppressValid := true
  ifId := .bubble
  idEx := .bubble
  exMem := .bubble
  memWb := .bubble
  regs := fun _ => 0
  memReqSent := false
  csr := .reset
  muldiv := .reset
  sysState := .idle
  syscallNum := 0
  syscallArg0 := 0
  syscallArg1 := 0
  syscallArg2 := 0
  syscallRetData := 0
  ctxState := .idle
  ctxRegCounter := 0
  debugHalt := false

section Signals

variable (s : Rv32imCore) (i : CoreIn)

/-! ## Operands -/

/-- the operand `x` of the instruction in EX after forwarding; `latch` is what ID/EX holds for it -/
def forwarded (x : RegAddr) (latch : Word) : Word :=
  match Hazard.forward s.exMem s.memWb x with
  | .reg => latch
  | .exMem => s.exMem.aluResult
  | .memWb => s.memWb.rdData

def rs1Forwarded : Word := s.forwarded s.idEx.rs1Addr s.idEx.rs1Data

def rs2Forwarded : Word := s.forwarded s.idEx.rs2Addr s.idEx.rs2Data

/-! ## Stalls -/

def memOpActive : Bool := (s.exMem.memRead || s.exMem.memWrite) && s.exMem.valid

def memStall : Bool := s.memOpActive && !(s.memReqSent && i.memReady)

def ctxActive : Bool := s.ctxState != .idle

def syscallActive : Bool := s.sysState != .idle

def stallMem : Bool := s.memStall i || s.ctxActive || s.syscallActive || s.debugHalt

def mextInEx : Bool := s.idEx.ctrl.mextEn && s.idEx.valid

def mextBusy : Bool :=
  s.muldiv.calculating &&
    !(i.mextStarts && s.mextInEx && !s.stallMem i &&
      MulDiv.immediate s.idEx.ctrl.mextOp s.rs1Forwarded s.rs2Forwarded)

/-- `stall_ex`; the hazard unit does not stall EX -/
def stallEx : Bool := s.stallMem i || s.mextBusy i

def mextStart : Bool := s.mextInEx && !s.stallEx i

def loadUseId : Bool := Hazard.loadUse s.exMem (Decode.rs1 s.ifId.instruction) (Decode.rs2 s.ifId.instruction)

def loadUseEx : Bool := Hazard.loadUse s.exMem s.idEx.rs1Addr s.idEx.rs2Addr

def loadUse : Bool := s.loadUseId || s.loadUseEx

def stallId : Bool := s.loadUse || s.stallEx i

/-! ## Register file -/

/-- the write port: context restore over syscall writeback over WB -/
def writePort : Option (RegAddr × Word) :=
  match (if s.ctxState = .restoreRegs then i.ctxRestore else none) with
  | some p => some p
  | none =>
    if s.sysState = .writeback then some (10, s.syscallRetData)
    else if s.memWb.writes then some (s.memWb.rdAddr, s.memWb.rdData)
    else none

/-- a read port, with the write-first bypass -/
def readPort (addr : RegAddr) : Word :=
  if addr = 0 then 0
  else
    match s.writePort i with
    | some (rd, v) => if rd = addr then v else s.regs addr
    | none => s.regs addr

def regsNext : RegAddr → Word :=
  match s.writePort i with
  | some (rd, v) => if rd = 0 then s.regs else Function.update s.regs rd v
  | none => s.regs

def rfRs1Addr : RegAddr :=
  if s.ctxState = .saveRegs then s.ctxRegCounter
  else if s.debugHalt then i.debugRegAddr
  else Decode.rs1 s.ifId.instruction

def rfRs2Addr : RegAddr :=
  match s.sysState with
  | .readA7 => 17
  | .readA0 => 10
  | .readA1 => 11
  | .readA2 => 12
  | _ => Decode.rs2 s.ifId.instruction

/-! ## Execute stage -/

def aluResult : Word :=
  alu s.idEx.ctrl.aluOp (if s.idEx.ctrl.aluSrcA then s.idEx.pc else s.rs1Forwarded)
    (if s.idEx.ctrl.aluSrcB then s.idEx.immediate else s.rs2Forwarded)

def branchTaken : Bool := BranchUnit.taken s.idEx.ctrl s.idEx.valid s.rs1Forwarded s.rs2Forwarded

def branchTarget : Word :=
  BranchUnit.target s.idEx.ctrl s.idEx.valid s.rs1Forwarded s.idEx.pc s.idEx.immediate

def exeResult : Word :=
  if s.idEx.ctrl.mextEn then
    (s.muldiv.result (s.mextStart i) s.idEx.ctrl.mextOp s.rs1Forwarded s.rs2Forwarded).getD s.aluResult
  else s.aluResult

def executed : ExMem where
  pc := s.idEx.pc
  aluResult := s.exeResult i
  rs2Data := s.rs2Forwarded
  rdAddr := s.idEx.rdAddr
  regWrite := s.idEx.ctrl.regWrite && s.idEx.valid
  wbSel := s.idEx.ctrl.wbSel
  memRead := s.idEx.ctrl.memRead && s.idEx.valid
  memWrite := s.idEx.ctrl.memWrite && s.idEx.valid
  memFunct3 := s.idEx.ctrl.memFunct3
  valid := s.idEx.valid

/-! ## Traps and redirects -/

def misaligned : Bool := MemoryStage.misaligned s.exMem.memFunct3 s.exMem.aluResult

def loadMisalign : Bool := s.exMem.valid && s.exMem.memRead && s.misaligned

def storeMisalign : Bool := s.exMem.valid && s.exMem.memWrite && s.misaligned

def instrMisalign : Bool := s.branchTaken && s.branchTarget.extractLsb' 0 2 != 0#2

/-- the exception unit's inputs; interrupts wait for a syscall in progress -/
def excIn : ExcIn where
  illegalInstr := s.idEx.ctrl.illegalInstr && s.idEx.valid
  ebreak := s.idEx.ctrl.ebreak && s.idEx.valid
  mret := s.idEx.ctrl.mret && s.idEx.valid
  loadMisalign := s.loadMisalign
  storeMisalign := s.storeMisalign
  instrMisalign := s.instrMisalign
  pc := s.idEx.pc
  mstatusMie := s.csr.mstatusMie && !s.syscallActive
  mie := s.csr.mie
  irq := i.irq
  mtvec := s.csr.mtvec
  mepc := s.csr.mepc

def trap : Trap := (s.excIn i).trap

/-- `exc_flush_all`, `exc_redirect_valid` -/
def flushAll : Bool := (s.trap i).redirects

def ecallDetected : Bool := s.idEx.valid && s.idEx.ctrl.ecall && s.sysState == .idle

/-- `hazard_ctrl.flush_if` and `hazard_ctrl.flush_id`: the gated branch -/
def branchFlush : Bool := s.branchTaken && !s.loadUseEx

def flushIf : Bool := s.branchFlush || s.flushAll i || s.ctxState == .flush || s.ecallDetected

def flushId : Bool :=
  (s.branchFlush && !s.stallEx i) || s.flushAll i || s.ctxState == .flush || s.ecallDetected

def flushEx : Bool := s.loadUse || s.flushAll i || s.ctxState == .flush || s.ecallDetected

def flushMem : Bool := s.flushAll i || s.ctxState == .flush

/-- `pipe_branch_taken` with `pipe_branch_target` -/
def redirect : Option Word :=
  if s.flushAll i then some (s.trap i).redirectPc
  else if s.ecallDetected then some (s.idEx.pc + 4)
  else if s.branchFlush then some s.branchTarget
  else none

/-! ## Memory interface -/

def memRead : Bool := s.exMem.memRead && s.exMem.valid

def memWrite : Bool := s.exMem.memWrite && s.exMem.valid && !s.flushMem i

def memWdata : Word :=
  if s.exMem.memWrite && s.exMem.valid then
    MemoryStage.storeData s.exMem.memFunct3 s.exMem.aluResult s.exMem.rs2Data
  else 0

def memBe : BitVec 4 :=
  if s.exMem.memWrite && s.exMem.valid then MemoryStage.byteEnable s.exMem.memFunct3 s.exMem.aluResult else 0

def memDone : MemWb where
  pc := s.exMem.pc
  aluResult := s.exMem.aluResult
  memRdata := MemoryStage.loadData s.exMem.memFunct3 s.exMem.aluResult i.memRdata
  rdAddr := s.exMem.rdAddr
  regWrite := s.exMem.regWrite && s.exMem.valid
  wbSel := s.exMem.wbSel
  valid := s.exMem.valid

def imemEn : Bool := !s.stallId i

/-! ## Next state -/

def pcNext : Word :=
  match s.redirect i with
  | some t => t
  | none => if s.stallId i then s.pc else s.pc + 4

def suppressNext : Bool := (s.redirect i).isSome || (s.suppressValid && s.stallId i)

def ifIdNext : IfId :=
  if s.flushIf i then .bubble
  else if s.stallId i then s.ifId
  else ⟨s.pcDelayed, i.imemRdata, !s.suppressValid⟩

def idExNext : IdEx :=
  if s.flushId i then .bubble
  else if s.stallId i then s.idEx
  else Decode.idEx s.ifId (s.readPort i (s.rfRs1Addr i)) (s.readPort i s.rfRs2Addr)

/-- in EX/MEM the stall goes before the flush -/
def exMemNext : ExMem :=
  if s.stallEx i then s.exMem
  else if s.flushEx i then .bubble
  else s.executed i

/-- in MEM/WB the flush goes before the stall -/
def memWbNext : MemWb :=
  if s.flushMem i then .bubble
  else if s.stallMem i then s.memWb
  else s.memDone i

def memReqSentNext : Bool :=
  if s.memOpActive && !s.memReqSent then true
  else if s.memReqSent && i.memReady then false
  else s.memReqSent

def sysNext : SysState :=
  match s.sysState with
  | .idle => if s.ecallDetected then .readA7 else .idle
  | .readA7 => .readA0
  | .readA0 => .readA1
  | .readA1 => .readA2
  | .readA2 => .wait
  | .wait => if i.syscallDone.isSome then .writeback else .wait
  | .writeback => .idle

def ctxNext : CoreCtx :=
  match s.ctxState with
  | .idle => if i.ctxSwitchReq && !s.syscallActive then .flush else .idle
  | .flush => .saveRegs
  | .saveRegs => if s.ctxRegCounter = 31 then .savePc else .saveRegs
  | .savePc => .waitRestore
  | .waitRestore => if i.ctxRestore.isSome then .restoreRegs else .waitRestore
  | .restoreRegs => if i.ctxRestore.isNone && s.ctxRegCounter != 0 then .resume else .restoreRegs
  | .resume => .idle

def ctxRegCounterNext : RegAddr :=
  match s.ctxState with
  | .idle => if i.ctxSwitchReq && !s.syscallActive then 0 else s.ctxRegCounter
  | .flush => 0
  | .saveRegs => if s.ctxRegCounter = 31 then s.ctxRegCounter else s.ctxRegCounter + 1
  | .savePc => s.ctxRegCounter
  | .waitRestore => if i.ctxRestore.isSome then 0 else s.ctxRegCounter
  | .restoreRegs => if i.ctxRestore.isSome then s.ctxRegCounter + 1 else s.ctxRegCounter
  | .resume => s.ctxRegCounter

/-- the CSR access of the instruction in EX; a register operand is the latched one -/
def csrAccess : CsrAccess where
  en := s.idEx.ctrl.csrEn && s.idEx.valid
  op := s.idEx.ctrl.csrOp
  imm := s.idEx.ctrl.csrImm
  addr := s.idEx.csrAddr
  wdata := s.idEx.rs1Data

def step : Rv32imCore where
  pc := s.pcNext i
  pcDelayed := if s.stallId i then s.pcDelayed else s.pc
  suppressValid := s.suppressNext i
  ifId := s.ifIdNext i
  idEx := s.idExNext i
  exMem := s.exMemNext i
  memWb := s.memWbNext i
  regs := s.regsNext i
  memReqSent := s.memReqSentNext i
  csr := s.csr.step s.csrAccess (s.trap i) s.memWb.valid i.irq
  muldiv := s.muldiv.step (s.mextStart i) s.idEx.ctrl.mextOp s.rs1Forwarded s.rs2Forwarded
  sysState := s.sysNext i
  syscallNum := if s.sysState = .readA7 then (s.readPort i s.rfRs2Addr).setWidth 8 else s.syscallNum
  syscallArg0 := if s.sysState = .readA0 then s.readPort i s.rfRs2Addr else s.syscallArg0
  syscallArg1 := if s.sysState = .readA1 then s.readPort i s.rfRs2Addr else s.syscallArg1
  syscallArg2 := if s.sysState = .readA2 then s.readPort i s.rfRs2Addr else s.syscallArg2
  syscallRetData := if s.sysState = .wait then i.syscallDone.getD s.syscallRetData else s.syscallRetData
  ctxState := s.ctxNext i
  ctxRegCounter := s.ctxRegCounterNext i
  debugHalt := i.debugHaltReq

/-- the oldest instruction behind EX/MEM: in ID/EX, else in IF/ID, else the one that arrives, or will be fetched -/
def resumePc : Word :=
  if s.idEx.valid then s.idEx.pc
  else if s.ifId.valid then s.ifId.pc
  else if s.suppressValid then s.pc
  else s.pcDelayed

end Signals

/-! ## The loop of `mext_busy` and `mext_start` -/

section Loop

variable {s : Rv32imCore} {i : CoreIn}

/-- only a division in progress stalls EX -/
theorem mextBusy_of_not_calculating (h : s.muldiv.calculating = false) : s.mextBusy i = false := by
  rw [mextBusy, h]
  rfl

/-- what is no multiplication or division waits for a division in progress -/
theorem mextBusy_of_other (h : s.mextInEx = false) : s.mextBusy i = s.muldiv.calculating := by
  simp [mextBusy, h]

/-- `mext_busy` is the unit's `busy` at the core's `mext_start` -/
theorem mextBusy_eq :
    s.mextBusy i = s.muldiv.busy (s.mextStart i) s.idEx.ctrl.mextOp s.rs1Forwarded s.rs2Forwarded := by
  unfold mextStart stallEx mextBusy MulDiv.busy
  cases s.muldiv.calculating <;> cases i.mextStarts <;> cases s.mextInEx <;> cases s.stallMem i <;>
    cases MulDiv.immediate s.idEx.ctrl.mextOp s.rs1Forwarded s.rs2Forwarded <;> rfl

/-- the loop has no other solutions than the two of `mextStarts` -/
theorem mextBusy_settles {busy start : Bool}
    (hb : busy = s.muldiv.busy start s.idEx.ctrl.mextOp s.rs1Forwarded s.rs2Forwarded)
    (hs : start = (s.mextInEx && !(s.stallMem i || busy))) :
    ∃ c, s.mextBusy { i with mextStarts := c } = busy ∧ s.mextStart { i with mextStarts := c } = start := by
  have hmem (c : Bool) : s.stallMem { i with mextStarts := c } = s.stallMem i := rfl
  refine ⟨start, ?_⟩
  unfold mextStart stallEx mextBusy
  unfold MulDiv.busy at hb
  rw [hmem]
  revert hb hs
  cases s.muldiv.calculating <;> cases s.mextInEx <;> cases s.stallMem i <;>
    cases MulDiv.immediate s.idEx.ctrl.mextOp s.rs1Forwarded s.rs2Forwarded <;> cases busy <;> cases start <;> simp

end Loop

end Rv32imCore

end Vsync
