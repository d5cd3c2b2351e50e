/-
`csr_unit.sv` and `exception_unit.sv`: the machine-mode CSRs and the choice of a trap.
-/
import Vsync.Core.PipeRegs

namespace Vsync

namespace CsrAddr

def MSTATUS : BitVec 12 := 0x300
def MISA : BitVec 12 := 0x301
def MIE : BitVec 12 := 0x304
def MTVEC : BitVec 12 := 0x305
def MSCRATCH : BitVec 12 := 0x340
def MEPC : BitVec 12 := 0x341
def MCAUSE : BitVec 12 := 0x342
def MTVAL : BitVec 12 := 0x343
def MIP : BitVec 12 := 0x344
def MCYCLE : BitVec 12 := 0xB00
def MCYCLEH : BitVec 12 := 0xB80
def MINSTRET : BitVec 12 := 0xB02
def MINSTRETH : BitVec 12 := 0xB82
def MIMPID : BitVec 12 := 0xF13

end CsrAddr

namespace Cause

def M_SW_INT : Word := 0x80000003
def M_TIMER_INT : Word := 0x80000007
def M_EXT_INT : Word := 0x8000000B
def INSTR_MISALIGN : Word := 0
def ILLEGAL_INSTR : Word := 2
def BREAKPOINT : Word := 3
def LOAD_MISALIGN : Word := 4
def STORE_MISALIGN : Word := 6

end Cause

structure IrqLines where
  ext : Bool
  timer : Bool
  sw : Bool
  deriving DecidableEq, Repr

def IrqLines.none : IrqLines := ⟨false, false, false⟩

/-- what the exception unit tells the CSRs and the pipeline: `exception_cause`, `exception_pc` and `exception_val` of a
taken exception, or an `mret`; with `redirect_pc` -/
inductive Trap where
  | nothing
  | taken (cause pc val redirectPc : Word)
  | mret (redirectPc : Word)
  deriving DecidableEq, Repr

namespace Trap

/-- `redirect_valid` and `flush_all`, which the unit drives alike -/
def redirects : Trap → Bool
  | nothing => false
  | taken .. => true
  | mret _ => true

def redirectPc : Trap → Word
  | nothing => 0
  | taken _ _ _ r => r
  | mret r => r

end Trap

structure CsrUnit where
  mstatusMie : Bool
  mstatusMpie : Bool
  mie : Word
  mip : Word
  mtvec : Word
  mscratch : Word
  mepc : Word
  mcause : Word
  mtval : Word
  mcycle : BitVec 64
  minstret : BitVec 64
  deriving DecidableEq, Repr

structure CsrAccess where
  en : Bool
  op : BitVec 2
  imm : Bool
  addr : BitVec 12
  wdata : Word

namespace CsrUnit

def reset : CsrUnit := ⟨false, false, 0, 0, 0, 0, 0, 0, 0, 0, 0⟩

/-- `MISA_VALUE`: the literal has thirty digits, and bits 31 and 30 are 0 -/
def MISA_VALUE : Word := 0x10001100

def bitIf (b : Bool) (n : ℕ) : Word := if b then BitVec.twoPow 32 n else 0

section Unit

variable (s : CsrUnit)

/-- `csr_rdata` -/
def read (addr : BitVec 12) : Word :=
  if addr = CsrAddr.MSTATUS then bitIf s.mstatusMie 3 ||| bitIf s.mstatusMpie 7 ||| 0x1800
  else if addr = CsrAddr.MISA then MISA_VALUE
  else if addr = CsrAddr.MIE then s.mie
  else if addr = CsrAddr.MTVEC then s.mtvec
  else if addr = CsrAddr.MSCRATCH then s.mscratch
  else if addr = CsrAddr.MEPC then s.mepc
  else if addr = CsrAddr.MCAUSE then s.mcause
  else if addr = CsrAddr.MTVAL then s.mtval
  else if addr = CsrAddr.MIP then s.mip
  else if addr = CsrAddr.MCYCLE then s.mcycle.extractLsb' 0 32
  else if addr = CsrAddr.MCYCLEH then s.mcycle.extractLsb' 32 32
  else if addr = CsrAddr.MINSTRET then s.minstret.extractLsb' 0 32
  else if addr = CsrAddr.MINSTRETH then s.minstret.extractLsb' 32 32
  else if addr = CsrAddr.MIMPID then 1
  else 0

def newValue (a : CsrAccess) : Word :=
  let wdata := if a.imm then (a.wdata.extractLsb' 0 5).setWidth 32 else a.wdata
  if a.op = 0b01#2 then wdata
  else if a.op = 0b10#2 then s.read a.addr ||| wdata
  else if a.op = 0b11#2 then s.read a.addr &&& ~~~wdata
  else s.read a.addr

/-- the registers that every edge updates: `mip_r` and the two counters -/
def tick (irq : IrqLines) (retire : Bool) : CsrUnit :=
  { s with
    mip := (s.mip &&& ~~~0x888#32) ||| bitIf irq.sw 3 ||| bitIf irq.timer 7 ||| bitIf irq.ext 11
    mcycle := s.mcycle + 1
    minstret := if retire then s.minstret + 1 else s.minstret }

/-- a CSR write over `t`, the ticked registers -/
def write (a : CsrAccess) (t : CsrUnit) : CsrUnit :=
  let v := s.newValue a
  if a.addr = CsrAddr.MSTATUS then { t with mstatusMie := v.getLsbD 3, mstatusMpie := v.getLsbD 7 }
  else if a.addr = CsrAddr.MIE then { t with mie := v }
  else if a.addr = CsrAddr.MTVEC then { t with mtvec := v }
  else if a.addr = CsrAddr.MSCRATCH then { t with mscratch := v }
  else if a.addr = CsrAddr.MEPC then { t with mepc := v &&& ~~~1#32 }
  else if a.addr = CsrAddr.MCAUSE then { t with mcause := v }
  else if a.addr = CsrAddr.MTVAL then { t with mtval := v }
  else if a.addr = CsrAddr.MIP then { t with mip := (t.mip &&& ~~~0x8#32) ||| bitIf (v.getLsbD 3) 3 }
  else if a.addr = CsrAddr.MCYCLE then { t with mcycle := t.mcycle.extractLsb' 32 32 ++ v }
  else if a.addr = CsrAddr.MCYCLEH then { t with mcycle := v ++ t.mcycle.extractLsb' 0 32 }
  else if a.addr = CsrAddr.MINSTRET then { t with minstret := t.minstret.extractLsb' 32 32 ++ v }
  else if a.addr = CsrAddr.MINSTRETH then { t with minstret := v ++ t.minstret.extractLsb' 0 32 }
  else t

def step (a : CsrAccess) (trap : Trap) (retire : Bool) (irq : IrqLines) : CsrUnit :=
  let t := s.tick irq retire
  match trap with
  | .taken cause pc val _ =>
    { t with mepc := pc, mcause := cause, mtval := val, mstatusMpie := s.mstatusMie, mstatusMie := false }
  | .mret _ => { t with mstatusMie := s.mstatusMpie, mstatusMpie := true }
  | .nothing => if a.en && a.op != 0b00#2 then s.write a t else t

end Unit

end CsrUnit

/-- the exception sources of one cycle (`ecall` is tied to 0) -/
structure ExcIn where
  illegalInstr : Bool
  ebreak : Bool
  mret : Bool
  loadMisalign : Bool
  storeMisalign : Bool
  instrMisalign : Bool
  pc : Word
  mstatusMie : Bool
  mie : Word
  irq : IrqLines
  mtvec : Word
  mepc : Word

namespace ExcIn

variable (e : ExcIn)

/-- the cause of the pending interrupt that wins: external, timer, software -/
def irqCause : Option Word :=
  if e.mstatusMie && e.mie.getLsbD 11 && e.irq.ext then some Cause.M_EXT_INT
  else if e.mstatusMie && e.mie.getLsbD 7 && e.irq.timer then some Cause.M_TIMER_INT
  else if e.mstatusMie && e.mie.getLsbD 3 && e.irq.sw then some Cause.M_SW_INT
  else none

def anyException : Bool := e.illegalInstr || e.ebreak || e.loadMisalign || e.storeMisalign || e.instrMisalign

/-- cause and value of the exception that wins -/
def causeVal : Word × Word :=
  if e.instrMisalign then (Cause.INSTR_MISALIGN, e.pc)
  else if e.illegalInstr then (Cause.ILLEGAL_INSTR, 0)
  else if e.ebreak then (Cause.BREAKPOINT, e.pc)
  else if e.loadMisalign then (Cause.LOAD_MISALIGN, 0)
  else (Cause.STORE_MISALIGN, 0)

def base : Word := e.mtvec &&& ~~~3#32

/-- `exception_unit` -/
def trap : Trap :=
  match e.irqCause with
  | some cause =>
    .taken cause e.pc 0 (if e.mtvec.extractLsb' 0 2 = 0b01#2 then e.base + (cause.extractLsb' 0 30 ++ 0b00#2)
      else e.base)
  | none =>
    if e.anyException then .taken e.causeVal.1 e.pc e.causeVal.2 e.base
    else if e.mret then .mret e.mepc
    else .nothing

end ExcIn

end Vsync
