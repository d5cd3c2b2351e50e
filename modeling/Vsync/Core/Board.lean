/-
The core with an instruction memory and a data bus, and no context switches or debug halts.

The instruction memory (`bram_imem`, port A) answers one cycle after an enabled read. The data bus is `axi4_master` seen
from its command port: it takes a command when it has none, and raises `cmd_done` for one cycle, in any later cycle.
-/
import Vsync.Machine
import Vsync.Core.Memory
import Vsync.Core.Rv32imCore

namespace Vsync

structure DataBus where
  busy : Bool
  rdata : Word
  mem : DataMem

namespace DataBus

def accepts (b : DataBus) (c : BusCmd) : Bool := !b.busy && (c.read || c.write)

def done (b : DataBus) (answer : Bool) : Bool := b.busy && answer

/-- one clock edge; a read goes before a write, and `answer` ends the command in progress -/
def step (b : DataBus) (c : BusCmd) (answer : Bool) : DataBus :=
  if b.busy then (if answer then { b with busy := false } else b)
  else if c.read then { b with busy := true, rdata := b.mem (wordAddr c.addr) }
  else if c.write then { b with busy := true, mem := b.mem.write c.addr c.wdata c.strobe }
  else b

end DataBus

/-- the inputs of the board: when the data bus answers, the interrupt lines, when a syscall is done, and the core's
`mextStarts` -/
structure BoardIn where
  answer : Bool
  irq : IrqLines
  syscallDone : Option Word
  mextStarts : Bool

def BoardIn.quiet : BoardIn := ⟨false, .none, none, false⟩

structure Board where
  core : Rv32imCore
  imemQ : Word
  bus : DataBus

namespace Board

def reset (mem : DataMem) : Board := ⟨.reset, 0, ⟨false, 0, mem⟩⟩

section Cycle

variable (prog : Program) (b : Board) (i : BoardIn)

def coreIn : CoreIn where
  imemRdata := b.imemQ
  memRdata := b.bus.rdata
  memReady := b.bus.done i.answer
  irq := i.irq
  ctxSwitchReq := false
  ctxRestore := none
  syscallDone := i.syscallDone
  debugHaltReq := false
  debugRegAddr := 0
  mextStarts := i.mextStarts

def cmd : BusCmd where
  read := b.core.memRead
  write := b.core.memWrite (b.coreIn i)
  addr := b.core.exMem.aluResult
  wdata := b.core.memWdata
  strobe := b.core.memBe

def step : Board where
  core := b.core.step (b.coreIn i)
  imemQ := if b.core.imemEn (b.coreIn i) then prog.fetch b.core.pc else b.imemQ
  bus := b.bus.step (b.cmd i) i.answer

end Cycle

def stateAt (prog : Program) (mem : DataMem) (ins : ℕ → BoardIn) (n : ℕ) : Board :=
  Machine.trace (step prog) (reset mem) ins n

theorem stateAt_succ (prog : Program) (mem : DataMem) (ins : ℕ → BoardIn) (n : ℕ) :
    stateAt prog mem ins (n + 1) = (stateAt prog mem ins n).step prog (ins n) := rfl

/-! ## No context switch and no debug halt -/

def Plain (b : Board) : Prop := b.core.ctxState = .idle ∧ b.core.debugHalt = false

theorem step_plain {prog : Program} {b : Board} {i : BoardIn} (h : b.Plain) : (b.step prog i).Plain := by
  refine ⟨?_, rfl⟩
  simp [step, Rv32imCore.step, Rv32imCore.ctxNext, h.1, coreIn]

theorem plain (prog : Program) (mem : DataMem) (ins : ℕ → BoardIn) (n : ℕ) : (stateAt prog mem ins n).Plain :=
  Machine.trace_inv (step prog) (reset mem) ins ⟨rfl, rfl⟩ (fun _ _ h => step_plain h) n

end Board

end Vsync
