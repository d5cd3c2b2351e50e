/-
`context_switch.sv`: the register banks and the combined save-and-load transaction.
-/
import Vsync.Pkg

namespace Vsync

inductive CtxState where
  | idle
  | save
  | load
  | done
  deriving DecidableEq, Repr

structure ContextSwitch where
  state : CtxState
  regBanks : TaskId → RegAddr → Word
  savedPc : TaskId → Word
  regIdx : RegAddr
  oldIdLatched : TaskId
  newIdLatched : TaskId
  restorePcReg : Word

namespace ContextSwitch

def reset : ContextSwitch := ⟨.idle, fun _ _ => 0, fun _ => 0, 1, 0, 0, 0⟩

def busy (s : ContextSwitch) : Bool := s.state != .idle

def stallPipeline (s : ContextSwitch) : Bool := s.state == .save || s.state == .load

def switchDone (s : ContextSwitch) : Bool := s.state == .done

def cpuRegAddr (s : ContextSwitch) : RegAddr :=
  match s.state with
  | .save => s.regIdx
  | .load => s.regIdx
  | _ => 0

def cpuRegWe (s : ContextSwitch) : Bool := s.state == .load

def cpuRegWdata (s : ContextSwitch) : Word :=
  match s.state with
  | .load => s.regBanks s.newIdLatched s.regIdx
  | _ => 0

/-- one clock edge; `req` is `switch_req` with `old_task_id` and `new_task_id` -/
def step (s : ContextSwitch) (req : Option (TaskId × TaskId)) (cpuRegRdata cpuPc : Word) : ContextSwitch :=
  match s.state with
  | .idle =>
    match req with
    | some (old, new) =>
      { s with state := .save, regIdx := 1, oldIdLatched := old, newIdLatched := new,
               savedPc := Function.update s.savedPc old cpuPc }
    | none => s
  | .save =>
    let banks := Function.update s.regBanks s.oldIdLatched
      (Function.update (s.regBanks s.oldIdLatched) s.regIdx cpuRegRdata)
    if s.regIdx = 31 then { s with regBanks := banks, state := .load, regIdx := 1 }
    else { s with regBanks := banks, regIdx := s.regIdx + 1 }
  | .load =>
    if s.regIdx = 31 then { s with state := .done, restorePcReg := s.savedPc s.newIdLatched }
    else { s with regIdx := s.regIdx + 1 }
  | .done => { s with state := .idle }

end ContextSwitch

end Vsync
