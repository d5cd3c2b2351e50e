/-
`task_scheduler.sv`: the linear scan for the best ready task and the preemption decision.
-/
import Vsync.Rtos.Tcb

namespace Vsync

inductive SchedState where
  | idle
  | scan
  | preempt
  | switch
  | done
  deriving DecidableEq, Repr

structure TaskScheduler where
  state : SchedState
  scanIdx : TaskId
  bestTaskId : TaskId
  bestPrio : Prio
  foundReady : Bool
  nextTaskIdReg : TaskId
  switchRequestReg : Bool
  deriving DecidableEq, Repr

namespace TaskScheduler

def reset : TaskScheduler := ⟨.idle, 0, 0, 0, false, 0, false⟩

def busy (s : TaskScheduler) : Bool := s.state != .idle

def done (s : TaskScheduler) : Bool := s.state == .done

def takes (s : TaskScheduler) (t : TcbArray) : Bool :=
  (t s.scanIdx).valid && (t s.scanIdx).state == .ready &&
    (!s.foundReady || decide (s.bestPrio < (t s.scanIdx).prioLevel) ||
      ((t s.scanIdx).prioLevel == s.bestPrio && decide (s.scanIdx < s.bestTaskId)))

/-- the `SCHED_PREEMPT` test: the best candidate is another task, and it has a higher priority or the current task is
not running -/
def preempts (s : TaskScheduler) (current : TaskId) (t : TcbArray) : Bool :=
  s.foundReady && s.bestTaskId != current &&
    (decide ((t current).prioLevel < s.bestPrio) || (t current).state != .running)

/-- one clock edge of the scheduler -/
def step (s : TaskScheduler) (trigger : Bool) (current : TaskId) (t : TcbArray) : TaskScheduler :=
  match s.state with
  | .idle =>
    if trigger then
      { s with state := .scan, scanIdx := 0, bestTaskId := 0, bestPrio := 0, foundReady := false,
               switchRequestReg := false }
    else { s with switchRequestReg := false }
  | .scan =>
    let s' := if s.takes t then
        { s with bestTaskId := s.scanIdx, bestPrio := (t s.scanIdx).prioLevel, foundReady := true }
      else s
    if s.scanIdx = 15 then { s' with state := .preempt } else { s' with scanIdx := s.scanIdx + 1 }
  | .preempt =>
    if s.preempts current t then { s with nextTaskIdReg := s.bestTaskId, state := .switch }
    else { s with nextTaskIdReg := current, state := .done }
  | .switch => { s with switchRequestReg := true, state := .done }
  | .done => { s with state := .idle }

end TaskScheduler

end Vsync
