/-
The shared types and parameters of `vsync_pkg.sv`.

A field of the source that is an enumeration is an inductive type here; a data word is a `BitVec` of its width; a
task, semaphore, mutex or queue id is a `Fin` of the number of such objects (the id widths are the exact logarithms).
-/
import Mathlib.Tactic

namespace Vsync

/-- `XLEN` = 32 -/
abbrev Word := BitVec 32

/-- `REG_ADDR_W` = 5 -/
abbrev RegAddr := BitVec 5

/-- `MAX_TASKS` = 16, `TASK_ID_W` = 4 -/
abbrev TaskId := Fin 16

/-- `TASK_PRIORITY_W` = 4; a higher number is a higher priority -/
abbrev Prio := BitVec 4

/-- `TIME_SLICE_W` = 16 -/
abbrev Slice := BitVec 16

/-- `NUM_SEMS` = 8 -/
abbrev SemId := Fin 8

/-- `NUM_MUTEXES` = 8 -/
abbrev MutexId := Fin 8

/-- `NUM_QUEUES` = 4 -/
abbrev QueueId := Fin 4

instance neZero_tasks : NeZero 16 := ⟨by decide⟩
instance neZero_objects : NeZero 8 := ⟨by decide⟩
instance neZero_queues : NeZero 4 := ⟨by decide⟩

inductive TaskState where
  | ready
  | running
  | blocked
  | suspended
  | dormant
  deriving DecidableEq, Repr

structure Tcb where
  taskId : TaskId
  prioLevel : Prio
  state : TaskState
  pc : Word
  sp : Word
  timeSlice : Slice
  valid : Bool
  deriving DecidableEq, Repr

/-- the low bits of a word as an id, as a part select `[w-1:0]` gives them -/
def lowId (n : ℕ) [NeZero n] (x : Word) : Fin n := Fin.ofNat n x.toNat

end Vsync
