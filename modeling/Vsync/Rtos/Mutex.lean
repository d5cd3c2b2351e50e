/-
`hw_mutex.sv`: mutexes with an owner, a wait mask and priority inheritance.

`MutexObj` is what the unit keeps between operations; `HwMutex` adds the registered answer and the registered priority
boost. As in the semaphore unit the operation code is a level. `mutexQuiet` says when executing an operation changes
nothing; `mutexExec_eq_self_iff` is the proof.
-/
import Vsync.Rtos.Semaphore

namespace Vsync

/-- `MUTEX_NOP`, `MUTEX_LOCK`, `MUTEX_UNLOCK` -/
inductive MutexOp where
  | nop
  | lock
  | unlock
  deriving DecidableEq, Repr

/-- the 2-bit encoding of the operation port; the code `11` is a no-operation -/
def MutexOp.ofCode (c : BitVec 2) : MutexOp :=
  if c = 0b01#2 then .lock else if c = 0b10#2 then .unlock else .nop

/-- `locked_r`, `owner_id_r`, `original_prio_r`, `wait_mask_r` -/
structure MutexObj where
  locked : MutexId → Bool
  ownerId : MutexId → TaskId
  originalPrio : MutexId → Prio
  waitMask : MutexId → WaitMask

structure MutexArgs where
  mutexId : MutexId
  taskId : TaskId
  prio : TaskId → Prio

/-- one clock edge of the unit on its object -/
def mutexExec (o : MutexObj) (op : MutexOp) (a : MutexArgs) : MutexObj :=
  match op with
  | .nop => o
  | .lock =>
    if o.locked a.mutexId then
      { o with waitMask := Function.update o.waitMask a.mutexId (Function.update (o.waitMask a.mutexId) a.taskId true) }
    else
      { o with
        locked := Function.update o.locked a.mutexId true
        ownerId := Function.update o.ownerId a.mutexId a.taskId
        originalPrio := Function.update o.originalPrio a.mutexId (a.prio a.taskId) }
  | .unlock =>
    if o.locked a.mutexId = true ∧ o.ownerId a.mutexId = a.taskId then
      match bestWake (o.waitMask a.mutexId) a.prio with
      | some w =>
        { o with
          ownerId := Function.update o.ownerId a.mutexId w
          originalPrio := Function.update o.originalPrio a.mutexId (a.prio w)
          waitMask := Function.update o.waitMask a.mutexId (Function.update (o.waitMask a.mutexId) w false) }
      | none =>
        { o with
          locked := Function.update o.locked a.mutexId false
          ownerId := Function.update o.ownerId a.mutexId 0 }
    else o

/-- the answer registered at the same edge -/
def mutexAnswer (o : MutexObj) (op : MutexOp) (a : MutexArgs) : Answer :=
  match op with
  | .nop => .idle
  | .lock => if o.locked a.mutexId then ⟨false, true, none⟩ else ⟨true, false, none⟩
  | .unlock =>
    if o.locked a.mutexId = true ∧ o.ownerId a.mutexId = a.taskId then
      ⟨true, false, bestWake (o.waitMask a.mutexId) a.prio⟩
    else ⟨true, false, none⟩

/-- `prio_boost_id`, `prio_boost_val` while `prio_boost_valid`: an inheriting owner, or the unlocker's restored
priority -/
def mutexBoost (o : MutexObj) (op : MutexOp) (a : MutexArgs) : Option (TaskId × Prio) :=
  match op with
  | .nop => none
  | .lock =>
    if o.locked a.mutexId = true ∧ a.prio (o.ownerId a.mutexId) < a.prio a.taskId then
      some (o.ownerId a.mutexId, a.prio a.taskId)
    else none
  | .unlock =>
    if o.locked a.mutexId = true ∧ o.ownerId a.mutexId = a.taskId then some (a.taskId, o.originalPrio a.mutexId)
    else none

/-- the unit: its object, its answer registers and its boost registers -/
structure HwMutex where
  obj : MutexObj
  ans : Answer
  boost : Option (TaskId × Prio)

def HwMutex.reset : HwMutex :=
  ⟨⟨fun _ => false, fun _ => 0, fun _ => 0, fun _ => noWaiters⟩, .idle, none⟩

def HwMutex.step (u : HwMutex) (op : MutexOp) (a : MutexArgs) : HwMutex :=
  ⟨mutexExec u.obj op a, mutexAnswer u.obj op a, mutexBoost u.obj op a⟩

@[simp] theorem HwMutex.step_obj (u : HwMutex) (op : MutexOp) (a : MutexArgs) :
    (u.step op a).obj = mutexExec u.obj op a := rfl

@[simp] theorem HwMutex.step_ans (u : HwMutex) (op : MutexOp) (a : MutexArgs) :
    (u.step op a).ans = mutexAnswer u.obj op a := rfl

@[simp] theorem HwMutex.step_boost (u : HwMutex) (op : MutexOp) (a : MutexArgs) :
    (u.step op a).boost = mutexBoost u.obj op a := rfl

@[simp] theorem mutexExec_nop (o : MutexObj) (a : MutexArgs) : mutexExec o .nop a = o := rfl

@[simp] theorem mutexAnswer_nop (o : MutexObj) (a : MutexArgs) : mutexAnswer o .nop a = .idle := rfl

/-! ## Executions that change nothing -/

/-- the operation finds the object as it would leave it: a lock by a task that already waits, or an unlock by a task
that is not the owner -/
def mutexQuiet (o : MutexObj) (op : MutexOp) (a : MutexArgs) : Prop :=
  match op with
  | .nop => True
  | .lock => o.locked a.mutexId = true ∧ o.waitMask a.mutexId a.taskId = true
  | .unlock => ¬ (o.locked a.mutexId = true ∧ o.ownerId a.mutexId = a.taskId)

/-- **An execution leaves the object as it was exactly when it is quiet.** -/
theorem mutexExec_eq_self_iff (o : MutexObj) (op : MutexOp) (a : MutexArgs) :
    mutexExec o op a = o ↔ mutexQuiet o op a := by
  cases op with
  | nop => simp [mutexQuiet]
  | lock =>
    simp only [mutexExec, mutexQuiet]
    split_ifs with hl
    · simp only [hl, true_and]
      constructor
      · intro h
        have := congrArg (fun x => x.waitMask a.mutexId a.taskId) h
        simpa using this.symm
      · intro h
        cases o
        simp only at h hl ⊢
        simp [← h]
    · simp only [hl, Bool.false_eq_true, false_and, iff_false]
      intro h
      have := congrArg (fun x => x.locked a.mutexId) h
      simp [hl] at this
  | unlock =>
    simp only [mutexExec, mutexQuiet]
    split_ifs with ho
    · simp only [ho, and_self, not_true_eq_false, iff_false]
      cases hb : bestWake (o.waitMask a.mutexId) a.prio with
      | some w =>
        intro h
        have := congrArg (fun x => x.waitMask a.mutexId w) h
        simp [bestWake_mem hb] at this
      | none =>
        intro h
        have := congrArg (fun x => x.locked a.mutexId) h
        simp [ho.1] at this
    · simp [ho]

end Vsync
