/-
`hw_rtos.sv`: the scheduler FSM with its sub-units.

The clocked process of the source is split by register: `stateWrNext s i` is what the assignments to `state_wr_en`,
`state_wr_id` and `state_wr_data` leave after a cycle with state `s` and inputs `i`, and so on. A pulse with its
operands is an `Option` (`none` is the pulse low; the source reads the operands of a pulse only while it is high).
`step` puts the registers together with one step of each sub-unit.

The AXI-Lite slave of the module enters through its two request registers, `axiWrTimeSlice` and `axiWrReschedule`, which
are inputs here. The PMP unit hangs on constant inputs and has no influence.
-/
import Vsync.Rtos.Scheduler
import Vsync.Rtos.ContextSwitch
import Vsync.Rtos.Mutex
import Vsync.Rtos.MsgQueue

namespace Vsync

inductive SchedFsm where
  | idle
  | scanReady
  | comparePriority
  | preemptCheck
  | contextSave
  | contextLoad
  | dispatch
  | timerUpdate
  | taskCreate
  | taskExit
  | blockTask
  | unblockTask
  | waitCtxAck
  | taskJoin
  | exitSettle
  deriving DecidableEq, Repr

structure RtosIn where
  schedulerEn : Bool
  ctxSwitchAck : Bool
  ctxSaveRegData : Word
  ctxSavePc : Word
  timerTick : Bool
  taskCreate : Bool
  createArgs : CreateArgs
  taskExit : Bool
  taskJoin : Bool
  taskTargetId : TaskId
  taskYield : Bool
  semOp : BitVec 2
  semId : SemId
  semValue : BitVec 8
  mutexOp : BitVec 2
  mutexId : MutexId
  msgqOp : BitVec 2
  msgqId : QueueId
  msgqData : Word
  axiWrTimeSlice : Option Slice
  axiWrReschedule : Bool

/-- a cycle without a request, with the scheduler enabled -/
def RtosIn.quiet : RtosIn where
  schedulerEn := true
  ctxSwitchAck := false
  ctxSaveRegData := 0
  ctxSavePc := 0
  timerTick := false
  taskCreate := false
  createArgs := ⟨0, 0, 0⟩
  taskExit := false
  taskJoin := false
  taskTargetId := 0
  taskYield := false
  semOp := 0
  semId := 0
  semValue := 0
  mutexOp := 0
  mutexId := 0
  msgqOp := 0
  msgqId := 0
  msgqData := 0
  axiWrTimeSlice := none
  axiWrReschedule := false

/-- the registers of the module and the states of its sub-units -/
structure HwRtos where
  fsmState : SchedFsm
  currentTaskIdR : TaskId
  nextTaskIdR : TaskId
  taskActiveR : Bool
  schedTrigger : Bool
  csSwitchReq : Option (TaskId × TaskId)
  create : Option (TaskId × CreateArgs)
  delete : Option TaskId
  stateWr : Option (TaskId × TaskState)
  tcbWrEn : Bool
  tcbRdId : TaskId
  tsReload : Option (TaskId × Slice)
  timerTickPending : Bool
  needReschedule : Bool
  timeSliceConfig : Slice
  taskCreateDone : Option TaskId
  taskJoinDone : Bool
  semDone : Option Bool
  mutexDone : Option Bool
  msgqDone : Option (Bool × Word)
  semOpInt : BitVec 2
  semIdInt : SemId
  mutexOpInt : BitVec 2
  mutexIdInt : MutexId
  msgqOpInt : BitVec 2
  msgqQueueId : QueueId
  msgqDataIn : Word
  semOpPending : Bool
  mutexOpPending : Bool
  msgqOpPending : Bool
  wakeTargetId : TaskId
  wakePending : Bool
  joinTarget : TaskId → TaskId
  joinValid : TaskId → Bool
  prioBoostWrPending : Bool
  prioBoostIdR : TaskId
  prioBoostValR : Prio
  taskCreatePending : Bool
  taskCreateR : CreateArgs
  tcb : TcbArray
  sched : TaskScheduler
  cs : ContextSwitch
  sem : HwSemaphore
  mutex : HwMutex
  msgq : HwMsgQueue

namespace HwRtos

def defaultTimeSlice : Slice := 1000

def reset : HwRtos where
  fsmState := .idle
  currentTaskIdR := 0
  nextTaskIdR := 0
  taskActiveR := false
  schedTrigger := false
  csSwitchReq := none
  create := none
  delete := none
  stateWr := none
  tcbWrEn := false
  tcbRdId := 0
  tsReload := none
  timerTickPending := false
  needReschedule := false
  timeSliceConfig := defaultTimeSlice
  taskCreateDone := none
  taskJoinDone := false
  semDone := none
  mutexDone := none
  msgqDone := none
  semOpInt := 0
  semIdInt := 0
  mutexOpInt := 0
  mutexIdInt := 0
  msgqOpInt := 0
  msgqQueueId := 0
  msgqDataIn := 0
  semOpPending := false
  mutexOpPending := false
  msgqOpPending := false
  wakeTargetId := 0
  wakePending := false
  joinTarget := fun _ => 0
  joinValid := fun _ => false
  prioBoostWrPending := false
  prioBoostIdR := 0
  prioBoostValR := 0
  taskCreatePending := false
  taskCreateR := ⟨0, 0, 0⟩
  tcb := TcbArray.reset
  sched := TaskScheduler.reset
  cs := ContextSwitch.reset
  sem := HwSemaphore.reset
  mutex := HwMutex.reset
  msgq := HwMsgQueue.reset

/-! ## Requests -/

/-- a kernel object kind -/
inductive Unit3 where
  | sem
  | mutex
  | msgq
  deriving DecidableEq, Repr

/-- the object request that the arbitration of `S_IDLE` reaches last: semaphore, then mutex, then message queue -/
def objRequest (i : RtosIn) : Option Unit3 :=
  if i.semOp ≠ 0 then some .sem
  else if i.mutexOp ≠ 0 then some .mutex
  else if i.msgqOp ≠ 0 then some .msgq
  else none

/-- the request whose operation code the clocked process latches in this cycle. A latched creation does not hold it
back here. -/
def issues (s : HwRtos) (i : RtosIn) : Option Unit3 :=
  if s.fsmState = .idle ∧ i.schedulerEn = true ∧ i.taskCreate = false ∧ i.taskExit = false ∧ i.taskJoin = false ∧
      i.taskYield = false then objRequest i
  else none

def anyWake (s : HwRtos) : Bool := s.sem.ans.wake.isSome || s.mutex.ans.wake.isSome || s.msgq.ans.wake.isSome

/-! ## Next state of the scheduler FSM -/

/-- where `S_BLOCK_TASK` goes after a success -/
def afterSuccess (s : HwRtos) : SchedFsm := if s.wakePending || s.anyWake then .unblockTask else .idle

def fsmNext (s : HwRtos) (i : RtosIn) : SchedFsm :=
  match s.fsmState with
  | .idle =>
    if i.schedulerEn = false then .idle
    else if i.taskCreate || s.taskCreatePending then .taskCreate
    else if i.taskExit then .taskExit
    else if i.taskJoin then .taskJoin
    else if i.taskYield then .scanReady
    else if (objRequest i).isSome then .blockTask
    else if s.timerTickPending then .timerUpdate
    else if s.needReschedule then .scanReady
    else .idle
  | .timerUpdate => .scanReady
  | .scanReady => if s.sched.done then .comparePriority else .scanReady
  | .comparePriority =>
    if s.taskActiveR = false ∧ s.sched.nextTaskIdReg ≠ 0 then .dispatch
    else if s.sched.nextTaskIdReg = s.currentTaskIdR ∧ s.taskActiveR = true then .dispatch
    else if s.taskActiveR = false then .idle
    else .preemptCheck
  | .preemptCheck => .waitCtxAck
  | .waitCtxAck => if i.ctxSwitchAck then (if s.taskActiveR then .contextSave else .contextLoad) else .waitCtxAck
  | .contextSave => if s.cs.switchDone then .contextLoad else .contextSave
  | .contextLoad => if s.cs.switchDone then .dispatch else .contextLoad
  | .dispatch => .idle
  | .taskCreate => .scanReady
  | .taskExit => .exitSettle
  | .exitSettle => .scanReady
  | .blockTask =>
    if i.taskExit then .taskExit
    else if s.semOpPending || s.mutexOpPending || s.msgqOpPending then
      if s.semOpPending && (s.sem.ans.success || s.sem.ans.block) then
        (if s.sem.ans.block then .scanReady else s.afterSuccess)
      else if s.mutexOpPending && (s.mutex.ans.success || s.mutex.ans.block) then
        (if s.mutex.ans.block then .scanReady else s.afterSuccess)
      else if s.msgqOpPending && (s.msgq.ans.success || s.msgq.ans.block) then
        (if s.msgq.ans.block then .scanReady else s.afterSuccess)
      else .blockTask
    else .idle
  | .unblockTask => .scanReady
  | .taskJoin => .scanReady

def Switching (f : SchedFsm) : Prop := f = .waitCtxAck ∨ f = .contextSave ∨ f = .contextLoad

section Predecessors

variable {s : HwRtos} {i : RtosIn}

theorem fsmNext_of_idle (h : s.fsmState = .idle) :
    s.fsmNext i ∈ [.idle, .taskCreate, .taskExit, .taskJoin, .scanReady, .blockTask, .timerUpdate] := by
  simp only [fsmNext, h]; split_ifs <;> simp

theorem fsmNext_of_blockTask (h : s.fsmState = .blockTask) :
    s.fsmNext i ∈ [.taskExit, .scanReady, .unblockTask, .idle, .blockTask] := by
  simp only [fsmNext, h, afterSuccess]; split_ifs <;> simp

theorem fsmNext_comparePriority (h : s.fsmNext i = .comparePriority) :
    s.fsmState = .scanReady ∧ s.sched.done = true := by
  cases hf : s.fsmState with
  | scanReady =>
    refine ⟨rfl, ?_⟩
    by_contra hd
    simp [fsmNext, hf, hd] at h
  | idle => simpa [h] using fsmNext_of_idle (i := i) hf
  | blockTask => simpa [h] using fsmNext_of_blockTask (i := i) hf
  | comparePriority | waitCtxAck | contextSave | contextLoad =>
    simp only [fsmNext, hf] at h
    split_ifs at h
  | _ => simp [fsmNext, hf] at h

theorem fsmNext_preemptCheck (h : s.fsmNext i = .preemptCheck) :
    s.fsmState = .comparePriority ∧ s.taskActiveR = true ∧ s.sched.nextTaskIdReg ≠ s.currentTaskIdR := by
  cases hf : s.fsmState with
  | comparePriority =>
    simp only [fsmNext, hf] at h
    split_ifs at h with _ hsame hactive
    have hr : s.taskActiveR = true := by simpa using hactive
    exact ⟨rfl, hr, fun he => hsame ⟨he, hr⟩⟩
  | idle => simpa [h] using fsmNext_of_idle (i := i) hf
  | blockTask => simpa [h] using fsmNext_of_blockTask (i := i) hf
  | scanReady | waitCtxAck | contextSave | contextLoad =>
    simp only [fsmNext, hf] at h
    split_ifs at h
  | _ => simp [fsmNext, hf] at h

theorem fsmNext_switching (h : Switching (s.fsmNext i)) :
    s.fsmState = .preemptCheck ∧ s.fsmNext i = .waitCtxAck ∨ Switching s.fsmState := by
  have hne {l : List SchedFsm} (hl : s.fsmNext i ∈ l) (hw : .waitCtxAck ∉ l) (hsave : .contextSave ∉ l)
      (hload : .contextLoad ∉ l) : False := by
    rcases h with h | h | h <;> rw [h] at hl
    exacts [hw hl, hsave hl, hload hl]
  cases hf : s.fsmState with
  | preemptCheck => exact .inl ⟨rfl, by simp [fsmNext, hf]⟩
  | waitCtxAck => exact .inr (.inl rfl)
  | contextSave => exact .inr (.inr (.inl rfl))
  | contextLoad => exact .inr (.inr (.inr rfl))
  | idle => exact (hne (fsmNext_of_idle hf) (by simp) (by simp) (by simp)).elim
  | blockTask => exact (hne (fsmNext_of_blockTask hf) (by simp) (by simp) (by simp)).elim
  | scanReady | comparePriority =>
    simp only [Switching, fsmNext, hf] at h
    split_ifs at h <;> simp at h
  | _ => simp [Switching, fsmNext, hf] at h

/-- a switch ends with its transaction -/
theorem fsmNext_not_switching (hs : Switching s.fsmState) (hn : ¬ Switching (s.fsmNext i)) :
    s.fsmState = .contextLoad ∧ s.cs.switchDone = true := by
  rcases hs with hs | hs | hs
  · simp only [fsmNext, hs] at hn
    split_ifs at hn <;> simp [Switching] at hn
  · simp only [fsmNext, hs] at hn
    split_ifs at hn <;> simp [Switching] at hn
  · refine ⟨hs, ?_⟩
    by_contra hd
    simp [fsmNext, hs, hd, Switching] at hn

theorem fsmNext_dispatch (h : s.fsmNext i = .dispatch) :
    s.fsmState = .comparePriority ∧ s.taskActiveR = false ∧ s.sched.nextTaskIdReg ≠ 0 ∨
      s.fsmState = .comparePriority ∧ s.taskActiveR = true ∧ s.sched.nextTaskIdReg = s.currentTaskIdR ∨
      s.fsmState = .contextLoad ∧ s.cs.switchDone = true := by
  cases hf : s.fsmState with
  | comparePriority =>
    simp only [fsmNext, hf] at h
    split_ifs at h with hfirst hsame
    · exact .inl ⟨rfl, hfirst⟩
    · exact .inr (.inl ⟨rfl, hsame.2, hsame.1⟩)
  | contextLoad =>
    refine .inr (.inr ⟨rfl, ?_⟩)
    by_contra hd
    simp [fsmNext, hf, hd] at h
  | idle => simpa [h] using fsmNext_of_idle (i := i) hf
  | blockTask => simpa [h] using fsmNext_of_blockTask (i := i) hf
  | scanReady | waitCtxAck | contextSave =>
    simp only [fsmNext, hf] at h
    split_ifs at h
  | _ => simp [fsmNext, hf] at h

end Predecessors

/-! ## The clocked process, register by register -/

/-- the pending operation that the clocked process serves in `S_BLOCK_TASK` -/
def served (s : HwRtos) (i : RtosIn) : Option Unit3 :=
  if s.fsmState = .blockTask ∧ i.taskExit = false then
    if s.semOpPending then some .sem
    else if s.mutexOpPending then some .mutex
    else if s.msgqOpPending then some .msgq
    else none
  else none

def answerOf (s : HwRtos) : Unit3 → Answer
  | .sem => s.sem.ans
  | .mutex => s.mutex.ans
  | .msgq => s.msgq.ans

def servedOk (s : HwRtos) (i : RtosIn) (u : Unit3) : Bool :=
  s.served i == some u && (s.answerOf u).success

def servedBlock (s : HwRtos) (i : RtosIn) (u : Unit3) : Bool :=
  s.served i == some u && !(s.answerOf u).success && (s.answerOf u).block

def blocksCurrent (s : HwRtos) (i : RtosIn) : Bool :=
  s.servedBlock i .sem || s.servedBlock i .mutex || s.servedBlock i .msgq

/-- `S_TASK_JOIN` blocks the current task: the target is valid -/
def joinBlocks (s : HwRtos) (i : RtosIn) : Bool := s.taskActiveR && (s.tcb i.taskTargetId).valid

/-- `S_TIMER_UPDATE` finds the time slice of the current task used up -/
def sliceExpired (s : HwRtos) : Bool := s.taskActiveR && (s.tcb s.currentTaskIdR).timeSlice == 0

def currentTaskIdNext (s : HwRtos) : TaskId := if s.fsmState = .dispatch then s.nextTaskIdR else s.currentTaskIdR

def nextTaskIdNext (s : HwRtos) : TaskId :=
  if s.fsmState = .scanReady ∧ s.sched.done = true then s.sched.nextTaskIdReg else s.nextTaskIdR

def taskActiveNext (s : HwRtos) (i : RtosIn) : Bool :=
  match s.fsmState with
  | .dispatch => true
  | .taskExit => false
  | .blockTask => if s.blocksCurrent i then false else s.taskActiveR
  | .taskJoin => if s.joinBlocks i then false else s.taskActiveR
  | _ => s.taskActiveR

def schedTriggerNext (s : HwRtos) (i : RtosIn) : Bool :=
  match s.fsmState with
  | .timerUpdate => true
  | .scanReady => !s.sched.busy && !s.sched.done
  | .taskCreate => (freeTask s.tcb).isSome
  | .exitSettle => true
  | .blockTask => s.blocksCurrent i
  | .unblockTask => s.wakePending
  | .taskJoin => s.joinBlocks i
  | _ => false

def csSwitchReqNext (s : HwRtos) : Option (TaskId × TaskId) :=
  match s.fsmState with
  | .preemptCheck => some (if s.taskActiveR then s.currentTaskIdR else 0, s.nextTaskIdR)
  | .contextSave => if s.cs.switchDone then some (s.currentTaskIdR, s.nextTaskIdR) else none
  | _ => none

def createNext (s : HwRtos) (i : RtosIn) : Option (TaskId × CreateArgs) :=
  if s.fsmState = .taskCreate then
    (freeTask s.tcb).map fun f => (f, if s.taskCreatePending then s.taskCreateR else i.createArgs)
  else none

def deleteNext (s : HwRtos) : Option TaskId :=
  if s.fsmState = .taskExit ∧ s.taskActiveR = true then some s.currentTaskIdR else none

def stateWrNext (s : HwRtos) (i : RtosIn) : Option (TaskId × TaskState) :=
  match s.fsmState with
  | .idle =>
    if i.schedulerEn = true ∧ i.taskCreate = false ∧ i.taskExit = false ∧ i.taskJoin = false ∧ i.taskYield = true ∧
        s.taskActiveR = true then some (s.currentTaskIdR, .ready)
    else none
  | .timerUpdate => if s.sliceExpired then some (s.currentTaskIdR, .ready) else none
  | .preemptCheck => if s.taskActiveR then some (s.currentTaskIdR, .ready) else none
  | .dispatch => some (s.nextTaskIdR, .running)
  | .taskExit => if s.taskActiveR then some (s.currentTaskIdR, .dormant) else none
  | .blockTask => if s.blocksCurrent i then some (s.currentTaskIdR, .blocked) else none
  | .unblockTask => if s.wakePending then some (s.wakeTargetId, .ready) else none
  | .taskJoin => if s.joinBlocks i then some (s.currentTaskIdR, .blocked) else none
  | _ => none

def tsReloadNext (s : HwRtos) : Option (TaskId × Slice) :=
  match s.fsmState with
  | .timerUpdate => if s.sliceExpired then some (s.currentTaskIdR, s.timeSliceConfig) else none
  | .dispatch => some (s.nextTaskIdR, s.timeSliceConfig)
  | .taskCreate => (freeTask s.tcb).map fun f => (f, s.timeSliceConfig)
  | _ => none

def timerTickPendingNext (s : HwRtos) (i : RtosIn) : Bool :=
  if s.fsmState = .timerUpdate then false else s.timerTickPending || (i.timerTick && i.schedulerEn)

def needRescheduleNext (s : HwRtos) (i : RtosIn) : Bool :=
  i.axiWrReschedule ||
    match s.fsmState with
    | .dispatch => s.wakePending
    | .blockTask => s.needReschedule || s.anyWake
    | _ => s.needReschedule

def timeSliceConfigNext (s : HwRtos) (i : RtosIn) : Slice := i.axiWrTimeSlice.getD s.timeSliceConfig

def taskCreateDoneNext (s : HwRtos) : Option TaskId :=
  if s.fsmState = .taskCreate then some ((freeTask s.tcb).getD 0) else none

/-- `S_TASK_JOIN` reports at once in each of its branches -/
def taskJoinDoneNext (s : HwRtos) : Bool := s.fsmState == .taskJoin

def semDoneNext (s : HwRtos) (i : RtosIn) : Option Bool :=
  if s.servedOk i .sem then some true else if s.servedBlock i .sem then some false else none

def mutexDoneNext (s : HwRtos) (i : RtosIn) : Option Bool :=
  if s.servedOk i .mutex then some true else if s.servedBlock i .mutex then some false else none

def msgqDoneNext (s : HwRtos) (i : RtosIn) : Option (Bool × Word) :=
  if s.servedOk i .msgq then some (true, s.msgq.msgDataOut)
  else if s.servedBlock i .msgq then some (false, 0) else none

/-- an operation code register: set on issue, cleared by a task exit in `S_BLOCK_TASK`, cleared once the unit has
answered -/
def opIntNext (s : HwRtos) (i : RtosIn) (u : Unit3) (code op : BitVec 2) : BitVec 2 :=
  if s.issues i = some u then op
  else if s.fsmState = .blockTask ∧ i.taskExit = true then 0
  else if (s.answerOf u).success || (s.answerOf u).block then 0
  else code

/-- a pending flag: set on issue, cleared by a task exit in `S_BLOCK_TASK` and when the operation has been served -/
def opPendingNext (s : HwRtos) (i : RtosIn) (u : Unit3) (pending : Bool) : Bool :=
  if s.issues i = some u then true
  else if s.fsmState = .blockTask ∧ i.taskExit = true then false
  else if s.servedOk i u || s.servedBlock i u then false
  else pending

def joiners (s : HwRtos) : List TaskId :=
  (List.finRange 16).filter fun j => s.joinValid j && s.joinTarget j == s.currentTaskIdR

def exits (s : HwRtos) : Bool := s.fsmState == .taskExit && s.taskActiveR

def wakeTargetIdNext (s : HwRtos) : TaskId :=
  match (if s.exits then s.joiners.getLast? else none) with
  | some j => j
  | none => ((s.sem.ans.wake.or s.mutex.ans.wake).or s.msgq.ans.wake).getD s.wakeTargetId

def wakePendingNext (s : HwRtos) : Bool :=
  if (s.fsmState = .dispatch ∨ s.fsmState = .unblockTask) ∧ s.wakePending = true then false
  else if s.exits && !s.joiners.isEmpty then true
  else s.wakePending || s.anyWake

def joinTargetNext (s : HwRtos) (i : RtosIn) : TaskId → TaskId :=
  if s.fsmState = .taskJoin ∧ s.joinBlocks i = true then
    Function.update s.joinTarget s.currentTaskIdR i.taskTargetId
  else s.joinTarget

def joinValidNext (s : HwRtos) (i : RtosIn) : TaskId → Bool :=
  if s.fsmState = .taskJoin ∧ s.joinBlocks i = true then Function.update s.joinValid s.currentTaskIdR true
  else if s.exits then fun j => s.joinValid j && !(s.joinTarget j == s.currentTaskIdR)
  else s.joinValid

def taskCreatePendingNext (s : HwRtos) (i : RtosIn) : Bool :=
  match s.fsmState with
  | .taskCreate => false
  | .idle => s.taskCreatePending
  | _ => s.taskCreatePending || i.taskCreate

def taskCreateRNext (s : HwRtos) (i : RtosIn) : CreateArgs :=
  if s.fsmState ≠ .idle ∧ i.taskCreate = true then i.createArgs else s.taskCreateR

/-! ## Ports of the sub-units -/

/-- `tcb_wr_id`, `tcb_wr_data`: the latched boost only while its pending flag is up, entry 0 otherwise -/
def tcbWr (s : HwRtos) : Option (TaskId × Tcb) :=
  if s.tcbWrEn then
    some (if s.prioBoostWrPending then (s.prioBoostIdR, { s.tcb s.tcbRdId with prioLevel := s.prioBoostValR })
      else (0, s.tcb s.tcbRdId))
  else none

def tcbPorts (s : HwRtos) : TcbPorts := ⟨s.create, s.delete, s.tcbWr, s.stateWr, s.tsReload⟩

def prio (s : HwRtos) : TaskId → Prio := fun t => (s.tcb t).prioLevel

/-- the maximum count is the constant 255; the initial count is the live input -/
def semArgs (s : HwRtos) (i : RtosIn) : SemArgs := ⟨s.semIdInt, s.currentTaskIdR, i.semValue, 0xFF, s.prio⟩

def mutexArgs (s : HwRtos) : MutexArgs := ⟨s.mutexIdInt, s.currentTaskIdR, s.prio⟩

def msgqArgs (s : HwRtos) : MsgqArgs := ⟨s.msgqQueueId, s.msgqDataIn, s.currentTaskIdR⟩

/-! ## One clock cycle -/

def step (s : HwRtos) (i : RtosIn) : HwRtos where
  fsmState := s.fsmNext i
  currentTaskIdR := s.currentTaskIdNext
  nextTaskIdR := s.nextTaskIdNext
  taskActiveR := s.taskActiveNext i
  schedTrigger := s.schedTriggerNext i
  csSwitchReq := s.csSwitchReqNext
  create := s.createNext i
  delete := s.deleteNext
  stateWr := s.stateWrNext i
  tcbWrEn := s.prioBoostWrPending
  tcbRdId := match s.mutex.boost with
    | some (id, _) => id
    | none => s.tcbRdId
  tsReload := s.tsReloadNext
  timerTickPending := s.timerTickPendingNext i
  needReschedule := s.needRescheduleNext i
  timeSliceConfig := s.timeSliceConfigNext i
  taskCreateDone := s.taskCreateDoneNext
  taskJoinDone := s.taskJoinDoneNext
  semDone := s.semDoneNext i
  mutexDone := s.mutexDoneNext i
  msgqDone := s.msgqDoneNext i
  semOpInt := s.opIntNext i .sem s.semOpInt i.semOp
  semIdInt := if s.issues i = some .sem then i.semId else s.semIdInt
  mutexOpInt := s.opIntNext i .mutex s.mutexOpInt i.mutexOp
  mutexIdInt := if s.issues i = some .mutex then i.mutexId else s.mutexIdInt
  msgqOpInt := s.opIntNext i .msgq s.msgqOpInt i.msgqOp
  msgqQueueId := if s.issues i = some .msgq then i.msgqId else s.msgqQueueId
  msgqDataIn := if s.issues i = some .msgq then i.msgqData else s.msgqDataIn
  semOpPending := s.opPendingNext i .sem s.semOpPending
  mutexOpPending := s.opPendingNext i .mutex s.mutexOpPending
  msgqOpPending := s.opPendingNext i .msgq s.msgqOpPending
  wakeTargetId := s.wakeTargetIdNext
  wakePending := s.wakePendingNext
  joinTarget := s.joinTargetNext i
  joinValid := s.joinValidNext i
  prioBoostWrPending := s.mutex.boost.isSome
  prioBoostIdR := match s.mutex.boost with
    | some (id, _) => id
    | none => s.prioBoostIdR
  prioBoostValR := match s.mutex.boost with
    | some (_, v) => v
    | none => s.prioBoostValR
  taskCreatePending := s.taskCreatePendingNext i
  taskCreateR := s.taskCreateRNext i
  tcb := s.tcb.step s.tcbPorts
  sched := s.sched.step s.schedTrigger s.currentTaskIdR s.tcb
  cs := s.cs.step s.csSwitchReq i.ctxSaveRegData i.ctxSavePc
  sem := s.sem.step (SemOp.ofCode s.semOpInt) (s.semArgs i)
  mutex := s.mutex.step (MutexOp.ofCode s.mutexOpInt) s.mutexArgs
  msgq := s.msgq.step (MsgqOp.ofCode s.msgqOpInt) s.msgqArgs

/-! ## Output ports towards the core -/

def ctxSwitchReq (s : HwRtos) : Bool := s.cs.stallPipeline

end HwRtos

end Vsync
