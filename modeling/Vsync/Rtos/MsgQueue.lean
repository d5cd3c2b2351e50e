/-
`hw_msgqueue.sv`: ring-buffer message queues of `QUEUE_DEPTH` = 8 words, with a mask of waiting senders and one of
waiting receivers each.

`MsgqObj` is what the unit keeps between operations; `HwMsgQueue` adds the registered answer. `msgqQuiet` says when
executing an operation changes nothing; `msgqExec_eq_self_iff` is the proof.
-/
import Vsync.Rtos.Semaphore

namespace Vsync

/-- `MSGQ_NOP`, `MSGQ_SEND`, `MSGQ_RECV` -/
inductive MsgqOp where
  | nop
  | send
  | recv
  deriving DecidableEq, Repr

/-- the 2-bit encoding of the operation port; the code `11` is a no-operation -/
def MsgqOp.ofCode (c : BitVec 2) : MsgqOp :=
  if c = 0b01#2 then .send else if c = 0b10#2 then .recv else .nop

/-- `fifo_mem`, `wr_ptr_r`, `rd_ptr_r`, `count_r`, `send_wait_r`, `recv_wait_r` -/
structure MsgqObj where
  fifoMem : QueueId → Fin 8 → Word
  wrPtr : QueueId → Fin 8
  rdPtr : QueueId → Fin 8
  count : QueueId → BitVec 4
  sendWait : QueueId → WaitMask
  recvWait : QueueId → WaitMask

/-- the messages in a queue, oldest first -/
def MsgqObj.contents (o : MsgqObj) (q : QueueId) : List Word :=
  (List.range (o.count q).toNat).map fun k => o.fifoMem q (o.rdPtr q + Fin.ofNat 8 k)

@[simp] theorem MsgqObj.length_contents (o : MsgqObj) (q : QueueId) : (o.contents q).length = (o.count q).toNat := by
  simp [MsgqObj.contents]

theorem MsgqObj.contents_eq_nil {o : MsgqObj} {q : QueueId} (h : o.count q = 0) : o.contents q = [] := by
  simp [MsgqObj.contents, h]

structure MsgqArgs where
  queueId : QueueId
  msgDataIn : Word
  taskId : TaskId

/-- the pointer after `p`: `(p == QUEUE_DEPTH - 1) ? 0 : p + 1` -/
def nextPtr (p : Fin 8) : Fin 8 := if p = 7 then 0 else p + 1

def MsgqObj.full (o : MsgqObj) (q : QueueId) : Bool := o.count q == 8

def MsgqObj.empty (o : MsgqObj) (q : QueueId) : Bool := o.count q == 0

def WaitMask.clear (mask : WaitMask) : Option TaskId → WaitMask
  | some w => Function.update mask w false
  | none => mask

/-- one clock edge of the unit on its object -/
def msgqExec (o : MsgqObj) (op : MsgqOp) (a : MsgqArgs) : MsgqObj :=
  let q := a.queueId
  match op with
  | .nop => o
  | .send =>
    if o.full q then
      { o with sendWait := Function.update o.sendWait q (Function.update (o.sendWait q) a.taskId true) }
    else
      { o with
        fifoMem := Function.update o.fifoMem q (Function.update (o.fifoMem q) (o.wrPtr q) a.msgDataIn)
        wrPtr := Function.update o.wrPtr q (nextPtr (o.wrPtr q))
        count := Function.update o.count q (o.count q + 1)
        recvWait := Function.update o.recvWait q ((o.recvWait q).clear (firstWake (o.recvWait q))) }
  | .recv =>
    if o.empty q then
      { o with recvWait := Function.update o.recvWait q (Function.update (o.recvWait q) a.taskId true) }
    else
      { o with
        rdPtr := Function.update o.rdPtr q (nextPtr (o.rdPtr q))
        count := Function.update o.count q (o.count q - 1)
        sendWait := Function.update o.sendWait q ((o.sendWait q).clear (firstWake (o.sendWait q))) }

/-- the answer registered at the same edge -/
def msgqAnswer (o : MsgqObj) (op : MsgqOp) (a : MsgqArgs) : Answer :=
  match op with
  | .nop => .idle
  | .send => if o.full a.queueId then ⟨false, true, none⟩ else ⟨true, false, firstWake (o.recvWait a.queueId)⟩
  | .recv => if o.empty a.queueId then ⟨false, true, none⟩ else ⟨true, false, firstWake (o.sendWait a.queueId)⟩

/-- `msg_data_out` registered at the same edge -/
def msgqDataOut (o : MsgqObj) (op : MsgqOp) (a : MsgqArgs) : Word :=
  if op = .recv ∧ o.empty a.queueId = false then o.fifoMem a.queueId (o.rdPtr a.queueId) else 0

/-- the unit: its object, its answer registers and its data register -/
structure HwMsgQueue where
  obj : MsgqObj
  ans : Answer
  msgDataOut : Word

def HwMsgQueue.reset : HwMsgQueue :=
  ⟨⟨fun _ _ => 0, fun _ => 0, fun _ => 0, fun _ => 0, fun _ => noWaiters, fun _ => noWaiters⟩, .idle, 0⟩

def HwMsgQueue.step (u : HwMsgQueue) (op : MsgqOp) (a : MsgqArgs) : HwMsgQueue :=
  ⟨msgqExec u.obj op a, msgqAnswer u.obj op a, msgqDataOut u.obj op a⟩

@[simp] theorem HwMsgQueue.step_obj (u : HwMsgQueue) (op : MsgqOp) (a : MsgqArgs) :
    (u.step op a).obj = msgqExec u.obj op a := rfl

@[simp] theorem HwMsgQueue.step_ans (u : HwMsgQueue) (op : MsgqOp) (a : MsgqArgs) :
    (u.step op a).ans = msgqAnswer u.obj op a := rfl

@[simp] theorem HwMsgQueue.step_msgDataOut (u : HwMsgQueue) (op : MsgqOp) (a : MsgqArgs) :
    (u.step op a).msgDataOut = msgqDataOut u.obj op a := rfl

/-! ## Executions that change nothing -/

/-- the operation finds the object as it would leave it: a send into a full queue or a receive from an empty one, by a
task that already waits there -/
def msgqQuiet (o : MsgqObj) (op : MsgqOp) (a : MsgqArgs) : Prop :=
  match op with
  | .nop => True
  | .send => o.full a.queueId = true ∧ o.sendWait a.queueId a.taskId = true
  | .recv => o.empty a.queueId = true ∧ o.recvWait a.queueId a.taskId = true

theorem add_one_ne_self4 (x : BitVec 4) : x + 1 ≠ x := by bv_omega

theorem sub_one_ne_self4 (x : BitVec 4) : x - 1 ≠ x := by bv_omega

/-- **An execution leaves the object as it was exactly when it is quiet.** -/
theorem msgqExec_eq_self_iff (o : MsgqObj) (op : MsgqOp) (a : MsgqArgs) : msgqExec o op a = o ↔ msgqQuiet o op a := by
  cases op with
  | nop => simp [msgqExec, msgqQuiet]
  | send =>
    simp only [msgqExec, msgqQuiet]
    split_ifs with hf
    · simp only [hf, true_and]
      constructor
      · intro h
        have := congrArg (fun x => x.sendWait a.queueId a.taskId) h
        simpa using this.symm
      · intro h
        cases o
        simp only at h ⊢
        simp [← h]
    · simp only [hf, Bool.false_eq_true, false_and, iff_false]
      intro h
      have := congrArg (fun x => x.count a.queueId) h
      simp only [Function.update_self] at this
      exact add_one_ne_self4 _ this
  | recv =>
    simp only [msgqExec, msgqQuiet]
    split_ifs with hf
    · simp only [hf, true_and]
      constructor
      · intro h
        have := congrArg (fun x => x.recvWait a.queueId a.taskId) h
        simpa using this.symm
      · intro h
        cases o
        simp only at h ⊢
        simp [← h]
    · simp only [hf, Bool.false_eq_true, false_and, iff_false]
      intro h
      have := congrArg (fun x => x.count a.queueId) h
      simp only [Function.update_self] at this
      exact sub_one_ne_self4 _ this

end Vsync
