/-
`posix_hw_layer.sv`: the syscall FSM, its RTOS and peripheral request lines, the file-descriptor table and the signal
tables.

The request lines are functions of the state and the latched call (the source drives them combinationally); the done
pulses of `hw_rtos` come in as `Option`s with the registered result. The AXI-Lite slave only reads, and its debug
counters are read by nothing else: both are left out.
-/
import Vsync.Pkg
import Vsync.Rtos.Tcb

namespace Vsync

inductive PosixState where
  | idle
  | decode
  | threadOp
  | mutexOp
  | semOp
  | msgqOp
  | timerOp
  | fileOp
  | signalOp
  | systemOp
  | periphWait
  | waitRtos
  | complete
  deriving DecidableEq, Repr

abbrev Fd := Fin 16

/-- `fd_valid`, `fd_type_r`, `fd_base_addr`, `fd_flags` -/
structure FdEntry where
  valid : Bool
  fdType : BitVec 3
  baseAddr : Word
  flags : BitVec 16
  deriving DecidableEq, Repr

namespace Posix

def EINVAL : Word := 0xFFFFFFEA
def EAGAIN : Word := 0xFFFFFFF5
def EBUSY : Word := 0xFFFFFFF0
def ENOSYS : Word := 0xFFFFFFD8
def EBADF : Word := 0xFFFFFFF7
def EMFILE : Word := 0xFFFFFFE4
def ENOENT : Word := 0xFFFFFFFE
def EPERM : Word := 0xFFFFFFFF
def ESPIPE : Word := 0xFFFFFFE3
def ESRCH : Word := 0xFFFFFFFD

def ADDR_CLINT_BASE : Word := 0x02000000
def ADDR_MTIME_LO : Word := 0x0200BFF8
def ADDR_MTIME_HI : Word := 0x0200BFFC
def ADDR_UART_BASE : Word := 0x10000000
def ADDR_GPIO_BASE : Word := 0x10000100
def ADDR_HYPERRAM_BASE : Word := 0x20000000

def FD_TYPE_NONE : BitVec 3 := 0
def FD_TYPE_UART : BitVec 3 := 1
def FD_TYPE_GPIO : BitVec 3 := 2
def FD_TYPE_MEM : BitVec 3 := 3

def getDeviceBase (dtype : BitVec 3) : Word :=
  if dtype = FD_TYPE_UART then ADDR_UART_BASE
  else if dtype = FD_TYPE_GPIO then ADDR_GPIO_BASE
  else if dtype = FD_TYPE_MEM then ADDR_HYPERRAM_BASE
  else 0

end Posix

/-- the syscall request and the answers of the RTOS and the peripheral bus -/
structure PosixIn where
  ecallReq : Bool
  syscallNum : BitVec 8
  syscallArg0 : Word
  syscallArg1 : Word
  syscallArg2 : Word
  taskCreateDone : Option TaskId
  taskJoinDone : Bool
  semDone : Option Bool
  mutexDone : Option Bool
  msgqDone : Option (Bool × Word)
  currentTid : TaskId
  periphRdata : Word
  periphReady : Bool

structure PosixLayer where
  state : PosixState
  num : BitVec 8
  arg0 : Word
  arg1 : Word
  arg2 : Word
  result : Word
  fd : Fd → FdEntry
  signalPending : TaskId → Word
  signalMask : TaskId → Word
  sigHandler : TaskId → Word
  sigwaitSet : TaskId → Word
  heapBrk : TaskId → Word
  currentTidR : TaskId

namespace PosixLayer

open Posix

def reset : PosixLayer where
  state := .idle
  num := 0
  arg0 := 0
  arg1 := 0
  arg2 := 0
  result := 0
  fd := fun i =>
    if i = 0 then ⟨true, FD_TYPE_UART, ADDR_UART_BASE, 0⟩
    else if i = 1 ∨ i = 2 then ⟨true, FD_TYPE_UART, ADDR_UART_BASE, 1⟩
    else ⟨false, FD_TYPE_NONE, 0, 0⟩
  signalPending := fun _ => 0
  signalMask := fun _ => 0
  sigHandler := fun _ => 0
  sigwaitSet := fun _ => 0
  heapBrk := fun _ => 0
  currentTidR := 0

section Decode

variable (s : PosixLayer)

def category : ℕ := s.num.toNat / 16

def subop : ℕ := s.num.toNat % 16

/-! ## Request lines towards the RTOS -/

/-- the layer is in `op`, the operation state of category `cat`, or waits for the RTOS on behalf of that category -/
def serves (op : PosixState) (cat : ℕ) : Bool := s.state == op || (s.state == .waitRtos && s.category == cat)

/-- `rtos_task_create` with its operands: held for `pthread_create`, one cycle for the two schedparam calls -/
def taskCreate : Option CreateArgs :=
  if s.serves .threadOp 0 && s.subop == 0 then some ⟨s.arg0, s.arg1, s.arg2.setWidth 4⟩
  else if s.state == .threadOp && s.subop == 6 then some ⟨s.arg0, s.arg1, 0⟩
  else if s.state == .threadOp && s.subop == 7 then some ⟨s.arg0, 0, 0⟩
  else none

def taskExit : Bool := s.state == .threadOp && s.subop == 1

def taskJoin : Bool := s.serves .threadOp 0 && s.subop == 2

def taskTargetId : TaskId := if s.taskJoin then lowId 16 s.arg0 else 0

def taskYield : Bool := s.state == .threadOp && s.subop == 5

/-- `rtos_mutex_op` of a mutex call -/
def mutexCode : ℕ → BitVec 2
  | 0 => 0b01 -- mutex_init
  | 1 => 0b10 -- mutex_lock
  | 2 => 0b10 -- mutex_trylock
  | 3 => 0b11 -- mutex_unlock
  | 4 => 0b01 -- mutex_destroy
  | _ => 0b00

/-- `rtos_sem_op` of a semaphore call -/
def semCode : ℕ → BitVec 2
  | 0 => 0b01 -- sem_init
  | 1 => 0b10 -- sem_wait
  | 2 => 0b10 -- sem_trywait
  | 3 => 0b10 -- sem_timedwait
  | 4 => 0b11 -- sem_post
  | 5 => 0b01 -- sem_getvalue
  | 6 => 0b01 -- sem_destroy
  | _ => 0b00

/-- `rtos_msgq_op` of a message-queue call -/
def msgqCode : ℕ → BitVec 2
  | 0 => 0b01 -- mq_open
  | 1 => 0b10 -- mq_send
  | 2 => 0b11 -- mq_receive
  | 3 => 0b01 -- mq_close
  | 4 => 0b11 -- mq_timedreceive
  | 5 => 0b10 -- mq_timedsend
  | _ => 0b00

def mutexOp : BitVec 2 := if s.serves .mutexOp 1 then mutexCode s.subop else 0

def mutexId : MutexId := if s.serves .mutexOp 1 then lowId 8 s.arg0 else 0

def semOp : BitVec 2 := if s.serves .semOp 2 then semCode s.subop else 0

def semId : SemId := if s.serves .semOp 2 then lowId 8 s.arg0 else 0

def semValue : BitVec 8 := if s.serves .semOp 2 && s.subop == 0 then s.arg1.setWidth 8 else 0

def msgqOp : BitVec 2 := if s.serves .msgqOp 3 then msgqCode s.subop else 0

def msgqId : QueueId := if s.serves .msgqOp 3 then lowId 4 s.arg0 else 0

def msgqData : Word := if s.serves .msgqOp 3 && (s.subop == 1 || s.subop == 5) then s.arg1 else 0

/-! ## The file-descriptor table -/

def freeFd : Option Fd := ((List.finRange 16).drop 3).find? fun i => !(s.fd i).valid

/-- `latched_arg0 < MAX_FD && fd_valid[latched_arg0[FD_WIDTH-1:0]]` -/
def fdOpen : Bool := decide (s.arg0.toNat < 16) && (s.fd (lowId 16 s.arg0)).valid

def fdNext : Fd → FdEntry :=
  if s.state = .fileOp then
    match s.subop with
    | 0 =>
      match s.freeFd with
      | some i =>
        Function.update s.fd i
          ⟨true, s.arg0.setWidth 3, getDeviceBase (s.arg0.setWidth 3), s.arg1.setWidth 16⟩
      | none => s.fd
    | 1 =>
      if s.fdOpen && decide (2 < (lowId 16 s.arg0).val) then
        Function.update s.fd (lowId 16 s.arg0)
          { s.fd (lowId 16 s.arg0) with valid := false, fdType := FD_TYPE_NONE }
      else s.fd
    | _ => s.fd
  else s.fd

/-! ## The peripheral port -/

/-- `periph_addr`, `periph_wdata`, and whether `periph_write` (else `periph_read`) is up -/
structure PeriphReq where
  addr : Word
  wdata : Word
  write : Bool
  deriving DecidableEq, Repr

def timerReq : PeriphReq :=
  match s.subop with
  | 0 => ⟨ADDR_MTIME_LO, 0, false⟩
  | 1 => ⟨ADDR_MTIME_HI, s.arg2, true⟩
  | 2 => ⟨ADDR_MTIME_LO, 0, false⟩
  | n => ⟨ADDR_CLINT_BASE + BitVec.ofNat 32 (n * 16), 0, false⟩

def fileReq : Option PeriphReq :=
  let e := s.fd (lowId 16 s.arg0)
  match s.subop with
  | 2 => if s.fdOpen then some ⟨if e.fdType = FD_TYPE_UART then e.baseAddr + 4 else e.baseAddr, 0, false⟩ else none
  | 3 => if s.fdOpen then some ⟨e.baseAddr, s.arg1, true⟩ else none
  | 4 => if s.fdOpen then some ⟨e.baseAddr + (s.arg1.setWidth 12).setWidth 32, s.arg2, true⟩ else none
  | _ => none

def periphReq : Option PeriphReq :=
  match s.state with
  | .timerOp => some s.timerReq
  | .fileOp => s.fileReq
  | _ => none

/-! ## The signal and heap tables -/

def bit (n : ℕ) : Word := BitVec.ofNat 32 (2 ^ n)

def validSignal (x : Word) : Bool := decide (x.toNat < 32) && decide (x ≠ 0)

def signalPendingNext : TaskId → Word :=
  if s.state = .signalOp then
    match s.subop with
    | 0 =>
      if decide (s.arg0.toNat < 16) && validSignal s.arg1 then
        Function.update s.signalPending (lowId 16 s.arg0) (s.signalPending (lowId 16 s.arg0) ||| bit s.arg1.toNat)
      else s.signalPending
    | 4 =>
      if validSignal s.arg0 then
        Function.update s.signalPending s.currentTidR (s.signalPending s.currentTidR ||| bit s.arg0.toNat)
      else s.signalPending
    | _ => s.signalPending
  else s.signalPending

def sigHandlerNext : TaskId → Word :=
  if s.state = .signalOp ∧ s.subop = 1 ∧ validSignal s.arg0 = true ∧ s.arg0 ≠ 9 then
    Function.update s.sigHandler s.currentTidR s.arg1
  else s.sigHandler

def signalMaskNext : TaskId → Word :=
  if s.state = .signalOp ∧ s.subop = 2 then
    match s.arg0.toNat % 4 with
    | 0 => Function.update s.signalMask s.currentTidR ((s.signalMask s.currentTidR ||| s.arg1) &&& ~~~ bit 9)
    | 1 => Function.update s.signalMask s.currentTidR ((s.signalMask s.currentTidR &&& ~~~ s.arg1) &&& ~~~ bit 9)
    | 2 => Function.update s.signalMask s.currentTidR (s.arg1 &&& ~~~ bit 9)
    | _ => s.signalMask
  else s.signalMask

def sigwaitSetNext : TaskId → Word :=
  if s.state = .signalOp ∧ s.subop = 3 ∧ s.arg0 ≠ 0 then Function.update s.sigwaitSet s.currentTidR s.arg0
  else s.sigwaitSet

def heapBrkNext : TaskId → Word :=
  if s.state = .systemOp ∧ s.subop = 3 then
    Function.update s.heapBrk s.currentTidR (s.heapBrk s.currentTidR + s.arg0)
  else s.heapBrk

end Decode

/-! ## Next state and result -/

section Next

variable (s : PosixLayer) (i : PosixIn)

/-- the thread calls that wait for the RTOS -/
def threadWaits : ℕ → Bool
  | 0 => true
  | 2 => true
  | 6 => true
  | 7 => true
  | _ => false

/-- the answer that `S_WAIT_RTOS` waits for has come -/
def rtosDone : Bool :=
  match s.category with
  | 0 => if s.subop = 2 then i.taskJoinDone else i.taskCreateDone.isSome
  | 1 => i.mutexDone.isSome
  | 2 => i.semDone.isSome
  | 3 => i.msgqDone.isSome
  | _ => true

def stateNext : PosixState :=
  match s.state with
  | .idle => if i.ecallReq then .decode else .idle
  | .decode =>
    match s.category with
    | 0 => .threadOp
    | 1 => .mutexOp
    | 2 => .semOp
    | 3 => .msgqOp
    | 4 => .timerOp
    | 5 => .fileOp
    | 6 => .signalOp
    | 7 => .systemOp
    | _ => .complete
  | .threadOp => if threadWaits s.subop then .waitRtos else .complete
  | .mutexOp => if s.subop < 5 then .waitRtos else .complete
  | .semOp => if s.subop < 7 then .waitRtos else .complete
  | .msgqOp => if s.subop < 6 then .waitRtos else .complete
  | .timerOp => .periphWait
  | .fileOp => if s.fileReq.isSome then .periphWait else .complete
  | .signalOp => .complete
  | .systemOp => .complete
  | .periphWait => if i.periphReady then .complete else .periphWait
  | .waitRtos => if s.rtosDone i then .complete else .waitRtos
  | .complete => .idle

def fileResult : Word :=
  match s.subop with
  | 0 =>
    if s.arg0.toNat % 8 < 5 then
      match s.freeFd with
      | some j => BitVec.ofNat 32 j.val
      | none => EMFILE
    else ENOENT
  | 1 => if s.fdOpen = false then EBADF else if (lowId 16 s.arg0).val ≤ 2 then EPERM else 0
  | 2 => if s.fdOpen = false then EBADF else 0
  | 3 => if s.fdOpen = false then EBADF else s.arg2
  | 4 => if s.fdOpen = false then EBADF else 0
  | 5 =>
    if s.fdOpen = false then EBADF
    else if (s.fd (lowId 16 s.arg0)).fdType ≠ FD_TYPE_MEM then ESPIPE
    else s.arg1
  | _ => ENOSYS

def signalResult : Word :=
  match s.subop with
  | 0 => if 16 ≤ s.arg0.toNat then ESRCH else if validSignal s.arg1 = false then EINVAL else 0
  | 1 => if validSignal s.arg0 = false ∨ s.arg0 = 9 then EINVAL else 0
  | 2 => if 2 < s.arg0.toNat then EINVAL else s.signalMask s.currentTidR
  | 3 => if s.arg0 = 0 then EINVAL else 0
  | 4 => if validSignal s.arg0 = false then EINVAL else 0
  | _ => ENOSYS

def sysconf : ℕ → Word
  | 0 => 1
  | 1 => 1
  | 2 => 4096
  | 3 => 16
  | 4 => 8
  | 5 => 65535
  | 6 => 4
  | 7 => 8
  | 8 => 16
  | 9 => 1000
  | _ => EINVAL

def systemResult : Word :=
  match s.subop with
  | 0 => sysconf (s.arg0.toNat % 16)
  | 1 => 15
  | 2 => 0
  | 3 => s.heapBrk s.currentTidR
  | _ => ENOSYS

def rtosResult : Word :=
  match s.category with
  | 0 =>
    if s.subop = 2 then (if i.taskJoinDone then 0 else s.result)
    else match i.taskCreateDone with
      | some id => BitVec.ofNat 32 id.val
      | none => s.result
  | 1 =>
    match i.mutexDone with
    | some ok => if ok then 0 else EBUSY
    | none => s.result
  | 2 =>
    match i.semDone with
    | some ok => if ok then 0 else EAGAIN
    | none => s.result
  | 3 =>
    match i.msgqDone with
    | some (ok, data) => if ok then data else EINVAL
    | none => s.result
  | _ => s.result

def resultNext : Word :=
  match s.state with
  | .decode => if 7 < s.category then ENOSYS else 0
  | .threadOp => if s.subop = 4 then BitVec.ofNat 32 s.currentTidR.val else 0
  | .mutexOp => 0
  | .semOp => 0
  | .msgqOp => 0
  | .fileOp => s.fileResult
  | .timerOp => 0
  | .signalOp => s.signalResult
  | .systemOp => s.systemResult
  | .periphWait => if i.periphReady then i.periphRdata else s.result
  | .waitRtos => s.rtosResult i
  | .idle => s.result
  | .complete => s.result

def latches : Bool := i.ecallReq && s.state == .idle

def step : PosixLayer where
  state := s.stateNext i
  num := if s.latches i then i.syscallNum else s.num
  arg0 := if s.latches i then i.syscallArg0 else s.arg0
  arg1 := if s.latches i then i.syscallArg1 else s.arg1
  arg2 := if s.latches i then i.syscallArg2 else s.arg2
  result := s.resultNext i
  fd := s.fdNext
  signalPending := s.signalPendingNext
  signalMask := s.signalMaskNext
  sigHandler := s.sigHandlerNext
  sigwaitSet := s.sigwaitSetNext
  heapBrk := s.heapBrkNext
  currentTidR := i.currentTid

def syscallDone : Option Word := if s.state = .complete then some s.result else none

end Next

end PosixLayer

end Vsync
