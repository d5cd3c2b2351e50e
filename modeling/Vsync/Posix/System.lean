/-
`posix_hw_layer` connected to `hw_rtos` as in `vsync_top.sv`: the scheduler is always enabled, the request lines of the
layer are the request ports of the RTOS, and its registered answers come back.
-/
import Vsync.Machine
import Vsync.Posix.Layer
import Vsync.Rtos.HwRtos

namespace Vsync

/-- what the two blocks receive from the rest of the chip in one cycle -/
structure SysIn where
  ecallReq : Bool
  syscallNum : BitVec 8
  syscallArg0 : Word
  syscallArg1 : Word
  syscallArg2 : Word
  timerTick : Bool
  ctxSwitchAck : Bool
  ctxSaveRegData : Word
  ctxSavePc : Word
  axiWrTimeSlice : Option Slice
  axiWrReschedule : Bool
  periphRdata : Word
  periphReady : Bool

def SysIn.quiet : SysIn := ⟨false, 0, 0, 0, 0, false, false, 0, 0, none, false, 0, false⟩

def SysIn.call (num : BitVec 8) (arg0 arg1 arg2 : Word) : SysIn :=
  ⟨true, num, arg0, arg1, arg2, false, false, 0, 0, none, false, 0, false⟩

structure System where
  posix : PosixLayer
  rtos : HwRtos

namespace System

def reset : System := ⟨PosixLayer.reset, HwRtos.reset⟩

def rtosIn (s : System) (i : SysIn) : RtosIn where
  schedulerEn := true
  ctxSwitchAck := i.ctxSwitchAck
  ctxSaveRegData := i.ctxSaveRegData
  ctxSavePc := i.ctxSavePc
  timerTick := i.timerTick
  taskCreate := s.posix.taskCreate.isSome
  createArgs := s.posix.taskCreate.getD ⟨0, 0, 0⟩
  taskExit := s.posix.taskExit
  taskJoin := s.posix.taskJoin
  taskTargetId := s.posix.taskTargetId
  taskYield := s.posix.taskYield
  semOp := s.posix.semOp
  semId := s.posix.semId
  semValue := s.posix.semValue
  mutexOp := s.posix.mutexOp
  mutexId := s.posix.mutexId
  msgqOp := s.posix.msgqOp
  msgqId := s.posix.msgqId
  msgqData := s.posix.msgqData
  axiWrTimeSlice := i.axiWrTimeSlice
  axiWrReschedule := i.axiWrReschedule

def posixIn (s : System) (i : SysIn) : PosixIn where
  ecallReq := i.ecallReq
  syscallNum := i.syscallNum
  syscallArg0 := i.syscallArg0
  syscallArg1 := i.syscallArg1
  syscallArg2 := i.syscallArg2
  taskCreateDone := s.rtos.taskCreateDone
  taskJoinDone := s.rtos.taskJoinDone
  semDone := s.rtos.semDone
  mutexDone := s.rtos.mutexDone
  msgqDone := s.rtos.msgqDone
  currentTid := s.rtos.currentTaskIdR
  periphRdata := i.periphRdata
  periphReady := i.periphReady

def step (s : System) (i : SysIn) : System := ⟨s.posix.step (s.posixIn i), s.rtos.step (s.rtosIn i)⟩

def stateAt (ins : ℕ → SysIn) (n : ℕ) : System := Machine.trace step reset ins n

theorem stateAt_succ (ins : ℕ → SysIn) (n : ℕ) : stateAt ins (n + 1) = (stateAt ins n).step (ins n) := rfl

/-! ## The layer in the system -/

section Layer

variable {s : System} {i : SysIn}

/-- the layer waits for the RTOS on behalf of category `cat` -/
def Waits (s : System) (cat : ℕ) : Prop := s.posix.state = .waitRtos ∧ s.posix.category = cat

instance (s : System) (cat : ℕ) : Decidable (s.Waits cat) := by unfold Waits; infer_instance

theorem step_num (h : s.posix.state ≠ .idle) :
    (s.step i).posix.num = s.posix.num ∧ (s.step i).posix.arg0 = s.posix.arg0 ∧
      (s.step i).posix.arg1 = s.posix.arg1 ∧ (s.step i).posix.arg2 = s.posix.arg2 := by
  have hl : s.posix.latches (s.posixIn i) = false := by simp [PosixLayer.latches, h]
  simp [step, PosixLayer.step, hl]

theorem step_category (h : s.posix.state ≠ .idle) : (s.step i).posix.category = s.posix.category := by
  simp [PosixLayer.category, (step_num h).1]

theorem step_subop (h : s.posix.state ≠ .idle) : (s.step i).posix.subop = s.posix.subop := by
  simp [PosixLayer.subop, (step_num h).1]

/-- `S_WAIT_RTOS` is entered from an operation state -/
theorem waitRtos_of_step (h : (s.step i).posix.state = .waitRtos) :
    s.posix.state = .threadOp ∧ PosixLayer.threadWaits s.posix.subop = true ∨
      s.posix.state = .mutexOp ∧ s.posix.subop < 5 ∨ s.posix.state = .semOp ∧ s.posix.subop < 7 ∨
      s.posix.state = .msgqOp ∧ s.posix.subop < 6 ∨
      s.posix.state = .waitRtos ∧ s.posix.rtosDone (s.posixIn i) = false := by
  simp only [step, PosixLayer.step, PosixLayer.stateNext] at h
  cases hs : s.posix.state with
  | threadOp | mutexOp | semOp | msgqOp | waitRtos =>
    simp only [hs] at h
    split_ifs at h with hw
    simp [hw]
  | idle | fileOp | periphWait =>
    simp only [hs] at h
    split_ifs at h
  | decode =>
    simp only [hs] at h
    split at h <;> simp at h
  | timerOp | signalOp | systemOp | complete => simp [hs] at h

end Layer

/-- an operation state is only ever entered for its own category -/
def OwnCategory (s : System) : Prop :=
  (s.posix.state = .threadOp → s.posix.category = 0) ∧ (s.posix.state = .mutexOp → s.posix.category = 1) ∧
    (s.posix.state = .semOp → s.posix.category = 2) ∧ (s.posix.state = .msgqOp → s.posix.category = 3)

/-- an operation state is only ever entered from `S_DECODE` -/
theorem decode_of_operation {s : System} {i : SysIn} {st : PosixState} (h : (s.step i).posix.state = st)
    (hst : st ∈ [.threadOp, .mutexOp, .semOp, .msgqOp]) : s.posix.state = .decode := by
  simp only [step, PosixLayer.step, PosixLayer.stateNext] at h
  subst h
  cases hs : s.posix.state with
  | decode => rfl
  | idle | threadOp | mutexOp | semOp | msgqOp | fileOp | periphWait | waitRtos =>
    simp only [hs] at hst
    split_ifs at hst <;> simp at hst
  | timerOp | signalOp | systemOp | complete => simp [hs] at hst

theorem category_of_decode {s : System} (i : SysIn) (hd : s.posix.state = .decode) :
    ((s.step i).posix.state = .threadOp → s.posix.category = 0) ∧
      ((s.step i).posix.state = .mutexOp → s.posix.category = 1) ∧
      ((s.step i).posix.state = .semOp → s.posix.category = 2) ∧
      ((s.step i).posix.state = .msgqOp → s.posix.category = 3) := by
  simp only [step, PosixLayer.step, PosixLayer.stateNext, hd]
  split <;> simp [*]

theorem step_ownCategory (s : System) (i : SysIn) : OwnCategory (s.step i) := by
  have hcat (hd : s.posix.state = .decode) : (s.step i).posix.category = s.posix.category :=
    step_category (by simp [hd])
  refine ⟨fun h => ?_, fun h => ?_, fun h => ?_, fun h => ?_⟩
  · have hd := decode_of_operation h (by simp)
    exact (hcat hd).trans ((category_of_decode i hd).1 h)
  · have hd := decode_of_operation h (by simp)
    exact (hcat hd).trans ((category_of_decode i hd).2.1 h)
  · have hd := decode_of_operation h (by simp)
    exact (hcat hd).trans ((category_of_decode i hd).2.2.1 h)
  · have hd := decode_of_operation h (by simp)
    exact (hcat hd).trans ((category_of_decode i hd).2.2.2 h)

theorem ownCategory (ins : ℕ → SysIn) (n : ℕ) : OwnCategory (stateAt ins n) := by
  cases n with
  | zero => simp [OwnCategory, stateAt, reset, PosixLayer.reset]
  | succ n => exact step_ownCategory _ _

end System

end Vsync
