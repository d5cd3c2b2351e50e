/-
The wrappers of `vsync_posix.c` against `posix_hw_layer`: the registers that a wrapper loads, the requests that the
layer makes of them, and what the units of the RTOS do with the requests.

- `LibCall.ecalls`: the calls of a wrapper, register by register.
- `Serving`: the layer in a cycle in which it makes the requests of a call.
- `PosixLayer.performed`: the operation that the units decode from the request lines.
- `LibCall.Documented`: what `vsync_posix.h` says of the call, about these requests and the memory of the caller.
- `honoured_iff`: for which arguments every wrapper gets what is documented.
-/
import Vsync.ByteMem
import Vsync.Posix.CallHandshake
import Vsync.Rtos.Mutex
import Vsync.Rtos.MsgQueue

namespace Vsync

/-! ## The library -/

/-- the wrappers with their C arguments; pointers are addresses -/
inductive LibCall where
  | pthreadCreate (thread attr startRoutine arg : Word)
  | mutexInit (mutex attr : Word)
  | mutexLock (mutex : Word)
  | mutexTrylock (mutex : Word)
  | mutexUnlock (mutex : Word)
  | mutexDestroy (mutex : Word)
  | semInit (sem pshared value : Word)
  | semWait (sem : Word)
  | semTrywait (sem : Word)
  | semPost (sem : Word)
  | semGetvalue (sem sval : Word)
  | semDestroy (sem : Word)
  | mqOpen (name oflag : Word)
  | mqSend (mqdes msgPtr msgLen msgPrio : Word)
  | mqReceive (mqdes msgPtr msgLen msgPrio : Word)
  | mqClose (mqdes : Word)
  | read (fd buf count : Word)
  | write (fd buf count : Word)
  | clockGettime (clkId tp : Word)
  deriving DecidableEq, Repr

namespace LibCall

def syscall1 (num : BitVec 8) (a0 : Word) : Syscall := ⟨num, a0, 0, 0⟩

def syscall2 (num : BitVec 8) (a0 a1 : Word) : Syscall := ⟨num, a0, a1, 0⟩

/-- `syscall3`; of `syscall4`, the layer does not get `a3` -/
def syscall3 (num : BitVec 8) (a0 a1 a2 : Word) : Syscall := ⟨num, a0, a1, a2⟩

/-- the calls of a wrapper, in order; `write` stops at the first that fails -/
def ecalls (mem : ByteMem 32) : LibCall → List Syscall
  | pthreadCreate thread attr startRoutine _ => [syscall3 0x00 thread attr startRoutine]
  | mutexInit mutex attr => [syscall2 0x10 mutex attr]
  | mutexLock mutex => [syscall1 0x11 mutex]
  | mutexTrylock mutex => [syscall1 0x12 mutex]
  | mutexUnlock mutex => [syscall1 0x13 mutex]
  | mutexDestroy mutex => [syscall1 0x14 mutex]
  | semInit sem pshared value => [syscall3 0x20 sem pshared value]
  | semWait sem => [syscall1 0x21 sem]
  | semTrywait sem => [syscall1 0x22 sem]
  | semPost sem => [syscall1 0x24 sem]
  | semGetvalue sem sval => [syscall2 0x25 sem sval]
  | semDestroy sem => [syscall1 0x26 sem]
  | mqOpen name oflag => [syscall2 0x30 name oflag]
  | mqSend mqdes msgPtr msgLen _ => [syscall3 0x31 mqdes msgPtr msgLen]
  | mqReceive mqdes msgPtr msgLen _ => [syscall3 0x32 mqdes msgPtr msgLen]
  | mqClose mqdes => [syscall1 0x33 mqdes]
  | read fd buf count => [syscall3 0x52 fd buf count]
  | write fd buf count =>
    (List.range count.toNat).map fun k => syscall3 0x53 fd ((mem (buf + BitVec.ofNat 32 k)).setWidth 32) 1
  | clockGettime clkId tp => [syscall2 0x40 clkId tp]

/-- the memory of the caller after the call: the wrappers store nothing, and the layer has no port to the memory -/
def memAfter (mem : ByteMem 32) (_ : LibCall) : ByteMem 32 := mem

end LibCall

/-! ## The layer -/

def PosixIn.Presents (i : PosixIn) (c : Syscall) : Prop :=
  i.ecallReq = true ∧ (⟨i.syscallNum, i.syscallArg0, i.syscallArg1, i.syscallArg2⟩ : Syscall) = c

/-- a cycle with the call and no answer -/
def PosixIn.call (c : Syscall) : PosixIn :=
  ⟨true, c.num, c.arg0, c.arg1, c.arg2, none, false, none, none, none, 0, 0, false⟩

/-- the layer makes the requests of `c`: from the operation state on, and while it waits for the RTOS -/
inductive Serving (c : Syscall) : PosixLayer → Prop where
  | dispatched {s : PosixLayer} {i : PosixIn} (hs : s.state = .idle) (hi : i.Presents c) (i' : PosixIn) :
    Serving c ((s.step i).step i')
  | waits {t : PosixLayer} (h : Serving c t) (i : PosixIn) (ht : (t.step i).state = .waitRtos) : Serving c (t.step i)

/-- what `vsync_posix.h` documents -/
inductive LibOp where
  | create
  | init
  | take
  /-- without blocking -/
  | tryTake
  | release
  | getValue
  | destroy
  | openQueue
  | send
  | receive
  | closeQueue
  | read
  | write
  | getTime
  deriving DecidableEq, Repr

/-- what `hw_mutex` does -/
def MutexOp.does : MutexOp → Option LibOp
  | nop => none
  | lock => some .take
  | unlock => some .release

/-- what `hw_semaphore` does -/
def SemOp.does : SemOp → Option LibOp
  | nop => none
  | init => some .init
  | wait => some .take
  | post => some .release

/-- what `hw_msgqueue` does -/
def MsgqOp.does : MsgqOp → Option LibOp
  | nop => none
  | send => some .send
  | recv => some .receive

namespace PosixLayer

/-- the operation that the request lines ask for, as the units decode them -/
def performed (t : PosixLayer) : Option LibOp :=
  if t.taskCreate.isSome then some .create
  else if t.mutexOp ≠ 0 then (MutexOp.ofCode t.mutexOp).does
  else if t.semOp ≠ 0 then (SemOp.ofCode t.semOp).does
  else if t.msgqOp ≠ 0 then (MsgqOp.ofCode t.msgqOp).does
  else t.periphReq.map fun r => if r.write then .write else if t.state = .timerOp then .getTime else .read

/-- every other mutex in use is served by another hardware mutex than `mutex` -/
def MutexApart (t : PosixLayer) (mutexes : List Word) (mutex : Word) : Prop :=
  ∀ m ∈ mutexes, m ≠ mutex → ({ t with arg0 := m } : PosixLayer).mutexId ≠ t.mutexId

/-- every other semaphore in use is served by another hardware semaphore than `sem` -/
def SemApart (t : PosixLayer) (sems : List Word) (sem : Word) : Prop :=
  ∀ m ∈ sems, m ≠ sem → ({ t with arg0 := m } : PosixLayer).semId ≠ t.semId

end PosixLayer

/-! ## What is documented -/

/-- the bytes from `p` on -/
def Filled (mem : ByteMem 32) (p : Word) (bytes : List (BitVec 8)) : Prop :=
  ∀ k b, bytes[k]? = some b → mem (p + BitVec.ofNat 32 k) = b

/-- the world of a call: the memory, the mutexes and semaphores in use, the descriptor table of the layer, and the words
that the peripherals give, by address -/
structure LibWorld where
  mem : ByteMem 32
  mutexes : List Word
  sems : List Word
  fds : Fd → FdEntry
  device : Word → Word

namespace LibWorld

variable (w : LibWorld)

def mtime : BitVec 64 := w.device Posix.ADDR_MTIME_HI ++ w.device Posix.ADDR_MTIME_LO

def SYS_CLK_HZ : ℕ := 25000000

/-- the current time as a `timespec_t`: `tv_sec` and `tv_nsec` -/
def timespec : List (BitVec 8) :=
  let sec : Word := BitVec.ofNat 32 (w.mtime.toNat / SYS_CLK_HZ)
  let nsec : Word := BitVec.ofNat 32 (w.mtime.toNat % SYS_CLK_HZ * (1000000000 / SYS_CLK_HZ))
  (List.range 4).map (byteOf sec) ++ (List.range 4).map (byteOf nsec)

/-- the address at which a read of an open descriptor finds its data: `RX` of the UART, else the base -/
def readAddr (fd : Word) : Word :=
  let e := w.fds (lowId 16 fd)
  if e.fdType = Posix.FD_TYPE_UART then e.baseAddr + 4 else e.baseAddr

def isOpen (fd : Word) : Bool := decide (fd.toNat < 16) && (w.fds (lowId 16 fd)).valid

end LibWorld

namespace LibCall

/-- what `vsync_posix.h` says of a call, in a cycle in which `t` makes the requests of its `k`-th `ecall` -/
def Documented (w : LibWorld) (k : ℕ) (t : PosixLayer) (call : LibCall) : Prop :=
  match call with
  | pthreadCreate _ _ startRoutine _ =>
    t.performed = some .create ∧ ∃ sp prio, t.taskCreate = some ⟨startRoutine, sp, prio⟩
  | mutexInit mutex _ => t.performed = some .init ∧ t.MutexApart w.mutexes mutex
  | mutexLock mutex => t.performed = some .take ∧ t.MutexApart w.mutexes mutex
  | mutexTrylock mutex => t.performed = some .tryTake ∧ t.MutexApart w.mutexes mutex
  | mutexUnlock mutex => t.performed = some .release ∧ t.MutexApart w.mutexes mutex
  | mutexDestroy mutex => t.performed = some .destroy ∧ t.MutexApart w.mutexes mutex
  | semInit sem _ value => t.performed = some .init ∧ t.SemApart w.sems sem ∧ t.semValue.setWidth 32 = value
  | semWait sem => t.performed = some .take ∧ t.SemApart w.sems sem
  | semTrywait sem => t.performed = some .tryTake ∧ t.SemApart w.sems sem
  | semPost sem => t.performed = some .release ∧ t.SemApart w.sems sem
  | semGetvalue sem _ => t.performed = some .getValue ∧ t.SemApart w.sems sem
  | semDestroy sem => t.performed = some .destroy ∧ t.SemApart w.sems sem
  | mqOpen _ _ => t.performed = some .openQueue
  | mqSend _ msgPtr msgLen _ => t.performed = some .send ∧ msgLen.toNat ≤ 4 ∧
      ∀ i < msgLen.toNat, byteOf t.msgqData i = w.mem (msgPtr + BitVec.ofNat 32 i)
  | mqReceive _ _ _ _ => t.performed = some .receive
  | mqClose _ => t.performed = some .closeQueue
  | read _ buf count => t.fdOpen = true → t.performed = some .read ∧
      ∀ r, t.periphReq = some r → Filled (call.memAfter w.mem) buf ([byteOf (w.device r.addr) 0].take count.toNat)
  | write fd buf _ => t.fdOpen = true → t.performed = some .write ∧
      t.periphReq = some ⟨(w.fds (lowId 16 fd)).baseAddr, (w.mem (buf + BitVec.ofNat 32 k)).setWidth 32, true⟩
  | clockGettime _ tp => t.performed = some .getTime ∧ Filled (call.memAfter w.mem) tp w.timespec

/-- every `ecall` of the wrapper is served as documented -/
def Honoured (w : LibWorld) (call : LibCall) : Prop :=
  ∀ (k : ℕ) (c : Syscall) (t : PosixLayer), (call.ecalls w.mem)[k]? = some c → Serving c t → t.fd = w.fds →
    call.Documented w k t

/-- the low three bits of the address set the object apart from the others in use -/
def LowBitsApart (objects : List Word) (object : Word) : Prop :=
  ∀ m ∈ objects, m ≠ object → m.extractLsb' 0 3 ≠ object.extractLsb' 0 3

/-- the arguments, and the memory before the call, with which a wrapper gets what is documented -/
def HonouredWhen (w : LibWorld) : LibCall → Prop
  | pthreadCreate thread _ startRoutine _ => thread = startRoutine
  | semInit sem pshared value => LowBitsApart w.sems sem ∧ value.toNat = pshared.toNat % 256
  | semWait sem | semPost sem => LowBitsApart w.sems sem
  | mutexInit _ _ | mutexLock _ | mutexTrylock _ | mutexUnlock _ | mutexDestroy _ => False
  | semTrywait _ | semGetvalue _ _ | semDestroy _ => False
  | mqOpen _ _ | mqSend _ _ _ _ | mqReceive _ _ _ _ | mqClose _ => False
  | read fd buf count => w.isOpen fd = true → count ≠ 0 → w.mem buf = byteOf (w.device (w.readAddr fd)) 0
  | write _ _ _ => True
  | clockGettime _ tp => Filled w.mem tp w.timespec

end LibCall

/-! ## The layer while it serves a call -/

namespace Serving

variable {c : Syscall} {t : PosixLayer}

def opState : ℕ → PosixState
  | 0 => .threadOp
  | 1 => .mutexOp
  | 2 => .semOp
  | 3 => .msgqOp
  | 4 => .timerOp
  | 5 => .fileOp
  | 6 => .signalOp
  | 7 => .systemOp
  | _ => .complete

/-- the call is in the latches, and the layer is in its operation state or waits for the RTOS -/
structure At (c : Syscall) (t : PosixLayer) : Prop where
  latched : t.latched = c
  state : t.state = opState (c.num.toNat / 16) ∨ (t.state = .waitRtos ∧ c.num.toNat / 16 < 4)

theorem latched_keeps {i : PosixIn} (h : t.latches i = false) : (t.step i).latched = t.latched := by
  simp [PosixLayer.latched, PosixLayer.step, h]

theorem at_dispatched {s : PosixLayer} {i : PosixIn} (hs : s.state = .idle) (hi : i.Presents c) (i' : PosixIn) :
    At c ((s.step i).step i') := by
  obtain ⟨hreq, rfl⟩ := hi
  have hlatch : s.latches i = true := by simp [PosixLayer.latches, hreq, hs]
  have hdecode : (s.step i).state = .decode := by simp [PosixLayer.step, PosixLayer.stateNext, hs, hreq]
  have hkeep : (s.step i).latches i' = false := by simp [PosixLayer.latches, hdecode]
  have hnum : (s.step i).num = i.syscallNum := if_pos hlatch
  refine ⟨?_, .inl ?_⟩
  · rw [latched_keeps hkeep]
    simp [PosixLayer.latched, PosixLayer.step, hlatch]
  · change (s.step i).stateNext i' = _
    simp only [PosixLayer.stateNext, hdecode, PosixLayer.category, hnum]
    rfl

theorem at_waits (h : At c t) (i : PosixIn) (ht : (t.step i).state = .waitRtos) : At c (t.step i) := by
  obtain ⟨hlatched, hstate⟩ := h
  have hidle : t.state ≠ .idle := by
    intro hs
    have hnext : t.stateNext i = .waitRtos := ht
    simp only [PosixLayer.stateNext, hs] at hnext
    split at hnext <;> exact PosixState.noConfusion hnext
  have hkeep : t.latches i = false := by simp [PosixLayer.latches, hidle]
  refine ⟨?_, .inr ⟨ht, ?_⟩⟩
  · rw [latched_keeps hkeep]
    exact hlatched
  · rcases hstate with hs | ⟨-, hlt⟩
    · by_contra hge
      have hnext : t.stateNext i = .waitRtos := ht
      obtain ⟨n, hn⟩ : ∃ n, n = c.num.toNat / 16 := ⟨_, rfl⟩
      rw [← hn] at hs hge
      have hcases : n = 4 ∨ n = 5 ∨ n = 6 ∨ n = 7 ∨ 8 ≤ n := by omega
      rcases hcases with rfl | rfl | rfl | rfl | hbig
      · simp [PosixLayer.stateNext, hs, opState] at hnext
      · simp only [PosixLayer.stateNext, hs, opState] at hnext
        split at hnext <;> exact PosixState.noConfusion hnext
      · simp [PosixLayer.stateNext, hs, opState] at hnext
      · simp [PosixLayer.stateNext, hs, opState] at hnext
      · have hop : opState n = .complete := by
          unfold opState
          split <;> first | omega | rfl
        simp [PosixLayer.stateNext, hs, hop] at hnext
    · exact hlt

theorem at_of (h : Serving c t) : At c t := by
  induction h with
  | dispatched hs hi i' => exact at_dispatched hs hi i'
  | waits _ i ht ih => exact at_waits ih i ht

/-! ### The request lines -/

theorem At.num (h : At c t) : t.num = c.num := congrArg Syscall.num h.latched

theorem At.category (h : At c t) : t.category = c.num.toNat / 16 := by rw [PosixLayer.category, h.num]

theorem At.subop (h : At c t) : t.subop = c.num.toNat % 16 := by rw [PosixLayer.subop, h.num]

theorem At.arg0 (h : At c t) : t.arg0 = c.arg0 := congrArg Syscall.arg0 h.latched

theorem At.arg1 (h : At c t) : t.arg1 = c.arg1 := congrArg Syscall.arg1 h.latched

theorem At.arg2 (h : At c t) : t.arg2 = c.arg2 := congrArg Syscall.arg2 h.latched

theorem opState_ne_wait (n : ℕ) : opState n ≠ .waitRtos := by
  unfold opState
  split <;> decide

/-- the four categories that go to the RTOS have states of their own -/
theorem opState_inj {n k : ℕ} (hk : k < 4) : opState n = opState k ↔ n = k := by
  refine ⟨fun h => ?_, fun h => congrArg opState h⟩
  rcases show k = 0 ∨ k = 1 ∨ k = 2 ∨ k = 3 by omega with rfl | rfl | rfl | rfl
  all_goals
    unfold opState at h
    split at h <;> first | rfl | exact PosixState.noConfusion h

theorem At.serves (h : At c t) {k : ℕ} (hk : k < 4) : t.serves (opState k) k = decide (c.num.toNat / 16 = k) := by
  rw [PosixLayer.serves, h.category]
  rcases h.state with hs | ⟨hs, -⟩
  · have hwait : (t.state == PosixState.waitRtos) = false := by
      rw [hs]
      exact beq_eq_false_iff_ne.2 (opState_ne_wait _)
    have hop : (t.state == opState k) = decide (c.num.toNat / 16 = k) := by
      rw [hs, Bool.eq_iff_iff]
      simpa using opState_inj hk
    rw [hwait, hop, Bool.false_and, Bool.or_false]
  · have hop : (t.state == opState k) = false := by
      rw [hs]
      exact beq_eq_false_iff_ne.2 (opState_ne_wait k).symm
    rw [hop, hs, Bool.false_or, Bool.eq_iff_iff]
    simp

/-- a timer or file call is in its operation state -/
theorem At.periph (h : At c t) (hc : 4 ≤ c.num.toNat / 16) : t.state = opState (c.num.toNat / 16) :=
  h.state.resolve_right fun hwait => absurd hwait.2 (by omega)

/-- any call can come with any descriptor table -/
theorem exists_serving (c : Syscall) (fds : Fd → FdEntry) : ∃ t, Serving c t ∧ t.fd = fds :=
  ⟨_, .dispatched (s := { PosixLayer.reset with fd := fds }) (i := .call c) rfl ⟨rfl, rfl⟩ (.call c), rfl⟩

end Serving

/-! ## Every wrapper -/

namespace LibCall

variable {w : LibWorld}

/-- a wrapper with one `ecall` -/
theorem honoured_iff_of {call : LibCall} {c : Syscall} {P : Prop} (hc : call.ecalls w.mem = [c])
    (h : ∀ t, Serving.At c t → t.fd = w.fds → (call.Documented w 0 t ↔ P)) : call.Honoured w ↔ P := by
  refine ⟨fun hall => ?_, fun hp k c' t hk ht hfd => ?_⟩
  · obtain ⟨t, ht, hfd⟩ := Serving.exists_serving c w.fds
    exact (h t (Serving.at_of ht) hfd).1 (hall 0 c t (by rw [hc]; rfl) ht hfd)
  · rw [hc] at hk
    cases k with
    | zero =>
      obtain rfl : c = c' := Option.some.inj hk
      exact (h t (Serving.at_of ht) hfd).2 hp
    | succ k => simp at hk

theorem lowId_eq_iff (x y : Word) : (lowId 8 x : Fin 8) = lowId 8 y ↔ x.extractLsb' 0 3 = y.extractLsb' 0 3 := by
  rw [← BitVec.toNat_inj, BitVec.extractLsb'_toNat, BitVec.extractLsb'_toNat, lowId, lowId, Fin.ext_iff]
  simp [Fin.ofNat]

section Requests

open Serving (At)

variable {c : Syscall} {t : PosixLayer}

theorem serves_thread (h : At c t) : t.serves .threadOp 0 = decide (c.num.toNat / 16 = 0) :=
  h.serves (k := 0) (by decide)

theorem serves_mutex (h : At c t) : t.serves .mutexOp 1 = decide (c.num.toNat / 16 = 1) := h.serves (k := 1) (by decide)

theorem serves_sem (h : At c t) : t.serves .semOp 2 = decide (c.num.toNat / 16 = 2) := h.serves (k := 2) (by decide)

theorem serves_msgq (h : At c t) : t.serves .msgqOp 3 = decide (c.num.toNat / 16 = 3) := h.serves (k := 3) (by decide)

theorem taskCreate_none (h : At c t) (hcat : c.num.toNat / 16 ≠ 0) : t.taskCreate = none := by
  have hserves : t.serves .threadOp 0 = false := (serves_thread h).trans (decide_eq_false hcat)
  have hstate : (t.state == PosixState.threadOp) = false := by
    rw [PosixLayer.serves, Bool.or_eq_false_iff] at hserves
    exact hserves.1
  simp [PosixLayer.taskCreate, hserves, hstate]

theorem create_lines (h : At c t) (hnum : c.num = 0x00#8) :
    t.performed = some .create ∧ t.taskCreate = some ⟨c.arg0, c.arg1, c.arg2.setWidth 4⟩ := by
  have hserves := serves_thread h
  have hsub := h.subop
  rw [hnum] at hserves hsub
  have hcreate : t.taskCreate = some ⟨c.arg0, c.arg1, c.arg2.setWidth 4⟩ := by
    simp [PosixLayer.taskCreate, hserves, hsub, h.arg0, h.arg1, h.arg2]
  refine ⟨?_, hcreate⟩
  simp [PosixLayer.performed, hcreate]

variable {n : BitVec 8}

theorem mutex_lines (h : At c t) (hnum : c.num = n) (hcat : n.toNat / 16 = 1)
    (hcode : PosixLayer.mutexCode (n.toNat % 16) ≠ 0) :
    t.performed = (MutexOp.ofCode (PosixLayer.mutexCode (n.toNat % 16))).does := by
  subst hnum
  have hserves : t.serves .mutexOp 1 = true := (serves_mutex h).trans (decide_eq_true hcat)
  have hop : t.mutexOp = PosixLayer.mutexCode (c.num.toNat % 16) := by rw [PosixLayer.mutexOp, if_pos hserves, h.subop]
  rw [PosixLayer.performed, taskCreate_none h (by omega), hop, if_pos hcode]
  rfl

theorem sem_lines (h : At c t) (hnum : c.num = n) (hcat : n.toNat / 16 = 2)
    (hcode : PosixLayer.semCode (n.toNat % 16) ≠ 0) :
    t.performed = (SemOp.ofCode (PosixLayer.semCode (n.toNat % 16))).does ∧
      ∀ sems, t.SemApart sems c.arg0 ↔ LowBitsApart sems c.arg0 := by
  subst hnum
  have hserves : t.serves .semOp 2 = true := (serves_sem h).trans (decide_eq_true hcat)
  have hmutex : t.mutexOp = 0 := by
    rw [PosixLayer.mutexOp, serves_mutex h, if_neg (by simp [hcat])]
  have hop : t.semOp = PosixLayer.semCode (c.num.toNat % 16) := by rw [PosixLayer.semOp, if_pos hserves, h.subop]
  refine ⟨?_, fun sems => ?_⟩
  · rw [PosixLayer.performed, taskCreate_none h (by omega), hmutex, hop, if_pos hcode]
    rfl
  · have hid (m : Word) : ({ t with arg0 := m } : PosixLayer).semId = lowId 8 m := if_pos hserves
    simp only [PosixLayer.SemApart, LowBitsApart, hid, h.arg0, ne_eq, lowId_eq_iff]

theorem sem_value (h : At c t) (hnum : c.num = 0x20#8) : t.semValue = c.arg1.setWidth 8 := by
  have hserves := serves_sem h
  have hsub := h.subop
  rw [hnum] at hserves hsub
  simp [PosixLayer.semValue, hserves, hsub, h.arg1]

theorem msgq_lines (h : At c t) (hnum : c.num = n) (hcat : n.toNat / 16 = 3)
    (hcode : PosixLayer.msgqCode (n.toNat % 16) ≠ 0) :
    t.performed = (MsgqOp.ofCode (PosixLayer.msgqCode (n.toNat % 16))).does := by
  subst hnum
  have hmutex : t.mutexOp = 0 := by
    rw [PosixLayer.mutexOp, serves_mutex h, if_neg (by simp [hcat])]
  have hsem : t.semOp = 0 := by
    rw [PosixLayer.semOp, serves_sem h, if_neg (by simp [hcat])]
  have hserves : t.serves .msgqOp 3 = true := (serves_msgq h).trans (decide_eq_true hcat)
  have hop : t.msgqOp = PosixLayer.msgqCode (c.num.toNat % 16) := by rw [PosixLayer.msgqOp, if_pos hserves, h.subop]
  rw [PosixLayer.performed, taskCreate_none h (by omega), hmutex, hsem, hop, if_pos hcode]
  rfl

theorem periph_lines (h : At c t) (hnum : c.num = n) (hcat : 4 ≤ n.toNat / 16) : t.performed =
    t.periphReq.map fun r => if r.write then LibOp.write else if t.state = .timerOp then .getTime else .read := by
  subst hnum
  have hmutex : t.mutexOp = 0 := by
    rw [PosixLayer.mutexOp, serves_mutex h, if_neg (by simp; omega)]
  have hsem : t.semOp = 0 := by
    rw [PosixLayer.semOp, serves_sem h, if_neg (by simp; omega)]
  have hmsgq : t.msgqOp = 0 := by
    rw [PosixLayer.msgqOp, serves_msgq h, if_neg (by simp; omega)]
  rw [PosixLayer.performed, taskCreate_none h (by omega), hmutex, hsem, hmsgq]
  rfl

theorem file_lines (h : At c t) (hnum : c.num = n) (hcat : n.toNat / 16 = 5) :
    t.state = .fileOp ∧ t.periphReq = t.fileReq ∧ t.subop = n.toNat % 16 := by
  subst hnum
  have hstate := h.periph (by omega)
  rw [hcat] at hstate
  have hfile : t.state = .fileOp := hstate
  exact ⟨hfile, by rw [PosixLayer.periphReq, hfile], h.subop⟩

theorem timer_lines (h : At c t) (hnum : c.num = n) (hcat : n.toNat / 16 = 4) :
    t.state = .timerOp ∧ t.periphReq = some t.timerReq ∧ t.subop = n.toNat % 16 := by
  subst hnum
  have hstate := h.periph (by omega)
  rw [hcat] at hstate
  have htimer : t.state = .timerOp := hstate
  exact ⟨htimer, by rw [PosixLayer.periphReq, htimer], h.subop⟩

end Requests

/-- a wrapper whose `ecall` has the units do something else -/
theorem not_honoured {call : LibCall} {c : Syscall} (hc : call.ecalls w.mem = [c]) {op : LibOp}
    (hdoc : ∀ t, call.Documented w 0 t → t.performed = some op) (h : ∀ t, Serving.At c t → t.performed ≠ some op) :
    call.Honoured w ↔ False :=
  honoured_iff_of hc fun t ht _ => ⟨fun hd => h t ht (hdoc t hd), fun hf => hf.elim⟩

/-- a mutex wrapper: no code that the layer sends is one that `hw_mutex` has for it -/
theorem mutex_never {call : LibCall} {c : Syscall} (hc : call.ecalls w.mem = [c]) (n : BitVec 8) (hnum : c.num = n)
    {op : LibOp} (hdoc : ∀ t, call.Documented w 0 t → t.performed = some op) (hcat : n.toNat / 16 = 1)
    (hcode : PosixLayer.mutexCode (n.toNat % 16) ≠ 0)
    (hne : (MutexOp.ofCode (PosixLayer.mutexCode (n.toNat % 16))).does ≠ some op) : call.Honoured w ↔ False :=
  not_honoured hc hdoc fun t ht => by rw [mutex_lines ht hnum hcat hcode]; exact hne

/-- a queue wrapper: no code that the layer sends is one that `hw_msgqueue` has for it -/
theorem msgq_never {call : LibCall} {c : Syscall} (hc : call.ecalls w.mem = [c]) (n : BitVec 8) (hnum : c.num = n)
    {op : LibOp} (hdoc : ∀ t, call.Documented w 0 t → t.performed = some op) (hcat : n.toNat / 16 = 3)
    (hcode : PosixLayer.msgqCode (n.toNat % 16) ≠ 0)
    (hne : (MsgqOp.ofCode (PosixLayer.msgqCode (n.toNat % 16))).does ≠ some op) : call.Honoured w ↔ False :=
  not_honoured hc hdoc fun t ht => by rw [msgq_lines ht hnum hcat hcode]; exact hne

theorem sem_iff {call : LibCall} {c : Syscall} (hc : call.ecalls w.mem = [c]) {n : BitVec 8} (hnum : c.num = n)
    (hcat : n.toNat / 16 = 2) (hcode : PosixLayer.semCode (n.toNat % 16) ≠ 0) {op : LibOp}
    (hdoc : ∀ t, call.Documented w 0 t = (t.performed = some op ∧ t.SemApart w.sems c.arg0)) : call.Honoured w ↔
      (SemOp.ofCode (PosixLayer.semCode (n.toNat % 16))).does = some op ∧ LowBitsApart w.sems c.arg0 := by
  refine honoured_iff_of hc fun t ht _ => ?_
  obtain ⟨hop, hapart⟩ := sem_lines ht hnum hcat hcode
  rw [hdoc, hop, hapart]

theorem create_iff (thread attr startRoutine arg : Word) :
    (pthreadCreate thread attr startRoutine arg).Honoured w ↔ thread = startRoutine := by
  refine honoured_iff_of rfl fun t ht _ => ?_
  obtain ⟨hop, hcreate⟩ := create_lines ht rfl
  change (t.performed = some .create ∧ ∃ sp prio, t.taskCreate = some ⟨startRoutine, sp, prio⟩) ↔ _
  rw [hop, hcreate]
  refine ⟨fun h => ?_, fun h => ⟨rfl, attr, _, by rw [← h]; rfl⟩⟩
  obtain ⟨-, sp, prio, h⟩ := h
  exact congrArg CreateArgs.pc (Option.some.inj h)

theorem semInit_iff (sem pshared value : Word) :
    (semInit sem pshared value).Honoured w ↔ LowBitsApart w.sems sem ∧ value.toNat = pshared.toNat % 256 := by
  refine honoured_iff_of rfl fun t ht _ => ?_
  obtain ⟨hop, hapart⟩ := sem_lines (n := 0x20) ht rfl (by decide) (by decide)
  have hsame : t.SemApart w.sems sem ↔ LowBitsApart w.sems sem := hapart w.sems
  have hvalue : t.semValue.setWidth 32 = value ↔ value.toNat = pshared.toNat % 256 := by
    have hline : t.semValue = pshared.setWidth 8 := sem_value ht rfl
    have hlt := pshared.isLt
    rw [hline, ← BitVec.toNat_inj, BitVec.toNat_setWidth, BitVec.toNat_setWidth]
    omega
  change (t.performed = some .init ∧ t.SemApart w.sems sem ∧ t.semValue.setWidth 32 = value) ↔ _
  rw [hsame, hvalue]
  exact ⟨fun h => h.2, fun h => ⟨hop, h⟩⟩

theorem read_iff (fd buf count : Word) : (read fd buf count).Honoured w ↔
    (w.isOpen fd = true → count ≠ 0 → w.mem buf = byteOf (w.device (w.readAddr fd)) 0) := by
  refine honoured_iff_of rfl fun t ht hfd => ?_
  obtain ⟨hstate, hreq, hsub⟩ := file_lines (n := 0x52) ht rfl (by decide)
  have hop := periph_lines (n := 0x52) ht rfl (by decide)
  have harg : t.arg0 = fd := ht.arg0
  have hopen : t.fdOpen = w.isOpen fd := by rw [PosixLayer.fdOpen, LibWorld.isOpen, harg, hfd]
  have haddr : t.fileReq = if w.isOpen fd then some ⟨w.readAddr fd, 0, false⟩ else none := by
    rw [PosixLayer.fileReq, hsub, ← hopen, harg, hfd]
    rfl
  have hfilled : Filled w.mem buf ([byteOf (w.device (w.readAddr fd)) 0].take count.toNat) ↔
      (count ≠ 0 → w.mem buf = byteOf (w.device (w.readAddr fd)) 0) := by
    rcases Nat.eq_zero_or_pos count.toNat with h0 | hpos
    · have hc : count = 0 := BitVec.eq_of_toNat_eq h0
      simp [Filled, hc]
    · have hc : count ≠ 0 := fun h => by simp [h] at hpos
      obtain ⟨n, hn⟩ : ∃ n, count.toNat = n + 1 := ⟨count.toNat - 1, by omega⟩
      rw [hn, List.take_succ_cons, List.take_nil]
      refine ⟨fun h _ => by simpa using h 0 _ rfl, fun h k b hk => ?_⟩
      cases k with
      | zero => simpa [← Option.some.inj hk] using h hc
      | succ k => simp at hk
  cases hw : w.isOpen fd with
  | false =>
    refine ⟨fun _ h => Bool.noConfusion h, fun _ h => ?_⟩
    rw [hopen, hw] at h
    exact Bool.noConfusion h
  | true =>
    have hr : t.periphReq = some ⟨w.readAddr fd, 0, false⟩ := by rw [hreq, haddr, hw]; rfl
    have hread : t.performed = some .read := by rw [hop, hr, hstate]; rfl
    rw [← hfilled]
    change (t.fdOpen = true → t.performed = some .read ∧ ∀ r, t.periphReq = some r → _) ↔ _
    rw [hopen, hw, hread, hr]
    exact ⟨fun h _ => (h rfl).2 _ rfl, fun h _ => ⟨rfl, fun r hr => by rw [← Option.some.inj hr]; exact h rfl⟩⟩

theorem write_honoured (fd buf count : Word) : (write fd buf count).Honoured w := by
  intro k c t hk ht hfds hopen
  have hat := Serving.at_of ht
  rw [ecalls, List.getElem?_map, Option.map_eq_some_iff] at hk
  obtain ⟨j, hj, rfl⟩ := hk
  obtain ⟨_, rfl⟩ := List.getElem?_eq_some_iff.1 hj
  rw [List.getElem_range] at hat
  obtain ⟨hstate, hreq, hsub⟩ := file_lines (n := 0x53) hat rfl (by decide)
  have hfd : t.arg0 = fd := hat.arg0
  have hdata : t.arg1 = (w.mem (buf + BitVec.ofNat 32 k)).setWidth 32 := hat.arg1
  have hwrite : t.periphReq = some ⟨(w.fds (lowId 16 fd)).baseAddr, (w.mem (buf + BitVec.ofNat 32 k)).setWidth 32,
      true⟩ := by
    rw [hreq, PosixLayer.fileReq, hsub, ← hfd, ← hdata, ← hfds]
    exact if_pos hopen
  refine ⟨?_, hwrite⟩
  rw [periph_lines (n := 0x53) hat rfl (by decide), hwrite]
  rfl

theorem clockGettime_iff (clkId tp : Word) : (clockGettime clkId tp).Honoured w ↔ Filled w.mem tp w.timespec := by
  refine honoured_iff_of rfl fun t ht _ => ⟨fun h => h.2, fun h => ⟨?_, h⟩⟩
  obtain ⟨hstate, hreq, hsub⟩ := timer_lines (n := 0x40) ht rfl (by decide)
  rw [periph_lines (n := 0x40) ht rfl (by decide), hreq, PosixLayer.timerReq, hsub, hstate]
  rfl

/-- two semaphores eight bytes apart, a message of one byte at `0x10020`, the byte `0x42` in the UART, and a clock that
has gone for a second -/
def sampleWorld : LibWorld where
  mem := fun x => if x = 0x10020 then 0x41 else 0
  mutexes := [0x10000]
  sems := [0x10010, 0x10018]
  fds := PosixLayer.reset.fd
  device := fun x => if x = Posix.ADDR_UART_BASE + 4 then 0x42 else if x = Posix.ADDR_MTIME_LO then 25000000 else 0

end LibCall

end Vsync
