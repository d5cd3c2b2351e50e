/-
The AXI4-Lite register slaves of `hw_rtos.sv` and `posix_hw_layer.sv`.

Both register their `arready`: it is up in the cycle after the address. The strobes are not looked at. Writes reach two
registers of the kernel, by its low address byte; the registers of the POSIX layer are read-only, and a write is taken
and answered without effect. A write is an access in the cycle in which the slave takes its data. `axi_b_resp_r` is
constant.
-/
import Vsync.Bus.Transfer

namespace Vsync

/-! ## The kernel -/

/-- what the registers of the kernel show -/
structure RtosStatus where
  schedulerEn : Bool
  schedulePolicy : BitVec 2
  currentTaskIdR : BitVec 4
  nextTaskIdR : BitVec 4
  taskActiveR : Bool
  taskCount : BitVec 4
  timeSliceConfig : BitVec 16
  fsmState : BitVec 4
  timerTickPending : Bool
  needReschedule : Bool
  deriving DecidableEq, Repr

def flagWord (x : Bool) : Word := (BitVec.ofBool x).setWidth 32

/-- `REG_SCHEDULER_EN`, …, `REG_SCHED_TRIGGER` -/
def RtosStatus.readReg (t : RtosStatus) (offset : BitVec 8) : Word :=
  if offset = 0x00#8 then flagWord t.schedulerEn
  else if offset = 0x04#8 then t.schedulePolicy.setWidth 32
  else if offset = 0x08#8 then t.currentTaskIdR.setWidth 32
  else if offset = 0x0C#8 then t.nextTaskIdR.setWidth 32
  else if offset = 0x10#8 then flagWord t.taskActiveR
  else if offset = 0x14#8 then t.taskCount.setWidth 32
  else if offset = 0x18#8 then t.timeSliceConfig.setWidth 32
  else if offset = 0x1C#8 then t.fsmState.setWidth 32
  else if offset = 0x20#8 then flagWord t.timerTickPending
  else if offset = 0x24#8 then flagWord t.needReschedule
  else 0xDEADBEEF#32

structure RtosLite where
  awReadyR : Bool
  awAddrR : Word
  awDone : Bool
  wReadyR : Bool
  wDone : Bool
  bValidR : Bool
  wrTimeSliceReq : Bool
  wrTimeSliceVal : BitVec 16
  wrRescheduleReq : Bool
  arReadyR : Bool
  arAddrR : Word
  rValidR : Bool
  rDataR : Word
  deriving DecidableEq, Repr

namespace RtosLite

def reset : RtosLite := ⟨false, 0, false, false, false, false, false, 0, false, false, 0, false, 0⟩

section Step

variable (s : RtosLite) (m : BusRequest) (t : RtosStatus)

def response (_ : BusRequest) : BusResponse where
  arready := s.arReadyR
  rvalid := s.rValidR
  rdata := s.rDataR
  rresp := 0b00
  awready := s.awReadyR
  wready := s.wReadyR
  bvalid := s.bValidR
  bresp := 0b00

def commits : Bool := s.awDone && s.wDone && !s.bValidR

def bFires : Bool := m.bready && s.bValidR

def step : RtosLite where
  awReadyR := m.awvalid && !s.awDone
  awAddrR := if m.awvalid && !s.awDone then m.awaddr else s.awAddrR
  awDone := if s.bFires m then false else s.awDone || m.awvalid
  wReadyR := m.wvalid && !s.wDone
  wDone := if s.bFires m then false else s.wDone || m.wvalid
  bValidR := if s.commits then true else if s.bFires m then false else s.bValidR
  wrTimeSliceReq := s.commits && s.awAddrR.extractLsb' 0 8 == 0x18#8
  wrTimeSliceVal := if s.commits && s.awAddrR.extractLsb' 0 8 == 0x18#8 then m.wdata.extractLsb' 0 16
    else s.wrTimeSliceVal
  wrRescheduleReq := s.commits && s.awAddrR.extractLsb' 0 8 == 0x24#8 && m.wdata.getLsbD 0
  arReadyR := m.arvalid && !s.rValidR
  arAddrR := if m.arvalid && !s.rValidR then m.araddr else s.arAddrR
  rValidR := if s.arReadyR then true else if m.rready && s.rValidR then false else s.rValidR
  rDataR := if s.arReadyR then t.readReg (s.arAddrR.extractLsb' 0 8) else s.rDataR

def access : List BusAccess :=
  (if s.arReadyR then [.read s.arAddrR (t.readReg (s.arAddrR.extractLsb' 0 8))] else []) ++
  (if s.commits then [.write s.awAddrR m.wdata none] else [])

end Step

def slave : BusSlave where
  State := RtosLite
  Env := RtosStatus
  reset := reset
  out := response
  step := step
  access := access
  holds _ t a := t.readReg (a.extractLsb' 0 8)
  strobed := false

structure Idle (s : RtosLite) : Prop where
  awReadyR : s.awReadyR = false
  awDone : s.awDone = false
  wReadyR : s.wReadyR = false
  wDone : s.wDone = false
  bValidR : s.bValidR = false
  arReadyR : s.arReadyR = false

theorem readsHeld : slave.ReadsHeld := by
  intro s m t a d h
  change Axi.Access.read a d ∈ s.access m t at h
  change d = t.readReg (a.extractLsb' 0 8)
  rcases List.mem_append.1 h with h | h
  · split at h
    · simp only [List.mem_singleton, Axi.Access.read.injEq] at h
      rw [h.1, h.2]
    · simp at h
  · split at h <;> simp at h

theorem rests : slave.Rests Idle where
  reset := ⟨rfl, rfl, rfl, rfl, rfl, rfl⟩
  stays s l e hs := by
    obtain ⟨h1, h2, h3, h4, h5, h6⟩ := hs
    constructor <;> simp [slave, step, commits, bFires, Axi.Lines.quiet, h2, h4, h5]
  silent s l e hs := by
    change s.access l.quiet e = []
    simp [access, commits, hs.arReadyR, hs.awDone]

/-- **`arready` comes a cycle late.** -/
theorem dropsReads : slave.DropsReads Idle := by
  intro s l hs
  exact hs.arReadyR

/-- address and data are each accepted a cycle late; with the data the slave makes the write -/
theorem servesWrites (mine : Word → Prop) : slave.ServesWrites Idle mine := by
  intro s l _ hs
  rcases s with ⟨awr, awa, awd, wr, wd, bv, tr, tv, rr, arr, ara, rv, rd⟩
  obtain rfl : awr = false := hs.awReadyR
  obtain rfl : awd = false := hs.awDone
  obtain rfl : wr = false := hs.wReadyR
  obtain rfl : wd = false := hs.wDone
  obtain rfl : bv = false := hs.bValidR
  obtain rfl : arr = false := hs.arReadyR
  refine Machine.reaches_silent rfl (fun _ => rfl) fun _ => ?_
  refine Machine.reaches_here rfl fun _ => ⟨rfl, rfl, ?_⟩
  refine Machine.reaches_silent rfl (fun _ => rfl) fun _ => ?_
  refine Machine.reaches_here rfl fun _ => ?_
  exact Machine.reaches_here rfl fun _ => ⟨rfl, rfl, ⟨rfl, rfl, rfl, rfl, rfl, rfl⟩⟩

end RtosLite

/-! ## The POSIX layer -/

/-- what the registers of the layer show -/
structure PosixStatus where
  stateR : BitVec 4
  pendingSyscallCnt : BitVec 8
  fdFlags : Fin 15 → BitVec 16
  fdTypeR : Fin 15 → BitVec 3
  fdValid : Fin 15 → Bool
  lastSyscallNumR : BitVec 8
  lastSyscallRetR : Word

/-- the status register, fifteen descriptors, the last syscall -/
def PosixStatus.readReg (t : PosixStatus) (offset : BitVec 8) : Word :=
  if offset = 0x00#8 then 0#16 ++ t.pendingSyscallCnt ++ 0#4 ++ t.stateR
  else if h : offset.extractLsb' 0 2 = 0#2 ∧ offset.toNat / 4 - 1 < 15 then
    t.fdFlags ⟨offset.toNat / 4 - 1, h.2⟩ ++ 0#5 ++ t.fdTypeR ⟨offset.toNat / 4 - 1, h.2⟩ ++ 0#7 ++
      BitVec.ofBool (t.fdValid ⟨offset.toNat / 4 - 1, h.2⟩)
  else if offset = 0x40#8 then t.lastSyscallNumR.setWidth 32
  else if offset = 0x44#8 then t.lastSyscallRetR
  else 0xDEADBEEF#32

structure PosixLite where
  awDoneR : Bool
  wDoneR : Bool
  awaddrR : BitVec 16
  bvalid : Bool
  arDoneR : Bool
  araddrR : BitVec 16
  arready : Bool
  rvalid : Bool
  rdata : Word
  deriving DecidableEq, Repr

namespace PosixLite

def reset : PosixLite := ⟨false, false, 0, false, false, 0, false, false, 0⟩

def regAddr (low : BitVec 16) : Word := 0x1200#16 ++ low

section Step

variable (s : PosixLite) (m : BusRequest) (t : PosixStatus)

def response (_ : BusRequest) : BusResponse where
  arready := s.arready
  rvalid := s.rvalid
  rdata := s.rdata
  rresp := 0b00
  awready := !s.awDoneR
  wready := !s.wDoneR
  bvalid := s.bvalid
  bresp := 0b00

def step : PosixLite where
  awDoneR := if s.bvalid && m.bready then false else s.awDoneR || m.awvalid
  wDoneR := if s.bvalid && m.bready then false else s.wDoneR || m.wvalid
  awaddrR := if m.awvalid && !s.awDoneR then m.awaddr.extractLsb' 0 16 else s.awaddrR
  bvalid := if s.bvalid && m.bready then false else s.bvalid || (s.awDoneR && s.wDoneR)
  arDoneR := if s.rvalid && m.rready then false else s.arDoneR || m.arvalid
  araddrR := if m.arvalid && !s.arDoneR then m.araddr.extractLsb' 0 16 else s.araddrR
  arready := m.arvalid && !s.arDoneR
  rvalid := if s.rvalid && m.rready then false else s.rvalid || s.arDoneR
  rdata := if s.arDoneR && !s.rvalid then t.readReg (s.araddrR.extractLsb' 0 8) else s.rdata

def access : List BusAccess :=
  (if s.arDoneR && !s.rvalid then [.read (regAddr s.araddrR) (t.readReg (s.araddrR.extractLsb' 0 8))] else []) ++
  (if m.wvalid && !s.wDoneR then [.write (regAddr s.awaddrR) m.wdata none] else [])

end Step

def slave : BusSlave where
  State := PosixLite
  Env := PosixStatus
  reset := reset
  out := response
  step := step
  access := access
  holds _ t a := t.readReg (a.extractLsb' 0 8)
  strobed := false

structure Idle (s : PosixLite) : Prop where
  awDoneR : s.awDoneR = false
  wDoneR : s.wDoneR = false
  bvalid : s.bvalid = false
  arDoneR : s.arDoneR = false
  arready : s.arready = false
  rvalid : s.rvalid = false

theorem regAddr_low (low : BitVec 16) : (regAddr low).extractLsb' 0 8 = low.extractLsb' 0 8 := by
  apply BitVec.eq_of_getLsbD_eq
  intro i hi
  have happend : (0x1200#16 ++ low).getLsbD i = low.getLsbD i := by rw [BitVec.getLsbD_append, if_pos (by omega)]
  rw [BitVec.getLsbD_extractLsb', BitVec.getLsbD_extractLsb', Nat.zero_add]
  exact congrArg _ happend

theorem readsHeld : slave.ReadsHeld := by
  intro s m t a d h
  change Axi.Access.read a d ∈ s.access m t at h
  change d = t.readReg (a.extractLsb' 0 8)
  rcases List.mem_append.1 h with h | h
  · split at h
    · simp only [List.mem_singleton, Axi.Access.read.injEq] at h
      rw [h.1, h.2, regAddr_low]
    · simp at h
  · split at h <;> simp at h

theorem rests : slave.Rests Idle where
  reset := ⟨rfl, rfl, rfl, rfl, rfl, rfl⟩
  stays s l e hs := by
    obtain ⟨h1, h2, h3, h4, h5, h6⟩ := hs
    constructor <;> simp [slave, step, Axi.Lines.quiet, h1, h2, h3, h4, h6]
  silent s l e hs := by
    change s.access l.quiet e = []
    simp [access, hs.arDoneR, Axi.Lines.quiet]

/-- **`arready` comes a cycle late.** -/
theorem dropsReads : slave.DropsReads Idle := by
  intro s l hs
  exact hs.arready

theorem regAddr_of_decode {addr : Word} (h : Interconnect.decode addr = some 4) :
    regAddr (addr.extractLsb' 0 16) = addr := by
  have hrange : 0x12000000#32 ≤ addr ∧ addr ≤ 0x1200FFFF#32 := by
    simp only [Interconnect.decode] at h
    grind
  simp only [BitVec.le_def] at hrange
  apply BitVec.eq_of_toNat_eq
  rw [regAddr, BitVec.toNat_append, BitVec.extractLsb'_toNat, ← Nat.shiftLeft_add_eq_or_of_lt (by omega)]
  simp only [Nat.shiftLeft_eq]
  simp at hrange ⊢
  omega

/-- the data is accepted in its first cycle, and answered two cycles later -/
theorem servesWrites : slave.ServesWrites Idle (fun a => Interconnect.decode a = some 4) := by
  intro s l hmine hs
  have haddr : regAddr (l.addr.extractLsb' 0 16) = l.addr := regAddr_of_decode hmine
  rcases s with ⟨awd, wd, awa, bv, ard, ara, arr, rv, rd⟩
  obtain rfl : awd = false := hs.awDoneR
  obtain rfl : wd = false := hs.wDoneR
  obtain rfl : bv = false := hs.bvalid
  obtain rfl : ard = false := hs.arDoneR
  obtain rfl : arr = false := hs.arready
  obtain rfl : rv = false := hs.rvalid
  refine Machine.reaches_here rfl fun _ => ⟨rfl, rfl, ?_⟩
  refine Machine.reaches_here rfl fun _ => ?_
  refine Machine.reaches_silent rfl (fun _ => rfl) fun _ => ?_
  refine Machine.reaches_here rfl fun _ => ⟨?_, rfl, ⟨rfl, rfl, rfl, rfl, rfl, rfl⟩⟩
  change [Axi.Access.write (regAddr (l.addr.extractLsb' 0 16)) l.data none] = [.write l.addr l.data none]
  rw [haddr]

end PosixLite

end Vsync
