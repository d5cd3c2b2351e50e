/-
The pipeline in lockstep with the interpreter.

`retired` counts the instructions that have left EX/MEM for WB; the instruction in EX/MEM is the next one of the
interpreter's run, the one in ID/EX comes behind it, and the fetch stage is on its way to the one after that. `Back`
says so of EX/MEM, MEM/WB, the register file and the bus, `Front` of ID/EX, IF/ID and the fetch stage, and `Latched` of
the operands that ID/EX holds.

- `forwarded_eq`, `operands`: unless the load in EX/MEM writes them, the operands in EX are the registers of the
  interpreter.
- `trap_eq_nothing`, `controls`: there is no trap, and what the stages do next.
- `step_back`, `step_front`, `step_latched`: one cycle.
-/
import Vsync.Core.Board
import Vsync.Core.Effects

namespace Vsync

namespace Board

/-! ## What is observed -/

section Observed

variable (b : Board) (i : BoardIn)

def issues : Bool := !b.core.stallEx (b.coreIn i) && !b.core.flushEx (b.coreIn i) && b.core.idEx.valid

def retires : Bool := !b.core.stallEx (b.coreIn i) && !b.core.flushMem (b.coreIn i) && b.core.exMem.valid

def accessEvents : List Isa.Event :=
  if b.bus.accepts (b.cmd i) then
    if (b.cmd i).read then [.load (b.cmd i).addr (b.bus.mem (wordAddr (b.cmd i).addr))]
    else [.store (b.cmd i).addr (b.cmd i).wdata (b.cmd i).strobe]
  else []

def writeEvents : List Isa.Event :=
  let w := b.core.memDone (b.coreIn i)
  if b.retires i && w.writes && w.rdAddr != 0 then [.write w.rdAddr w.rdData] else []

def events : List Isa.Event := b.accessEvents i ++ b.writeEvents i

end Observed

section Run

variable (prog : Program) (mem : DataMem) (ins : ℕ → BoardIn)

def log (n : ℕ) : List Isa.Event := Machine.log events (step prog) (reset mem) ins n

def issued (n : ℕ) : ℕ := Nat.count (fun k => (stateAt prog mem ins k).issues (ins k) = true) n

def retired (n : ℕ) : ℕ := Nat.count (fun k => (stateAt prog mem ins k).retires (ins k) = true) n

theorem log_succ (n : ℕ) :
    log prog mem ins (n + 1) = log prog mem ins n ++ (stateAt prog mem ins n).events (ins n) := rfl

end Run

end Board

namespace Rv32imCore

/-- a register after the write of the instruction in WB -/
def visible (s : Rv32imCore) (x : RegAddr) : Word :=
  if x = 0 then 0 else if s.memWb.writes && s.memWb.rdAddr == x then s.memWb.rdData else s.regs x

def memWrites (s : Rv32imCore) (x : RegAddr) : Prop := s.exMem.regWrite = true ∧ s.exMem.rdAddr = x ∧ x ≠ 0#5

def wbWrites (s : Rv32imCore) (x : RegAddr) : Prop := s.memWb.writes = true ∧ s.memWb.rdAddr = x ∧ x ≠ 0#5

/-- nothing that the base instructions leave alone has happened -/
structure Idle (s : Rv32imCore) : Prop where
  sys : s.sysState = .idle
  ctx : s.ctxState = .idle
  halt : s.debugHalt = false
  muldiv : s.muldiv.state = .idle
  mie : s.csr.mstatusMie = false

end Rv32imCore

namespace Lockstep

open Rv32imCore

section Invariant

variable (prog : Program) (mem : DataMem)

def isa (k : ℕ) : Isa.State := Isa.stateAt prog mem k

variable (b : Board)

/-- the fetch stage delivers the word at `p` next -/
def Fetching (p : Word) : Prop :=
  if b.core.suppressValid then b.core.pc = p
  else b.core.pcDelayed = p ∧ b.imemQ = prog.fetch p ∧ b.core.pc = p + 4

/-- the next instruction to reach ID/EX is the one at `p` -/
def Follows (p : Word) : Prop :=
  if b.core.ifId.valid then b.core.ifId = ⟨p, prog.fetch p, true⟩ ∧ Fetching prog b (p + 4) else Fetching prog b p

/-- the instructions that have entered EX/MEM, when `j` have moved on -/
def entered (j : ℕ) : ℕ := if b.core.exMem.valid then j + 1 else j

/-- EX/MEM, MEM/WB, the register file and the bus, with `j` instructions retired -/
structure Back (j : ℕ) : Prop where
  idle : b.core.Idle
  carries : b.core.exMem.valid = true → b.core.exMem.Carries ((isa prog mem j).effect prog) (isa prog mem j).mem
  bubble : b.core.exMem.valid = false →
    b.core.exMem.memRead = false ∧ b.core.exMem.memWrite = false ∧ b.core.exMem.regWrite = false
  wb : b.core.memWb.regWrite = true → b.core.memWb.valid = true
  regs : ∀ x, b.core.visible x = (isa prog mem j).reg x
  busy : b.bus.busy = b.core.memReqSent
  sent : b.core.memReqSent = true → b.core.memOpActive = true
  stored : b.bus.mem = (isa prog mem (if b.bus.busy then j + 1 else j)).mem
  rdata : b.bus.busy = true → b.core.exMem.memRead = true →
    b.bus.rdata = (isa prog mem j).mem (wordAddr b.core.exMem.aluResult)

/-- ID/EX, IF/ID and the fetch stage, with `k` instructions in EX/MEM or behind it -/
structure Front (k : ℕ) : Prop where
  idEx : b.core.idEx.valid = true → ∃ r1 r2,
    b.core.idEx = Decode.idEx ⟨(isa prog mem k).pc, prog.fetch (isa prog mem k).pc, true⟩ r1 r2
  /-- nothing valid is behind a jump -/
  noLink : b.core.idEx.valid = true → b.core.exMem.valid = true → b.core.exMem.wbSel ≠ 0b10#2
  next : b.core.idEx.valid = false → Follows prog b (isa prog mem k).pc
  /-- behind the instruction in EX: the next word, or its target already -/
  target : b.core.idEx.valid = true →
    Follows prog b ((isa prog mem k).pc + 4) ∨ Follows prog b (isa prog mem (k + 1)).pc
  /-- a jump behind a load that waits for its answer has emptied IF/ID -/
  emptied : b.core.exMem.memRead = true → b.core.memReqSent = true → b.core.branchFlush = true →
    b.core.ifId = .bubble

/-- what ID/EX holds of the register `x`, unless it is forwarded -/
def Holds (k : ℕ) (x : RegAddr) (latch : Word) : Prop :=
  ¬ b.core.memWrites x → ¬ b.core.wbWrites x → latch = (isa prog mem k).reg x

/-- ID/EX holds the operands that its instruction uses -/
structure Latched (k : ℕ) : Prop where
  rs1 : b.core.idEx.valid = true → b.core.idEx.ctrl.usesRs1 = true →
    Holds prog mem b k b.core.idEx.rs1Addr b.core.idEx.rs1Data
  rs2 : b.core.idEx.valid = true → b.core.idEx.ctrl.usesRs2 = true →
    Holds prog mem b k b.core.idEx.rs2Addr b.core.idEx.rs2Data

end Invariant

/-! ## Operands -/

section Operands

variable {prog : Program} {mem : DataMem} {b : Board} {j : ℕ}

theorem isa_succ (k : ℕ) : isa prog mem (k + 1) = (isa prog mem k).next prog := rfl

theorem reg_next_of_write {s : Isa.State} {rd : RegAddr} {v : Word} (h : (s.effect prog).write = some (rd, v))
    (hrd : rd ≠ 0#5) : (s.next prog).reg rd = v := by
  simp [Isa.State.next, Isa.State.apply, Isa.State.reg, h, hrd]

theorem reg_next_of_ne {s : Isa.State} {x : RegAddr} (h : ∀ v, x ≠ 0#5 → (s.effect prog).write ≠ some (x, v)) :
    (s.next prog).reg x = s.reg x := Isa.reg_apply_of_ne h

/-- EX/MEM does not write `x`: the register is that of the interpreter before the instruction there -/
theorem reg_entered (hb : Back prog mem b j) {x : RegAddr} (h : ¬ b.core.memWrites x) :
    (isa prog mem (entered b j)).reg x = (isa prog mem j).reg x := by
  unfold entered
  cases hv : b.core.exMem.valid with
  | false => rfl
  | true =>
    apply reg_next_of_ne
    intro v hx hc
    change ((isa prog mem j).effect prog).write = _ at hc
    rw [← (hb.carries hv).write, ExMem.write] at hc
    split_ifs at hc with hw
    injection hc with hc
    injection hc with hrd _
    exact h ⟨hw, hrd, hx⟩

/-- the result in EX/MEM is the register of the interpreter after the instruction there, unless it loads or links -/
theorem reg_of_memWrites (hb : Back prog mem b j) {x : RegAddr} (h : b.core.memWrites x)
    (hr : b.core.exMem.memRead = false) (hl : b.core.exMem.wbSel ≠ 0b10#2) :
    (isa prog mem (entered b j)).reg x = b.core.exMem.aluResult := by
  obtain ⟨hw, rfl, hx⟩ := h
  have hv : b.core.exMem.valid = true := by
    by_contra hc
    simp [(hb.bubble (by simpa using hc)).2.2] at hw
  have hc := hb.carries hv
  have hsel : b.core.exMem.wbSel = 0b00#2 := by
    rcases hc.source with h | ⟨-, h⟩ | h
    · exact h
    · simp [hr] at h
    · exact absurd h hl
  have he : ((isa prog mem j).effect prog).write = some (b.core.exMem.rdAddr, b.core.exMem.aluResult) := by
    rw [← hc.write, ExMem.write, if_pos hw]
    simp [ExMem.toWb, MemWb.rdData, hsel]
  unfold entered
  rw [hv]
  exact reg_next_of_write he hx

theorem reg_of_wbWrites (hb : Back prog mem b j) {x : RegAddr} (h : b.core.wbWrites x) :
    (isa prog mem j).reg x = b.core.memWb.rdData := by
  obtain ⟨hw, rfl, hx⟩ := h
  rw [← hb.regs, visible]
  simp [hw, hx]

/-- **Forwarding.** Unless a load in EX/MEM writes `x`, the operand in EX is the register of the interpreter. -/
theorem forwarded_eq (hb : Back prog mem b j) (hl : b.core.exMem.valid = true → b.core.exMem.wbSel ≠ 0b10#2)
    {x : RegAddr} {latch : Word} (hx : Hazard.loads b.core.exMem x = false)
    (hh : Holds prog mem b (entered b j) x latch) :
    b.core.forwarded x latch = (isa prog mem (entered b j)).reg x := by
  by_cases hm : b.core.memWrites x
  · obtain ⟨hw, hrd, hne⟩ := hm
    have hr : b.core.exMem.memRead = false := by
      by_contra hc
      simp [Hazard.loads, hrd, hne, hc] at hx
    have hv : b.core.exMem.valid = true := by
      by_contra hc
      simp [(hb.bubble (by simpa using hc)).2.2] at hw
    rw [reg_of_memWrites hb ⟨hw, hrd, hne⟩ hr (hl hv)]
    simp [forwarded, Hazard.forward, hw, hr, hrd, hne]
  · have hno : (b.core.exMem.regWrite && !b.core.exMem.memRead && b.core.exMem.rdAddr != 0 &&
        b.core.exMem.rdAddr == x) = false := by
      by_contra hc
      simp only [Bool.not_eq_false, Bool.and_eq_true, bne_iff_ne, beq_iff_eq] at hc
      exact hm ⟨hc.1.1.1, hc.2, hc.2 ▸ hc.1.2⟩
    by_cases hwb : b.core.wbWrites x
    · rw [reg_entered hb hm, reg_of_wbWrites hb hwb]
      obtain ⟨hw, hrd, hne⟩ := hwb
      simp only [MemWb.writes, Bool.and_eq_true] at hw
      simp only [forwarded, Hazard.forward, hno, Bool.false_eq_true, if_false]
      simp [hw.1, hrd, hne]
    · have hno' : (b.core.memWb.regWrite && b.core.memWb.rdAddr != 0 && b.core.memWb.rdAddr == x) = false := by
        by_contra hc
        simp only [Bool.not_eq_false, Bool.and_eq_true, bne_iff_ne, beq_iff_eq] at hc
        exact hwb ⟨by simp [MemWb.writes, hc.1.1, hb.wb hc.1.1], hc.2, hc.2 ▸ hc.1.2⟩
      rw [← hh hm hwb]
      simp only [forwarded, Hazard.forward, hno, hno', Bool.false_eq_true, if_false]

theorem loadUseEx_eq_false (h : b.core.loadUseEx = false) :
    Hazard.loads b.core.exMem b.core.idEx.rs1Addr = false ∧ Hazard.loads b.core.exMem b.core.idEx.rs2Addr = false := by
  simpa [loadUseEx, Hazard.loadUse] using h

/-- **The operands in EX** are registers of the interpreter, unless a load in EX/MEM writes one of the source fields. -/
theorem operands (hb : Back prog mem b j) (hf : Front prog mem b (entered b j)) (hl : Latched prog mem b (entered b j))
    (hv : b.core.idEx.valid = true) (hu : b.core.loadUseEx = false) :
    b.core.idEx.Operands b.core.rs1Forwarded b.core.rs2Forwarded (isa prog mem (entered b j)) where
  rs1 h := forwarded_eq hb (hf.noLink hv) (loadUseEx_eq_false hu).1 (hl.rs1 hv h)
  rs2 h := forwarded_eq hb (hf.noLink hv) (loadUseEx_eq_false hu).2 (hl.rs2 hv h)

/-- the instruction of the interpreter, and its effect -/
theorem instr (hr : Isa.Runs prog mem) (k : ℕ) : ∃ i, Isa.decode (prog.fetch (isa prog mem k).pc) = some i ∧
    i.Aligned (isa prog mem k) ∧ (isa prog mem k).effect prog = i.effect (isa prog mem k) := by
  obtain ⟨i, hi, ha⟩ := hr k
  refine ⟨i, hi, ha, ?_⟩
  unfold Isa.State.effect
  rw [show (isa prog mem k).instr prog = some i from hi]

theorem pc_aligned (hr : Isa.Runs prog mem) (k : ℕ) : (isa prog mem (k + 1)).pc.extractLsb' 0 2 = 0#2 := by
  obtain ⟨i, -, ha, he⟩ := instr hr k
  have hpc : (isa prog mem (k + 1)).pc = (i.effect (isa prog mem k)).nextPc := by
    rw [← he]
    rfl
  apply BitVec.eq_of_toNat_eq
  simp [hpc, ha.1]

theorem idEx_base (hr : Isa.Runs prog mem) (hf : Front prog mem b (entered b j)) (hv : b.core.idEx.valid = true) :
    b.core.idEx.ctrl.Base := by
  obtain ⟨i, hi, -, -⟩ := instr hr (entered b j)
  obtain ⟨r1, r2, h⟩ := hf.idEx hv
  rw [h]
  exact Isa.base_of_decode hi

theorem nextPc_eq (hr : Isa.Runs prog mem) (hb : Back prog mem b j) (hf : Front prog mem b (entered b j))
    (hl : Latched prog mem b (entered b j)) (hv : b.core.idEx.valid = true) (hu : b.core.loadUseEx = false) :
    b.core.idEx.nextPc b.core.rs1Forwarded b.core.rs2Forwarded = (isa prog mem (entered b j + 1)).pc := by
  have ho := operands hb hf hl hv hu
  obtain ⟨i, hi, -, he⟩ := instr hr (entered b j)
  obtain ⟨r1, r2, h⟩ := hf.idEx hv
  rw [h] at ho ⊢
  rw [Isa.nextPc_of_decode hi ho, ← he]
  rfl

/-- a taken branch goes where the interpreter goes -/
theorem branchTarget_eq (hr : Isa.Runs prog mem) (hb : Back prog mem b j) (hf : Front prog mem b (entered b j))
    (hl : Latched prog mem b (entered b j)) (h : b.core.branchFlush = true) :
    b.core.idEx.valid = true ∧ b.core.branchTarget = (isa prog mem (entered b j + 1)).pc := by
  simp only [branchFlush, Bool.and_eq_true, Bool.not_eq_true'] at h
  have hv : b.core.idEx.valid = true := by
    by_contra hc
    simp [branchTaken, BranchUnit.taken, hc] at h
  refine ⟨hv, ?_⟩
  rw [← nextPc_eq hr hb hf hl hv h.2, IdEx.nextPc, if_pos (show b.core.idEx.taken _ _ = true from h.1)]
  rfl

/-- a branch that is not taken goes on to the next word -/
theorem nextPc_of_not_taken (hr : Isa.Runs prog mem) (hb : Back prog mem b j) (hf : Front prog mem b (entered b j))
    (hl : Latched prog mem b (entered b j)) (hv : b.core.idEx.valid = true) (hu : b.core.loadUseEx = false)
    (h : b.core.branchFlush = false) : (isa prog mem (entered b j + 1)).pc = (isa prog mem (entered b j)).pc + 4 := by
  have ht : b.core.branchTaken = false := by simpa [branchFlush, hu] using h
  rw [← nextPc_eq hr hb hf hl hv hu, IdEx.nextPc, if_neg]
  · obtain ⟨r1, r2, h⟩ := hf.idEx hv
    rw [h]
    rfl
  · rw [show b.core.idEx.taken _ _ = b.core.branchTaken from rfl, ht]
    decide

end Operands

/-! ## Control signals -/

/-- the conditions of one cycle: no operand is forwarded from WB for the last time while its instruction waits for a
load, and no target computed from an operand that is still to be loaded is misaligned -/
structure Sound (s : Rv32imCore) (i : CoreIn) : Prop where
  keeps : s.loadUse = true → s.memStall i = false → s.idEx.valid = true →
    (s.idEx.ctrl.usesRs1 = true → s.wbWrites s.idEx.rs1Addr → ¬ s.memWrites s.idEx.rs1Addr →
      s.idEx.rs1Data = s.memWb.rdData) ∧
    (s.idEx.ctrl.usesRs2 = true → s.wbWrites s.idEx.rs2Addr → ¬ s.memWrites s.idEx.rs2Addr →
      s.idEx.rs2Data = s.memWb.rdData)
  target : s.loadUseEx = true → s.instrMisalign = false

/-- there is no trap and no syscall in this cycle -/
structure Calm (s : Rv32imCore) (i : CoreIn) : Prop where
  idle : s.Idle
  trap : s.trap i = .nothing
  ecall : s.ecallDetected = false

section Controls

variable {prog : Program} {mem : DataMem} {b : Board} {j : ℕ}

/-- **No trap.** -/
theorem calm (hr : Isa.Runs prog mem) (hb : Back prog mem b j) (hf : Front prog mem b (entered b j))
    (hl : Latched prog mem b (entered b j)) (i : CoreIn)
    (ht : b.core.loadUseEx = true → b.core.instrMisalign = false) : Calm b.core i := by
  have hbase : b.core.idEx.valid = true → b.core.idEx.ctrl.Base := idEx_base hr hf
  have hmis : b.core.instrMisalign = false := by
    cases hu : b.core.loadUseEx with
    | true => exact ht hu
    | false =>
      by_contra hc
      simp only [instrMisalign, Bool.not_eq_false, Bool.and_eq_true, bne_iff_ne] at hc
      have hbf : b.core.branchFlush = true := by simp [branchFlush, hc.1, hu]
      rw [(branchTarget_eq hr hb hf hl hbf).2] at hc
      exact hc.2 (pc_aligned hr _)
  have hmem : b.core.loadMisalign = false ∧ b.core.storeMisalign = false := by
    cases hv : b.core.exMem.valid with
    | false => simp [loadMisalign, storeMisalign, hv]
    | true =>
      have ha := (hb.carries hv).aligned
      refine ⟨?_, ?_⟩
      · cases hm : b.core.exMem.memRead with
        | false => simp [loadMisalign, hm]
        | true => simp [loadMisalign, misaligned, ha (by simp [hm])]
      · cases hm : b.core.exMem.memWrite with
        | false => simp [storeMisalign, hm]
        | true => simp [storeMisalign, misaligned, ha (by simp [hm])]
  refine ⟨hb.idle, ?_, ?_⟩
  · have hirq : (b.core.excIn i).irqCause = none := by simp [ExcIn.irqCause, excIn, hb.idle.mie]
    unfold trap ExcIn.trap
    rw [hirq]
    cases hv : b.core.idEx.valid with
    | false => simp [ExcIn.anyException, excIn, hv, hmem.1, hmem.2, hmis]
    | true =>
      have hb := hbase hv
      simp [ExcIn.anyException, excIn, hb.illegal, hb.ebreak, hb.mret, hmem.1, hmem.2, hmis]
  · cases hv : b.core.idEx.valid with
    | false => simp [ecallDetected, hv]
    | true => simp [ecallDetected, (hbase hv).ecall]

variable {s : Rv32imCore} {i : CoreIn}

theorem Calm.flushAll (h : Calm s i) : s.flushAll i = false := by
  rw [Rv32imCore.flushAll, h.trap]
  rfl

theorem Calm.stallMem (h : Calm s i) : s.stallMem i = s.memStall i := by
  simp [Rv32imCore.stallMem, ctxActive, syscallActive, h.idle.ctx, h.idle.sys, h.idle.halt]

theorem Calm.stallEx (h : Calm s i) : s.stallEx i = s.memStall i := by
  rw [Rv32imCore.stallEx, h.stallMem, mextBusy_of_not_calculating (by simp [MulDiv.calculating, h.idle.muldiv]),
    Bool.or_false]

theorem Calm.stallId (h : Calm s i) : s.stallId i = (s.loadUse || s.memStall i) := by
  rw [Rv32imCore.stallId, h.stallEx]

theorem Calm.flushEx (h : Calm s i) : s.flushEx i = s.loadUse := by
  simp [Rv32imCore.flushEx, h.flushAll, h.ecall, h.idle.ctx]

theorem Calm.flushMem (h : Calm s i) : s.flushMem i = false := by
  simp [Rv32imCore.flushMem, h.flushAll, h.idle.ctx]

theorem Calm.redirect (h : Calm s i) : s.redirect i = if s.branchFlush then some s.branchTarget else none := by
  simp [Rv32imCore.redirect, h.flushAll, h.ecall]

theorem Calm.ifIdNext (h : Calm s i) : s.ifIdNext i = if s.branchFlush then .bubble
    else if s.loadUse || s.memStall i then s.ifId else ⟨s.pcDelayed, i.imemRdata, !s.suppressValid⟩ := by
  simp [Rv32imCore.ifIdNext, Rv32imCore.flushIf, h.flushAll, h.ecall, h.idle.ctx, h.stallId]

theorem Calm.readPort (h : Calm s i) (x : RegAddr) : s.readPort i x = s.visible x := by
  have hw : s.writePort i = if s.memWb.writes then some (s.memWb.rdAddr, s.memWb.rdData) else none := by
    simp [Rv32imCore.writePort, h.idle.ctx, h.idle.sys]
  unfold Rv32imCore.readPort visible
  rw [hw]
  cases s.memWb.writes <;> simp

theorem Calm.idExNext (h : Calm s i) : s.idExNext i = if s.branchFlush && !s.memStall i then .bubble
    else if s.loadUse || s.memStall i then s.idEx
    else Decode.idEx s.ifId (s.visible (Decode.rs1 s.ifId.instruction))
      (s.visible (Decode.rs2 s.ifId.instruction)) := by
  have h1 : s.rfRs1Addr i = Decode.rs1 s.ifId.instruction := by simp [rfRs1Addr, h.idle.ctx, h.idle.halt]
  have h2 : s.rfRs2Addr = Decode.rs2 s.ifId.instruction := by simp [rfRs2Addr, h.idle.sys]
  rw [Rv32imCore.idExNext, h.readPort, h.readPort, h1, h2, h.stallId]
  simp [Rv32imCore.flushId, h.flushAll, h.ecall, h.idle.ctx, h.stallEx]

theorem Calm.exMemNext (h : Calm s i) : s.exMemNext i = if s.memStall i then s.exMem
    else if s.loadUse then .bubble else s.executed i := by
  rw [Rv32imCore.exMemNext, h.stallEx, h.flushEx]

theorem Calm.memWbNext (h : Calm s i) : s.memWbNext i = if s.memStall i then s.memWb else s.memDone i := by
  rw [Rv32imCore.memWbNext, h.flushMem, h.stallMem]
  rfl

theorem Calm.pcNext (h : Calm s i) : s.pcNext i = if s.branchFlush then s.branchTarget
    else if s.loadUse || s.memStall i then s.pc else s.pc + 4 := by
  rw [Rv32imCore.pcNext, h.redirect, h.stallId]
  cases s.branchFlush <;> rfl

theorem Calm.suppressNext (h : Calm s i) :
    s.suppressNext i = (s.branchFlush || (s.suppressValid && (s.loadUse || s.memStall i))) := by
  rw [Rv32imCore.suppressNext, h.redirect, h.stallId]
  cases s.branchFlush <;> rfl

/-- EX/MEM behind a valid instruction of the base ISA -/
theorem Calm.executed (h : Calm s i) (hs : s.memStall i = false) (hv : s.idEx.valid = true) (hb : s.idEx.ctrl.Base) :
    s.executed i = s.idEx.executed s.rs1Forwarded s.rs2Forwarded := by
  have hx : s.exeResult i = s.idEx.result s.rs1Forwarded s.rs2Forwarded := by
    unfold exeResult IdEx.result
    cases hm : s.idEx.ctrl.mextEn with
    | false => rfl
    | true => simp [MulDiv.result, mextStart, mextInEx, hm, hv, h.stallEx, hs, hb.mext hm]
  rw [Rv32imCore.executed, hx]
  rfl

end Controls

/-! ## One cycle -/

section Step

variable {prog : Program} {mem : DataMem} {b : Board} {i : BoardIn} {j : ℕ}

theorem retires_eq (hc : Calm b.core (b.coreIn i)) :
    b.retires i = (!b.core.memStall (b.coreIn i) && b.core.exMem.valid) := by
  simp [Board.retires, hc.stallEx, hc.flushMem]

theorem issues_eq (hc : Calm b.core (b.coreIn i)) :
    b.issues i = (!b.core.memStall (b.coreIn i) && !b.core.loadUse && b.core.idEx.valid) := by
  simp [Board.issues, hc.stallEx, hc.flushEx]

/-- how many instructions are retired after the cycle -/
def after (b : Board) (i : BoardIn) (j : ℕ) : ℕ := if b.retires i then j + 1 else j

theorem after_of_stall (hc : Calm b.core (b.coreIn i)) (hs : b.core.memStall (b.coreIn i) = true) :
    after b i j = j := by
  simp [after, retires_eq hc, hs]

theorem after_of_moves (hc : Calm b.core (b.coreIn i)) (hs : b.core.memStall (b.coreIn i) = false) :
    after b i j = entered b j := by
  simp [after, retires_eq hc, hs, entered]

theorem step_exMem (hc : Calm b.core (b.coreIn i)) : (b.step prog i).core.exMem =
    if b.core.memStall (b.coreIn i) then b.core.exMem
    else if b.core.loadUse then .bubble else b.core.executed (b.coreIn i) := hc.exMemNext

theorem step_memWb (hc : Calm b.core (b.coreIn i)) : (b.step prog i).core.memWb =
    if b.core.memStall (b.coreIn i) then b.core.memWb else b.core.memDone (b.coreIn i) := hc.memWbNext

theorem step_idle (hc : Calm b.core (b.coreIn i)) (hbase : b.core.idEx.valid = true → b.core.idEx.ctrl.Base) :
    (b.step prog i).core.Idle where
  sys := by
    change b.core.sysNext (b.coreIn i) = .idle
    simp [sysNext, hc.idle.sys, hc.ecall]
  ctx := by
    change b.core.ctxNext (b.coreIn i) = .idle
    simp [ctxNext, hc.idle.ctx, Board.coreIn]
  halt := rfl
  muldiv := by
    change (b.core.muldiv.step (b.core.mextStart (b.coreIn i)) _ _ _).state = .idle
    unfold MulDiv.step
    rw [hc.idle.muldiv]
    cases hm : b.core.mextStart (b.coreIn i) with
    | false => simpa using hc.idle.muldiv
    | true =>
      simp only [mextStart, mextInEx, Bool.and_eq_true] at hm
      simp [(hbase hm.1.2).mext hm.1.1, hc.idle.muldiv]
  mie := by
    have h : (b.step prog i).core.csr =
        b.core.csr.step b.core.csrAccess (b.core.trap (b.coreIn i)) b.core.memWb.valid i.irq := rfl
    have hen : b.core.csrAccess.en = false := by
      cases hv : b.core.idEx.valid with
      | false => simp [csrAccess, hv]
      | true => simp [csrAccess, (hbase hv).csr]
    rw [h, hc.trap]
    simp [CsrUnit.step, hen, CsrUnit.tick, hc.idle.mie]

/-! ### The bus -/

/-- an access that does not stall has its answer -/
theorem answered (hb : Back prog mem b j) (hs : b.core.memStall (b.coreIn i) = false)
    (ha : b.core.memOpActive = true) : b.core.memReqSent = true ∧ b.bus.busy = true ∧ i.answer = true := by
  simp only [memStall, ha, Bool.true_and, Bool.not_eq_false', Bool.and_eq_true] at hs
  exact ⟨hs.1, by simpa [hb.busy] using hs.1, by simpa [Board.coreIn, DataBus.done, hb.busy, hs.1] using hs.2⟩

theorem not_busy (hb : Back prog mem b j) (ha : b.core.memOpActive = false) :
    b.core.memReqSent = false ∧ b.bus.busy = false := by
  have h : b.core.memReqSent = false := by
    by_contra hc
    simp [hb.sent (by simpa using hc)] at ha
  exact ⟨h, by rw [hb.busy, h]⟩

theorem access_eq_none (hb : Back prog mem b j) (hv : b.core.exMem.valid = true) (ha : b.core.memOpActive = false) :
    ((isa prog mem j).effect prog).access = none := by
  simp only [memOpActive, hv, Bool.and_true, Bool.or_eq_false_iff] at ha
  rw [← (hb.carries hv).access]
  simp [ExMem.access, ha.1, ha.2]

/-- the bus takes an access in its first cycle in MEM -/
theorem accepts_eq (hb : Back prog mem b j) (hc : Calm b.core (b.coreIn i)) :
    b.bus.accepts (b.cmd i) = (b.core.memOpActive && !b.core.memReqSent) := by
  simp only [DataBus.accepts, Board.cmd, memRead, memWrite, hc.flushMem, hb.busy, memOpActive]
  cases b.core.memReqSent <;> cases b.core.exMem.memRead <;> cases b.core.exMem.memWrite <;>
    cases b.core.exMem.valid <;> rfl

theorem step_bus_of_moves (prog : Program) (hb : Back prog mem b j) (hc : Calm b.core (b.coreIn i))
    (hs : b.core.memStall (b.coreIn i) = false) :
    (b.step prog i).core.memReqSent = false ∧ (b.step prog i).bus.busy = false ∧
      (b.step prog i).bus.mem = b.bus.mem := by
  have hsent : (b.step prog i).core.memReqSent = b.core.memReqSentNext (b.coreIn i) := rfl
  have hbus : (b.step prog i).bus = b.bus.step (b.cmd i) i.answer := rfl
  rw [hsent, hbus, memReqSentNext]
  cases ha : b.core.memOpActive with
  | true =>
    obtain ⟨h1, h2, h3⟩ := answered hb hs ha
    simp [h1, DataBus.step, h2, h3, Board.coreIn, DataBus.done]
  | false =>
    obtain ⟨h1, h2⟩ := not_busy hb ha
    have hacc := accepts_eq hb hc
    simp only [DataBus.accepts, h2, ha, Bool.false_and, Bool.not_false, Bool.true_and, Bool.or_eq_false_iff] at hacc
    simp [h1, DataBus.step, h2, hacc.1, hacc.2]

theorem step_bus_of_stall (prog : Program) (hb : Back prog mem b j) (hc : Calm b.core (b.coreIn i))
    (hs : b.core.memStall (b.coreIn i) = true) :
    (b.step prog i).core.memReqSent = true ∧ (b.step prog i).bus.busy = true := by
  have hsent : (b.step prog i).core.memReqSent = b.core.memReqSentNext (b.coreIn i) := rfl
  have hbus : (b.step prog i).bus = b.bus.step (b.cmd i) i.answer := rfl
  simp only [memStall, Bool.and_eq_true, Bool.not_eq_true'] at hs
  rw [hsent, hbus, memReqSentNext]
  cases h1 : b.core.memReqSent with
  | true =>
    have h2 : b.bus.busy = true := by rw [hb.busy, h1]
    have h3 : i.answer = false := by simpa [h1, Board.coreIn, DataBus.done, h2] using hs.2
    simp [DataBus.step, h2, h3, Board.coreIn, DataBus.done]
  | false =>
    have h2 : b.bus.busy = false := by rw [hb.busy, h1]
    have hacc := accepts_eq hb hc
    simp only [DataBus.accepts, h2, hs.1, h1, Bool.not_false, Bool.true_and, Bool.or_eq_true] at hacc
    refine ⟨by simp [hs.1], ?_⟩
    cases hr : (b.cmd i).read with
    | true => simp [DataBus.step, h2, hr]
    | false => simp [DataBus.step, h2, hr, by simpa [hr] using hacc]

/-- **The bus takes the access of the interpreter.** -/
theorem taken (hb : Back prog mem b j) (hc : Calm b.core (b.coreIn i)) (ha : b.core.memOpActive = true)
    (hn : b.core.memReqSent = false) :
    b.accessEvents i = Isa.accessEvents ((isa prog mem j).effect prog) (isa prog mem j).mem ∧
      (b.step prog i).bus.mem = (isa prog mem (j + 1)).mem ∧
      (b.core.exMem.memRead = true →
        (b.step prog i).bus.rdata = (isa prog mem j).mem (wordAddr b.core.exMem.aluResult)) := by
  have hbus : (b.step prog i).bus = b.bus.step (b.cmd i) i.answer := rfl
  have hv : b.core.exMem.valid = true := by
    simp only [memOpActive, Bool.and_eq_true] at ha
    exact ha.2
  have hbusy : b.bus.busy = false := by rw [hb.busy, hn]
  have hmem : b.bus.mem = (isa prog mem j).mem := by simpa [hbusy] using hb.stored
  have hacc : b.bus.accepts (b.cmd i) = true := by simp [accepts_eq hb hc, ha, hn]
  have he := (hb.carries hv).access
  have haddr : (b.cmd i).addr = b.core.exMem.aluResult := rfl
  have hnext : (isa prog mem (j + 1)).mem = ((isa prog mem j).apply ((isa prog mem j).effect prog)).mem := rfl
  rw [hbus, Board.accessEvents, hacc, if_pos rfl, hnext, Isa.State.apply, Isa.accessEvents]
  dsimp only
  rw [← he, hmem.symm]
  cases hr : b.core.exMem.memRead with
  | true =>
    have hread : (b.cmd i).read = true := by simp [Board.cmd, memRead, hv, hr]
    simp [ExMem.access, hr, hread, haddr, Isa.Access.event, DataBus.step, hbusy]
  | false =>
    have hread : (b.cmd i).read = false := by simp [Board.cmd, memRead, hr]
    have hw : b.core.exMem.memWrite = true := by simpa [memOpActive, hr, hv] using ha
    have hwrite : (b.cmd i).write = true := by simp [Board.cmd, memWrite, hw, hv, hc.flushMem]
    have hdata : (b.cmd i).wdata =
        MemoryStage.storeData b.core.exMem.memFunct3 b.core.exMem.aluResult b.core.exMem.rs2Data := by
      simp [Board.cmd, memWdata, hw, hv]
    have hbe : (b.cmd i).strobe = MemoryStage.byteEnable b.core.exMem.memFunct3 b.core.exMem.aluResult := by
      simp [Board.cmd, memBe, hw, hv]
    simp [ExMem.access, hr, hw, hread, hwrite, hdata, hbe, haddr, Isa.Access.event, DataBus.step, hbusy]

/-! ### EX/MEM, MEM/WB and the register file -/

theorem step_regs (prog : Program) (hc : Calm b.core (b.coreIn i)) {x : RegAddr} (hx : x ≠ 0#5) :
    (b.step prog i).core.regs x = b.core.visible x := by
  have hw : b.core.writePort (b.coreIn i) =
      if b.core.memWb.writes then some (b.core.memWb.rdAddr, b.core.memWb.rdData) else none := by
    simp [writePort, hc.idle.ctx, hc.idle.sys]
  change b.core.regsNext (b.coreIn i) x = _
  rw [regsNext, hw, visible]
  cases hwr : b.core.memWb.writes with
  | false => simp [hx]
  | true =>
    by_cases hrd : b.core.memWb.rdAddr = 0#5
    · simp [hrd, hx, Ne.symm hx]
    · by_cases hrx : b.core.memWb.rdAddr = x
      · subst hrx
        simp [hrd]
      · simp [hrd, hx, hrx, Ne.symm hrx]

theorem visible_of_stall (hc : Calm b.core (b.coreIn i)) (hs : b.core.memStall (b.coreIn i) = true) (x : RegAddr) :
    (b.step prog i).core.visible x = b.core.visible x := by
  by_cases hx : x = 0#5
  · simp [visible, hx]
  · have hr := step_regs prog hc hx
    unfold visible at hr ⊢
    rw [step_memWb hc, if_pos hs, hr]
    split_ifs <;> rfl

/-- what MEM/WB takes from a valid EX/MEM -/
theorem memDone_eq (hb : Back prog mem b j) (hs : b.core.memStall (b.coreIn i) = false)
    (hv : b.core.exMem.valid = true) (hw : b.core.exMem.regWrite = true) :
    (b.core.memDone (b.coreIn i)).writes = true ∧
      ((isa prog mem j).effect prog).write =
        some (b.core.exMem.rdAddr, (b.core.memDone (b.coreIn i)).rdData) := by
  have hc := hb.carries hv
  refine ⟨by simp [MemWb.writes, memDone, hw, hv], ?_⟩
  rw [← hc.write, ExMem.write, if_pos hw]
  have hdone : (b.core.memDone (b.coreIn i)).rdData = (b.core.exMem.toWb b.bus.rdata).rdData := rfl
  rw [hdone]
  rcases hc.source with h | ⟨h, hr⟩ | h
  · simp [ExMem.toWb, MemWb.rdData, h]
  · have ha : b.core.memOpActive = true := by simp [memOpActive, hr, hv]
    rw [hb.rdata (answered hb hs ha).2.1 hr]
  · simp [ExMem.toWb, MemWb.rdData, h]

theorem visible_of_moves (hb : Back prog mem b j) (hc : Calm b.core (b.coreIn i))
    (hs : b.core.memStall (b.coreIn i) = false) (x : RegAddr) :
    (b.step prog i).core.visible x = (isa prog mem (entered b j)).reg x := by
  by_cases hx : x = 0#5
  · simp [visible, hx, Isa.State.reg]
  have hr := step_regs prog hc hx
  have hwb : (b.step prog i).core.memWb = b.core.memDone (b.coreIn i) := by rw [step_memWb hc, hs]; rfl
  have hrd : (b.core.memDone (b.coreIn i)).rdAddr = b.core.exMem.rdAddr := rfl
  unfold visible
  rw [hwb, hr, hrd, if_neg (show ¬ x = 0 from hx)]
  by_cases hm : b.core.memWrites x
  · obtain ⟨hw, hxr, -⟩ := hm
    have hv : b.core.exMem.valid = true := by
      by_contra hcon
      simp [(hb.bubble (by simpa using hcon)).2.2] at hw
    obtain ⟨h1, h2⟩ := memDone_eq hb hs hv hw
    subst hxr
    rw [entered, hv, if_pos (by simp [h1])]
    exact (reg_next_of_write h2 hx).symm
  · have hno : ((b.core.memDone (b.coreIn i)).writes && b.core.exMem.rdAddr == x) = false := by
      by_contra hcon
      simp only [Bool.not_eq_false, Bool.and_eq_true, beq_iff_eq, MemWb.writes, memDone] at hcon
      exact hm ⟨hcon.1.1.1, hcon.2, hx⟩
    rw [reg_entered hb hm, hno, if_neg (by decide)]
    exact hb.regs x

theorem step_back_of_stall (hb : Back prog mem b j) (hc : Calm b.core (b.coreIn i))
    (hbase : b.core.idEx.valid = true → b.core.idEx.ctrl.Base) (hs : b.core.memStall (b.coreIn i) = true) :
    Back prog mem (b.step prog i) j := by
  obtain ⟨h1, h2⟩ := step_bus_of_stall prog hb hc hs
  have hx : (b.step prog i).core.exMem = b.core.exMem := by rw [step_exMem hc, if_pos hs]
  have hw : (b.step prog i).core.memWb = b.core.memWb := by rw [step_memWb hc, if_pos hs]
  have ha : b.core.memOpActive = true := by
    simp only [memStall, Bool.and_eq_true] at hs
    exact hs.1
  have hbus : (b.step prog i).bus = b.bus.step (b.cmd i) i.answer := rfl
  have hmem : (b.step prog i).bus.mem = (isa prog mem (j + 1)).mem ∧ (b.core.exMem.memRead = true →
      (b.step prog i).bus.rdata = (isa prog mem j).mem (wordAddr b.core.exMem.aluResult)) := by
    cases hn : b.core.memReqSent with
    | false => exact (taken hb hc ha hn).2
    | true =>
      have hbusy : b.bus.busy = true := by rw [hb.busy, hn]
      have hans : i.answer = false := by
        simp only [memStall, ha, hn, Board.coreIn, DataBus.done, hbusy, Bool.true_and, Bool.not_eq_true'] at hs
        exact hs
      have hst := hb.stored
      rw [hbusy, if_pos rfl] at hst
      rw [hbus]
      simp only [DataBus.step, hbusy, hans, if_true, Bool.false_eq_true, if_false]
      exact ⟨hst, hb.rdata hbusy⟩
  exact {
    idle := step_idle hc hbase
    carries := by rw [hx]; exact hb.carries
    bubble := by rw [hx]; exact hb.bubble
    wb := by rw [hw]; exact hb.wb
    regs := fun x => by rw [visible_of_stall hc hs, hb.regs]
    busy := by rw [h1, h2]
    sent := fun _ => by unfold memOpActive at ha ⊢; rw [hx]; exact ha
    stored := by rw [h2]; exact hmem.1
    rdata := fun _ => by rw [hx]; exact hmem.2 }

theorem step_back_of_moves (hr : Isa.Runs prog mem) (hb : Back prog mem b j) (hf : Front prog mem b (entered b j))
    (hl : Latched prog mem b (entered b j)) (hc : Calm b.core (b.coreIn i))
    (hs : b.core.memStall (b.coreIn i) = false) : Back prog mem (b.step prog i) (entered b j) := by
  obtain ⟨h1, h2, h3⟩ := step_bus_of_moves prog hb hc hs
  have hx : (b.step prog i).core.exMem = if b.core.loadUse then .bubble else b.core.executed (b.coreIn i) := by
    rw [step_exMem hc, hs]; rfl
  have hw : (b.step prog i).core.memWb = b.core.memDone (b.coreIn i) := by rw [step_memWb hc, hs]; rfl
  have hstored : b.bus.mem = (isa prog mem (entered b j)).mem := by
    unfold entered
    cases hv : b.core.exMem.valid with
    | false =>
      simpa [(not_busy hb (show b.core.memOpActive = false by simp [memOpActive, hv])).2] using hb.stored
    | true =>
      cases ha : b.core.memOpActive with
      | true => simpa [(answered hb hs ha).2.1] using hb.stored
      | false =>
        -- without an access the memory of the interpreter stays
        have hst := hb.stored
        rw [(not_busy hb ha).2, if_neg (by decide)] at hst
        rw [hst, if_pos rfl, isa_succ, Isa.State.next, Isa.State.apply, access_eq_none hb hv ha]
  exact {
    idle := step_idle hc (idEx_base hr hf)
    carries := by
      rw [hx]
      cases hu : b.core.loadUse with
      | true => intro h; cases h
      | false =>
        intro hv
        have hvalid : b.core.idEx.valid = true := hv
        have huse : b.core.loadUseEx = false := by
          simp only [loadUse, Bool.or_eq_false_iff] at hu
          exact hu.2
        have ho := operands hb hf hl hvalid huse
        obtain ⟨k, hk, hal, he⟩ := instr hr (entered b j)
        rw [hc.executed hs hvalid (idEx_base hr hf hvalid), he]
        obtain ⟨r1, r2, hd⟩ := hf.idEx hvalid
        rw [hd] at ho ⊢
        exact Isa.carries_of_decode hk hal ho
    bubble := by
      rw [hx]
      cases hu : b.core.loadUse with
      | true => exact fun _ => ⟨rfl, rfl, rfl⟩
      | false =>
        intro hv
        have hvalid : b.core.idEx.valid = false := hv
        simp [Rv32imCore.executed, hvalid]
    wb := by
      rw [hw]
      intro h
      simp only [memDone, Bool.and_eq_true] at h
      exact h.2
    regs := visible_of_moves hb hc hs
    busy := by rw [h1, h2]
    sent := fun h => by rw [h1] at h; cases h
    stored := by rw [h2, h3, hstored]; rfl
    rdata := fun h => by rw [h2] at h; cases h }

/-! ### The front -/

theorem step_front_regs (prog : Program) (hc : Calm b.core (b.coreIn i)) :
    (b.step prog i).core.pc = (if b.core.branchFlush then b.core.branchTarget
      else if b.core.loadUse || b.core.memStall (b.coreIn i) then b.core.pc else b.core.pc + 4) ∧
    (b.step prog i).core.suppressValid =
      (b.core.branchFlush || (b.core.suppressValid && (b.core.loadUse || b.core.memStall (b.coreIn i)))) ∧
    (b.step prog i).core.pcDelayed =
      (if b.core.loadUse || b.core.memStall (b.coreIn i) then b.core.pcDelayed else b.core.pc) ∧
    (b.step prog i).core.ifId = (if b.core.branchFlush then .bubble
      else if b.core.loadUse || b.core.memStall (b.coreIn i) then b.core.ifId
      else ⟨b.core.pcDelayed, b.imemQ, !b.core.suppressValid⟩) ∧
    (b.step prog i).imemQ =
      (if b.core.loadUse || b.core.memStall (b.coreIn i) then b.imemQ else prog.fetch b.core.pc) := by
  refine ⟨hc.pcNext, hc.suppressNext, ?_, hc.ifIdNext, ?_⟩
  · rw [← hc.stallId]
    rfl
  · rw [← hc.stallId]
    change (if b.core.imemEn (b.coreIn i) then prog.fetch b.core.pc else b.imemQ) = _
    unfold imemEn
    cases b.core.stallId (b.coreIn i) <;> rfl

theorem follows_of_branch (prog : Program) (hc : Calm b.core (b.coreIn i)) (h : b.core.branchFlush = true) :
    Follows prog (b.step prog i) b.core.branchTarget := by
  obtain ⟨h1, h2, -, h4, -⟩ := step_front_regs prog hc
  unfold Follows Fetching
  rw [h4, h2, h1]
  simp [h, IfId.bubble]

theorem follows_of_hold (hc : Calm b.core (b.coreIn i)) (h : b.core.branchFlush = false)
    (hs : (b.core.loadUse || b.core.memStall (b.coreIn i)) = true) {p : Word} (hp : Follows prog b p) :
    Follows prog (b.step prog i) p := by
  obtain ⟨h1, h2, h3, h4, h5⟩ := step_front_regs prog hc
  unfold Follows Fetching at hp ⊢
  rw [h4, h2, h1, h3, h5]
  simpa [h, hs] using hp

theorem follows_of_fetching (hc : Calm b.core (b.coreIn i)) (h : b.core.branchFlush = false)
    (hs : (b.core.loadUse || b.core.memStall (b.coreIn i)) = false) {p : Word} (hp : Fetching prog b p) :
    Follows prog (b.step prog i) p := by
  obtain ⟨h1, h2, h3, h4, h5⟩ := step_front_regs prog hc
  unfold Fetching at hp
  unfold Follows Fetching
  rw [h4, h2, h1, h3, h5]
  cases hv : b.core.suppressValid with
  | true =>
    have hpc : b.core.pc = p := by simpa [hv] using hp
    simp [h, hs, hpc]
  | false =>
    obtain ⟨hd, hq, hpc⟩ := by simpa [hv] using hp
    simp [h, hs, hd, hq, hpc]

/-- the jumps that wait behind a load have emptied IF/ID -/
theorem step_emptied (hc : Calm b.core (b.coreIn i)) (hb : Back prog mem b j)
    (h1 : (b.step prog i).core.memReqSent = true) (h2 : (b.step prog i).core.branchFlush = true) :
    (b.step prog i).core.ifId = .bubble := by
  cases hs : b.core.memStall (b.coreIn i) with
  | false =>
    rw [(step_bus_of_moves prog hb hc hs).1] at h1
    cases h1
  | true =>
    have hx : (b.step prog i).core.exMem = b.core.exMem := by rw [step_exMem hc, if_pos hs]
    have hw : (b.step prog i).core.memWb = b.core.memWb := by rw [step_memWb hc, if_pos hs]
    have hd : (b.step prog i).core.idEx = b.core.idEx := by
      change b.core.idExNext (b.coreIn i) = _
      simp [hc.idExNext, hs]
    have hbf : b.core.branchFlush = true := by
      simpa only [branchFlush, branchTaken, rs1Forwarded, rs2Forwarded, forwarded, loadUseEx, hx, hw, hd] using h2
    rw [(step_front_regs prog hc).2.2.2.1, if_pos hbf]

/-- a branch is not flushed away while it waits for a load to leave -/
theorem not_branchFlush_of_loadUse (hb : Back prog mem b j) (hf : Front prog mem b (entered b j))
    (hs : b.core.memStall (b.coreIn i) = false) (hu : b.core.loadUse = true) :
    b.core.branchFlush = false ∧ b.core.exMem.valid = true ∧ b.core.exMem.memRead = true := by
  have hr : b.core.exMem.memRead = true := by
    by_contra hc
    simp [loadUse, loadUseId, loadUseEx, Hazard.loadUse, Hazard.loads, hc] at hu
  have hv : b.core.exMem.valid = true := by
    by_contra hc
    simp [(hb.bubble (by simpa using hc)).1] at hr
  refine ⟨?_, hv, hr⟩
  by_contra hbf
  have hbf : b.core.branchFlush = true := by simpa using hbf
  have hsent := (answered hb hs (by simp [memOpActive, hr, hv])).1
  have hid := hf.emptied hr hsent hbf
  have hex : b.core.loadUseEx = false := by
    simp only [branchFlush, Bool.and_eq_true, Bool.not_eq_true'] at hbf
    exact hbf.2
  have hno : b.core.loadUseId = false := by
    have h1 : Decode.rs1 IfId.bubble.instruction = 0#5 := by decide
    have h2 : Decode.rs2 IfId.bubble.instruction = 0#5 := by decide
    simp only [loadUseId, hid, h1, h2, Hazard.loadUse, Hazard.loads]
    cases hz : b.core.exMem.rdAddr == 0#5 <;> simp_all
  simp [loadUse, hex, hno] at hu

theorem step_front_of_stall (hr : Isa.Runs prog mem) (hb : Back prog mem b j) (hf : Front prog mem b (entered b j))
    (hl : Latched prog mem b (entered b j)) (hc : Calm b.core (b.coreIn i))
    (hs : b.core.memStall (b.coreIn i) = true) : Front prog mem (b.step prog i) (entered b j) := by
  have hx : (b.step prog i).core.exMem = b.core.exMem := by rw [step_exMem hc, if_pos hs]
  have hd : (b.step prog i).core.idEx = b.core.idEx := by
    change b.core.idExNext (b.coreIn i) = _
    simp [hc.idExNext, hs]
  have hhold : (b.core.loadUse || b.core.memStall (b.coreIn i)) = true := by simp [hs]
  refine ⟨?_, ?_, ?_, ?_, fun _ h1 h2 => step_emptied hc hb h1 h2⟩
  · rw [hd]
    exact hf.idEx
  · rw [hd, hx]
    exact hf.noLink
  · rw [hd]
    intro hv
    have hbf : b.core.branchFlush = false := by simp [branchFlush, branchTaken, BranchUnit.taken, hv]
    exact follows_of_hold hc hbf hhold (hf.next hv)
  · rw [hd]
    intro hv
    cases hbf : b.core.branchFlush with
    | true =>
      have ht := follows_of_branch prog hc hbf
      rw [(branchTarget_eq hr hb hf hl hbf).2] at ht
      exact .inr ht
    | false => exact (hf.target hv).imp (follows_of_hold hc hbf hhold) (follows_of_hold hc hbf hhold)

theorem step_front_of_loadUse (hb : Back prog mem b j) (hf : Front prog mem b (entered b j))
    (hc : Calm b.core (b.coreIn i)) (hs : b.core.memStall (b.coreIn i) = false) (hu : b.core.loadUse = true) :
    Front prog mem (b.step prog i) (entered b j) := by
  have hbf := (not_branchFlush_of_loadUse hb hf hs hu).1
  have hx : (b.step prog i).core.exMem = .bubble := by simp [step_exMem hc, hs, hu]
  have hd : (b.step prog i).core.idEx = b.core.idEx := by
    change b.core.idExNext (b.coreIn i) = _
    simp [hc.idExNext, hbf, hu]
  have hhold : (b.core.loadUse || b.core.memStall (b.coreIn i)) = true := by simp [hu]
  refine ⟨?_, ?_, ?_, ?_, fun _ h1 h2 => step_emptied hc hb h1 h2⟩
  · rw [hd]
    exact hf.idEx
  · rw [hx]
    intro _ h
    cases h
  · rw [hd]
    exact fun hv => follows_of_hold hc hbf hhold (hf.next hv)
  · rw [hd]
    exact fun hv => (hf.target hv).imp (follows_of_hold hc hbf hhold) (follows_of_hold hc hbf hhold)

/-- when everything moves on, `ID/EX` takes the next instruction, unless a branch is taken -/
theorem next_of_moves (hr : Isa.Runs prog mem) (hb : Back prog mem b j) (hf : Front prog mem b (entered b j))
    (hl : Latched prog mem b (entered b j)) (hu : b.core.loadUse = false) (hbf : b.core.branchFlush = false) :
    Follows prog b (isa prog mem (if b.core.idEx.valid then entered b j + 1 else entered b j)).pc := by
  cases hv : b.core.idEx.valid with
  | false => exact hf.next hv
  | true =>
    have huse : b.core.loadUseEx = false := by
      simp only [loadUse, Bool.or_eq_false_iff] at hu
      exact hu.2
    have hpc := nextPc_of_not_taken hr hb hf hl hv huse hbf
    rcases hf.target hv with h | h
    · rw [← hpc] at h
      exact h
    · exact h

theorem step_front_of_moves (hr : Isa.Runs prog mem) (hb : Back prog mem b j) (hf : Front prog mem b (entered b j))
    (hl : Latched prog mem b (entered b j)) (hc : Calm b.core (b.coreIn i))
    (hs : b.core.memStall (b.coreIn i) = false) (hu : b.core.loadUse = false) :
    Front prog mem (b.step prog i) (if b.core.idEx.valid then entered b j + 1 else entered b j) := by
  have hx : (b.step prog i).core.exMem = b.core.executed (b.coreIn i) := by simp [step_exMem hc, hs, hu]
  have hd : (b.step prog i).core.idEx = if b.core.branchFlush then .bubble else
      Decode.idEx b.core.ifId (b.core.visible (Decode.rs1 b.core.ifId.instruction))
        (b.core.visible (Decode.rs2 b.core.ifId.instruction)) := by
    change b.core.idExNext (b.coreIn i) = _
    simp [hc.idExNext, hs, hu]
  cases hbf : b.core.branchFlush with
  | true =>
    obtain ⟨hv, ht⟩ := branchTarget_eq hr hb hf hl hbf
    have hinv : (b.step prog i).core.idEx.valid = false := by rw [hd, if_pos hbf]; rfl
    have hfol := follows_of_branch prog hc hbf
    rw [ht] at hfol
    refine ⟨?_, ?_, fun _ => ?_, ?_, fun _ h1 h2 => step_emptied hc hb h1 h2⟩
    · rw [hinv]; nofun
    · rw [hinv]; nofun
    · rw [if_pos hv]
      exact hfol
    · rw [hinv]; nofun
  | false =>
    rw [hbf, if_neg (by decide)] at hd
    have hnext := next_of_moves hr hb hf hl hu hbf
    have hmove : (b.core.loadUse || b.core.memStall (b.coreIn i)) = false := by simp [hs, hu]
    have hvalid : (b.step prog i).core.idEx.valid = b.core.ifId.valid := by rw [hd]; rfl
    generalize (if b.core.idEx.valid then entered b j + 1 else entered b j) = k at hnext ⊢
    unfold Follows at hnext
    refine ⟨?_, ?_, ?_, ?_, fun _ h1 h2 => step_emptied hc hb h1 h2⟩
    · rw [hvalid]
      intro hv
      rw [if_pos hv] at hnext
      rw [hd, hnext.1]
      exact ⟨_, _, rfl⟩
    · -- a jump is taken
      rw [hx]
      intro _ hv hsel
      have hv : b.core.idEx.valid = true := hv
      obtain ⟨m, hm, -, -⟩ := instr hr (entered b j)
      obtain ⟨r1, r2, hdec⟩ := hf.idEx hv
      have hsel : b.core.idEx.ctrl.wbSel = 0b10#2 := hsel
      have ht : b.core.branchTaken = true := by
        change b.core.idEx.taken b.core.rs1Forwarded b.core.rs2Forwarded = true
        rw [hdec] at hsel ⊢
        exact Isa.taken_of_link hm hsel
      have huse : b.core.loadUseEx = false := by
        simp only [loadUse, Bool.or_eq_false_iff] at hu
        exact hu.2
      simp [branchFlush, ht, huse] at hbf
    · rw [hvalid]
      intro hv
      rw [hv, if_neg (by decide)] at hnext
      exact follows_of_fetching hc hbf hmove hnext
    · rw [hvalid]
      intro hv
      rw [if_pos hv] at hnext
      exact .inl (follows_of_fetching hc hbf hmove hnext.2)

/-! ### The operands in ID/EX -/

theorem step_latched_of_stall (hl : Latched prog mem b (entered b j)) (hc : Calm b.core (b.coreIn i))
    (hs : b.core.memStall (b.coreIn i) = true) : Latched prog mem (b.step prog i) (entered b j) := by
  have hx : (b.step prog i).core.exMem = b.core.exMem := by rw [step_exMem hc, if_pos hs]
  have hw : (b.step prog i).core.memWb = b.core.memWb := by rw [step_memWb hc, if_pos hs]
  have hd : (b.step prog i).core.idEx = b.core.idEx := by
    change b.core.idExNext (b.coreIn i) = _
    simp [hc.idExNext, hs]
  have hiff (x : RegAddr) : ((b.step prog i).core.memWrites x ↔ b.core.memWrites x) ∧
      ((b.step prog i).core.wbWrites x ↔ b.core.wbWrites x) := by
    unfold memWrites wbWrites
    rw [hx, hw]
    exact ⟨Iff.rfl, Iff.rfl⟩
  refine ⟨?_, ?_⟩
  · rw [hd]
    intro hv hu hm hwb
    exact hl.rs1 hv hu (mt (hiff _).1.2 hm) (mt (hiff _).2.2 hwb)
  · rw [hd]
    intro hv hu hm hwb
    exact hl.rs2 hv hu (mt (hiff _).1.2 hm) (mt (hiff _).2.2 hwb)

/-- a load that leaves MEM is in WB -/
theorem wbWrites_of_moves (hc : Calm b.core (b.coreIn i)) (hs : b.core.memStall (b.coreIn i) = false)
    (hv : b.core.exMem.valid = true) {x : RegAddr} (hm : b.core.memWrites x) :
    (b.step prog i).core.wbWrites x := by
  obtain ⟨h1, h2, h3⟩ := hm
  unfold wbWrites
  rw [step_memWb hc, hs]
  exact ⟨by simp [MemWb.writes, memDone, h1, hv], h2, h3⟩

/-- an operand survives the load-use stall if WB does not write it, or if ID/EX holds what WB writes -/
theorem holds_of_loadUse (hb : Back prog mem b j) (hc : Calm b.core (b.coreIn i))
    (hs : b.core.memStall (b.coreIn i) = false) (hv : b.core.exMem.valid = true) {x : RegAddr} {latch : Word}
    (hh : Holds prog mem b (entered b j) x latch)
    (hk : b.core.wbWrites x → ¬ b.core.memWrites x → latch = b.core.memWb.rdData) :
    Holds prog mem (b.step prog i) (entered b j) x latch := by
  intro _ hwb
  have hm : ¬ b.core.memWrites x := fun h => hwb (wbWrites_of_moves hc hs hv h)
  by_cases hw : b.core.wbWrites x
  · rw [hk hw hm, reg_entered hb hm, reg_of_wbWrites hb hw]
  · exact hh hm hw

theorem step_latched_of_loadUse (hb : Back prog mem b j) (hf : Front prog mem b (entered b j))
    (hl : Latched prog mem b (entered b j)) (hc : Calm b.core (b.coreIn i))
    (hs : b.core.memStall (b.coreIn i) = false) (hu : b.core.loadUse = true) (hk : Sound b.core (b.coreIn i)) :
    Latched prog mem (b.step prog i) (entered b j) := by
  obtain ⟨hbf, hv, -⟩ := not_branchFlush_of_loadUse hb hf hs hu
  have hd : (b.step prog i).core.idEx = b.core.idEx := by
    change b.core.idExNext (b.coreIn i) = _
    simp [hc.idExNext, hbf, hu]
  refine ⟨?_, ?_⟩
  · rw [hd]
    exact fun hvalid huse => holds_of_loadUse hb hc hs hv (hl.rs1 hvalid huse) ((hk.keeps hu hs hvalid).1 huse)
  · rw [hd]
    exact fun hvalid huse => holds_of_loadUse hb hc hs hv (hl.rs2 hvalid huse) ((hk.keeps hu hs hvalid).2 huse)

/-- the operand that ID reads is current, but for what EX/MEM and MEM/WB take in this cycle -/
theorem holds_of_read (hb : Back prog mem b j) (hback : Back prog mem (b.step prog i) (entered b j))
    (hc : Calm b.core (b.coreIn i)) (hs : b.core.memStall (b.coreIn i) = false) (x : RegAddr) :
    Holds prog mem (b.step prog i) (entered (b.step prog i) (entered b j)) x (b.core.visible x) := by
  intro hm hw
  rw [reg_entered hback hm, hb.regs]
  have hm' : ¬ b.core.memWrites x := by
    intro h
    have hv : b.core.exMem.valid = true := by
      by_contra hcon
      simp [memWrites, (hb.bubble (by simpa using hcon)).2.2] at h
    exact hw (wbWrites_of_moves hc hs hv h)
  exact (reg_entered hb hm').symm

theorem step_latched_of_moves (hb : Back prog mem b j) (hback : Back prog mem (b.step prog i) (entered b j))
    (hc : Calm b.core (b.coreIn i)) (hs : b.core.memStall (b.coreIn i) = false) (hu : b.core.loadUse = false) :
    Latched prog mem (b.step prog i) (entered (b.step prog i) (entered b j)) := by
  have hd : (b.step prog i).core.idEx = if b.core.branchFlush then .bubble else
      Decode.idEx b.core.ifId (b.core.visible (Decode.rs1 b.core.ifId.instruction))
        (b.core.visible (Decode.rs2 b.core.ifId.instruction)) := by
    change b.core.idExNext (b.coreIn i) = _
    simp [hc.idExNext, hs, hu]
  cases hbf : b.core.branchFlush with
  | true =>
    rw [hbf, if_pos rfl] at hd
    refine ⟨?_, ?_⟩
    · rw [hd]; nofun
    · rw [hd]; nofun
  | false =>
    rw [hbf, if_neg (by decide)] at hd
    refine ⟨?_, ?_⟩
    · rw [hd]
      exact fun _ _ => holds_of_read hb hback hc hs _
    · rw [hd]
      exact fun _ _ => holds_of_read hb hback hc hs _

end Step

end Lockstep

end Vsync
