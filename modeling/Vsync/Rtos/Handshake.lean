/-
The context-switch handshake between the core and the RTOS, wired as in `vsync_top.sv`.

`ctx_switch_req` is the stall line of the context-switch unit, which is high in both of its phases. The core sees it one
cycle late, takes 36 cycles to save where the unit takes 31, and acknowledges when the unit has finished; and the
scheduler FSM waits for the acknowledge first, and for the end of a transaction then.

- `unit_state`: in which cycles the unit loads.
- `no_early_ack`: the core does not acknowledge before the unit has finished.
- `Stuck`, `stuck_run`: the FSM never leaves the switch again.
- `bank_skewed`: register `x n` of the core goes to entry `n + 3` of the bank.
- `calm_of_run`: every switch of a run from reset begins so.
- `handshake_never_completes`: so no switch completes.
-/
import Vsync.Machine
import Vsync.Core.CtxFsm
import Vsync.Rtos.Transaction

namespace Vsync

/-- what the two blocks receive from the rest of the chip in one cycle -/
structure CtxIn where
  imemRdata : Word
  memRdata : Word
  memReady : Bool
  irq : IrqLines
  syscallDone : Option Word
  debugHaltReq : Bool
  debugRegAddr : RegAddr
  mextStarts : Bool
  rtos : RtosIn

structure CtxSystem where
  core : Rv32imCore
  rtos : HwRtos

/-- `ctx_restore_en` with `ctx_restore_reg_idx` and `ctx_restore_reg_data` -/
def HwRtos.ctxRestore (s : HwRtos) : Option (RegAddr × Word) :=
  if s.cs.cpuRegWe then some (s.cs.cpuRegAddr, s.cs.cpuRegWdata) else none

def Rv32imCore.ctxSwitchAck (s : Rv32imCore) : Bool := s.ctxState == .resume

def Rv32imCore.ctxSaveRegData (s : Rv32imCore) (i : CoreIn) : Word := s.readPort i (s.rfRs1Addr i)

namespace CtxSystem

section Cycle

variable (s : CtxSystem) (i : CtxIn)

def coreIn : CoreIn where
  imemRdata := i.imemRdata
  memRdata := i.memRdata
  memReady := i.memReady
  irq := i.irq
  ctxSwitchReq := s.rtos.ctxSwitchReq
  ctxRestore := s.rtos.ctxRestore
  syscallDone := i.syscallDone
  debugHaltReq := i.debugHaltReq
  debugRegAddr := i.debugRegAddr
  mextStarts := i.mextStarts

def rtosIn : RtosIn :=
  { i.rtos with
    ctxSwitchAck := s.core.ctxSwitchAck
    ctxSaveRegData := s.core.ctxSaveRegData (s.coreIn i)
    ctxSavePc := s.core.pc }

def step : CtxSystem := ⟨s.core.step (s.coreIn i), s.rtos.step (s.rtosIn i)⟩

end Cycle

def reset : CtxSystem := ⟨.reset, .reset⟩

def run (s : CtxSystem) (ins : ℕ → CtxIn) (n : ℕ) : CtxSystem := Machine.trace step s ins n

/-- no switch is going on -/
structure Calm (s : CtxSystem) : Prop where
  unit : s.rtos.cs.state = .idle
  req : s.rtos.csSwitchReq = none
  core : s.core.ctxState = .idle

/-- the switch to the next task that begins in `s` completes: the core resumes in cycle `k`, and the FSM is back in
cycle `n` -/
structure Completes (s : CtxSystem) (ins : ℕ → CtxIn) (k n : ℕ) : Prop where
  after : k < n
  rtos : (s.run ins n).rtos.fsmState = .idle
  core : (s.run ins n).core.ctxState = .idle
  /-- the bank of the old task holds the registers that the core had when the request came -/
  saved : ∀ r : RegAddr, r ≠ 0#5 → (s.run ins n).rtos.cs.regBanks s.rtos.currentTaskIdR r = (s.run ins 2).core.regs r
  resumes : (s.run ins k).core.ctxSwitchAck = true
  loaded : ∀ r : RegAddr, r ≠ 0#5 → (s.run ins (k + 1)).core.regs r = s.rtos.cs.regBanks s.rtos.nextTaskIdR r
  fetch : (s.run ins (k + 1)).core.pc = s.rtos.cs.savedPc s.rtos.nextTaskIdR

section Run

variable {s : CtxSystem} {ins : ℕ → CtxIn}

/-! ## The transaction of the unit -/

theorem runs_core (s : CtxSystem) (ins : ℕ → CtxIn) :
    Rv32imCore.Runs (fun n => (s.run ins n).core) fun n => (s.run ins n).coreIn (ins n) := fun _ => rfl

theorem runs_unit (s : CtxSystem) (ins : ℕ → CtxIn) :
    ContextSwitch.Runs (fun n => (s.run ins n).rtos.cs) (fun n => (s.run ins n).rtos.csSwitchReq)
      (fun n => (s.run ins n).core.ctxSaveRegData ((s.run ins n).coreIn (ins n))) fun n => (s.run ins n).core.pc :=
  fun _ => rfl

def pair (s : CtxSystem) : TaskId × TaskId :=
  (if s.rtos.taskActiveR then s.rtos.currentTaskIdR else 0, s.rtos.nextTaskIdR)

/-- the cycle of `S_PREEMPT_CHECK` requests a transaction -/
theorem first_cycle (h : Calm s) (hf : s.rtos.fsmState = .preemptCheck) :
    (s.run ins 1).rtos.fsmState = .waitCtxAck ∧ (s.run ins 1).rtos.cs.state = .idle ∧
      (s.run ins 1).rtos.csSwitchReq = some s.pair := by
  refine ⟨?_, ?_, ?_⟩
  · change s.rtos.fsmNext (s.rtosIn (ins 0)) = _
    simp [HwRtos.fsmNext, hf]
  · change (s.rtos.cs.step s.rtos.csSwitchReq _ _).state = _
    simp [ContextSwitch.step, h.unit, h.req]
  · change s.rtos.csSwitchReqNext = _
    simp [HwRtos.csSwitchReqNext, hf, pair]

/-- in which cycles the unit loads -/
theorem unit_state (h : Calm s) (hf : s.rtos.fsmState = .preemptCheck) :
    (∀ n ≤ 32, (s.run ins n).rtos.cs.state ≠ .load) ∧
      (∀ n, 33 ≤ n → n < 64 → (s.run ins n).rtos.cs.state = .load) ∧ (s.run ins 65).rtos.cs.state = .idle := by
  obtain ⟨-, h1, h2⟩ := @first_cycle s ins h hf
  have hsave (n : ℕ) (hn : n < 31) := (ContextSwitch.save_run (runs_unit s ins) h1 h2 n hn).1
  have hload (n : ℕ) (hn : n < 31) := (ContextSwitch.load_run (runs_unit s ins) h1 h2 n hn).1
  refine ⟨fun n hn => ?_, fun n h33 h64 => ?_, (ContextSwitch.done_of_request (runs_unit s ins) h1 h2).2⟩
  · rcases Nat.lt_or_ge n 2 with hlt | hge
    · interval_cases n
      · rw [show (s.run ins 0).rtos.cs.state = .idle from h.unit]
        decide
      · rw [h1]
        decide
    · have := hsave (n - 2) (by omega)
      simp only [show 1 + 1 + (n - 2) = n by omega] at this
      rw [this]
      decide
  · have := hload (n - 33) (by omega)
    simp only [show 1 + 32 + (n - 33) = n by omega] at this
    exact this

/-! ## The acknowledge comes too late -/

theorem restore_of_unit (r : HwRtos) : r.ctxRestore.isSome = true ↔ r.cs.state = .load := by
  unfold HwRtos.ctxRestore ContextSwitch.cpuRegWe
  by_cases h : r.cs.state = .load <;> simp [h]

theorem step_ctx (s : CtxSystem) (i : CtxIn) : (s.step i).core.ctxState = s.core.ctxNext (s.coreIn i) := rfl

theorem step_waits {s : CtxSystem} {i : CtxIn} (hr : s.rtos.cs.state ≠ .load)
    (h : s.core.ctxState ≠ .restoreRegs ∧ s.core.ctxState ≠ .resume) :
    (s.step i).core.ctxState ≠ .restoreRegs ∧ (s.step i).core.ctxState ≠ .resume := by
  have hnone : (s.coreIn i).ctxRestore.isSome = false := by
    rw [Bool.eq_false_iff]
    exact fun hc => hr ((restore_of_unit s.rtos).1 hc)
  rw [step_ctx, Rv32imCore.ctxNext]
  cases hs : s.core.ctxState with
  | idle => dsimp only; split_ifs <;> decide
  | flush => simp
  | saveRegs => dsimp only; split_ifs <;> decide
  | savePc => simp
  | waitRestore => simp [hnone]
  | restoreRegs => exact absurd hs h.1
  | resume => exact absurd hs h.2

theorem step_restores {s : CtxSystem} {i : CtxIn} (hr : s.rtos.cs.state = .load) (h : s.core.ctxState ≠ .resume) :
    (s.step i).core.ctxState ≠ .resume := by
  have hsome : (s.coreIn i).ctxRestore.isSome = true := (restore_of_unit s.rtos).2 hr
  have hnone : (s.coreIn i).ctxRestore.isNone = false := by rw [← Option.not_isSome, hsome]; rfl
  rw [step_ctx, Rv32imCore.ctxNext]
  cases hs : s.core.ctxState with
  | idle => dsimp only; split_ifs <;> decide
  | flush => simp
  | saveRegs => dsimp only; split_ifs <;> decide
  | savePc => simp
  | waitRestore => simp [hsome]
  | restoreRegs => simp [hnone]
  | resume => exact absurd hs h

/-- **The core does not acknowledge** before the unit has finished. -/
theorem no_early_ack (h : Calm s) (hf : s.rtos.fsmState = .preemptCheck) (n : ℕ) (hn : n ≤ 64) :
    (s.run ins n).core.ctxSwitchAck = false := by
  obtain ⟨hsave, hload, -⟩ := @unit_state s ins h hf
  have hwait : ∀ n ≤ 33, (s.run ins n).core.ctxState ≠ .restoreRegs ∧ (s.run ins n).core.ctxState ≠ .resume := by
    intro n hn
    induction n with
    | zero =>
      have h0 : (s.run ins 0).core.ctxState = .idle := h.core
      rw [h0]
      decide
    | succ n ih => exact step_waits (hsave n (by omega)) (ih (by omega))
  have hresume : (s.run ins n).core.ctxState ≠ .resume := by
    rcases Nat.lt_or_ge n 33 with hlt | hge
    · exact (hwait n (by omega)).2
    · induction n, hge using Nat.le_induction with
      | base => exact (hwait 33 (le_refl 33)).2
      | succ n hge ih => exact step_restores (hload n hge (by omega)) (ih (by omega))
  simpa [Rv32imCore.ctxSwitchAck] using hresume

/-! ## The FSM never comes back -/

/-- the FSM waits in a switch, with nothing under way in the unit -/
structure Stuck (s : CtxSystem) : Prop where
  fsm : HwRtos.Switching s.rtos.fsmState
  unit : s.rtos.cs.state = .idle
  req : s.rtos.csSwitchReq = none

theorem step_stuck {s : CtxSystem} {i : CtxIn} (h : Stuck s) : Stuck (s.step i) := by
  have hdone : s.rtos.cs.switchDone = false := by simp [ContextSwitch.switchDone, h.unit]
  constructor
  · change HwRtos.Switching (s.rtos.fsmNext (s.rtosIn i))
    unfold HwRtos.Switching HwRtos.fsmNext
    rcases h.fsm with hf | hf | hf
    · simp only [hf]
      split_ifs <;> simp
    · simp [hf, hdone]
    · simp [hf, hdone]
  · change (s.rtos.cs.step s.rtos.csSwitchReq _ _).state = _
    simp [ContextSwitch.step, h.unit, h.req]
  · change s.rtos.csSwitchReqNext = none
    unfold HwRtos.csSwitchReqNext
    rcases h.fsm with hf | hf | hf <;> simp [hf, hdone]

/-- until the unit has finished, the FSM waits for the acknowledge -/
theorem waits_run (h : Calm s) (hf : s.rtos.fsmState = .preemptCheck) (n : ℕ) (h1 : 1 ≤ n) (hn : n ≤ 65) :
    (s.run ins n).rtos.fsmState = .waitCtxAck ∧ (1 < n → (s.run ins n).rtos.csSwitchReq = none) := by
  induction n, h1 using Nat.le_induction with
  | base => exact ⟨(first_cycle h hf).1, fun hc => absurd hc (by omega)⟩
  | succ n h1 ih =>
    have hw := (ih (by omega)).1
    have hack : ((s.run ins n).rtosIn (ins n)).ctxSwitchAck = false := no_early_ack h hf n (by omega)
    constructor
    · change (s.run ins n).rtos.fsmNext ((s.run ins n).rtosIn (ins n)) = _
      rw [HwRtos.fsmNext, hw]
      exact if_neg (by rw [hack]; decide)
    · intro _
      change (s.run ins n).rtos.csSwitchReqNext = _
      simp [HwRtos.csSwitchReqNext, hw]

/-- **The FSM never comes back** from a switch. -/
theorem stuck_run (h : Calm s) (hf : s.rtos.fsmState = .preemptCheck) (n : ℕ) (hn : 1 ≤ n) :
    HwRtos.Switching (s.run ins n).rtos.fsmState := by
  have hstuck : ∀ n ≥ 65, Stuck (s.run ins n) := by
    intro n hn
    induction n, hn using Nat.le_induction with
    | base =>
      obtain ⟨h1, h2⟩ := @waits_run s ins h hf 65 (by omega) (le_refl 65)
      exact ⟨Or.inl h1, (unit_state h hf).2.2, h2 (by omega)⟩
    | succ n hn ih => exact step_stuck ih
  rcases Nat.lt_or_ge n 65 with hlt | hge
  · exact Or.inl (waits_run h hf n hn (by omega)).1
  · exact (hstuck n hge).fsm

/-! ## What the unit saves -/

/-- the request comes to a core that is not switching -/
theorem accepts_two (h : Calm s) (hf : s.rtos.fsmState = .preemptCheck) (hsys : (s.run ins 2).core.sysState = .idle) :
    (s.run ins 2).core.AcceptsSwitch ((s.run ins 2).coreIn (ins 2)) := by
  obtain ⟨-, h1, h2⟩ := @first_cycle s ins h hf
  have hstays (s : CtxSystem) (i : CtxIn) (hu : s.rtos.cs.state = .idle) (hc : s.core.ctxState = .idle) :
      (s.step i).core.ctxState = .idle := by
    have hreq : (s.coreIn i).ctxSwitchReq = false := by
      simp [coreIn, HwRtos.ctxSwitchReq, ContextSwitch.stallPipeline, hu]
    simp [step_ctx, Rv32imCore.ctxNext, hc, hreq]
  refine ⟨hstays (s.run ins 1) (ins 1) h1 (hstays s (ins 0) h.unit h.core), ?_, hsys⟩
  have hsave := (ContextSwitch.save_run (runs_unit s ins) h1 h2 0 (by omega)).1
  change (s.run ins 2).rtos.cs.state = .save at hsave
  simp [coreIn, HwRtos.ctxSwitchReq, ContextSwitch.stallPipeline, hsave]

/-- **The banks are skewed**: without a syscall, entry `n + 3` of the bank takes `x n`. -/
theorem bank_skewed (h : Calm s) (hf : s.rtos.fsmState = .preemptCheck) (hsys : (s.run ins 2).core.sysState = .idle)
    (hsys' : (s.run ins 4).core.sysState = .idle) (n : ℕ) (hn : n < 29) :
    (s.run ins 33).rtos.cs.regBanks s.pair.1 (BitVec.ofNat 5 (n + 3)) =
      if n = 0 then 0 else (s.run ins 4).core.regs (BitVec.ofNat 5 n) := by
  obtain ⟨-, h1, h2⟩ := @first_cycle s ins h hf
  have hto : (BitVec.ofNat 5 (n + 3)).toNat = n + 3 := by
    rw [BitVec.toNat_ofNat]
    omega
  have hne : BitVec.ofNat 5 (n + 3) ≠ 0#5 := by
    intro hc
    rw [hc] at hto
    change 0 = n + 3 at hto
    omega
  have hsaved := (ContextSwitch.load_begins (runs_unit s ins) h1 h2).2.2 _ hne
  have hport := Rv32imCore.save_port (runs_core s ins) (accepts_two h hf hsys) hsys' n (by omega)
  simp only [hto, show 1 + (n + 3) = 2 + 2 + n by omega] at hsaved
  exact hsaved.trans hport

/-! ## Runs from reset -/

theorem step_calm {s : CtxSystem} {i : CtxIn} (h : Calm s) (hsw : ¬ HwRtos.Switching s.rtos.fsmState)
    (hp : s.rtos.fsmState ≠ .preemptCheck) : Calm (s.step i) ∧ ¬ HwRtos.Switching (s.step i).rtos.fsmState := by
  refine ⟨⟨?_, ?_, ?_⟩, fun hnext => ?_⟩
  · change (s.rtos.cs.step s.rtos.csSwitchReq _ _).state = _
    simp [ContextSwitch.step, h.unit, h.req]
  · change s.rtos.csSwitchReqNext = none
    unfold HwRtos.csSwitchReqNext
    cases hfsm : s.rtos.fsmState with
    | preemptCheck => exact absurd hfsm hp
    | contextSave => exact absurd (Or.inr (Or.inl hfsm)) hsw
    | _ => rfl
  · have hreq : (s.coreIn i).ctxSwitchReq = false := by
      simp [coreIn, HwRtos.ctxSwitchReq, ContextSwitch.stallPipeline, h.unit]
    rw [step_ctx, Rv32imCore.ctxNext, h.core, hreq]
    rfl
  · rcases HwRtos.fsmNext_switching hnext with ⟨h1, -⟩ | h1
    · exact hp h1
    · exact hsw h1

/-- **A switch begins calmly** in every run from reset: it is the first one. -/
theorem calm_of_run (ins : ℕ → CtxIn) (n : ℕ) (hf : (reset.run ins n).rtos.fsmState = .preemptCheck) :
    Calm (reset.run ins n) := by
  have hinv : ∀ n, (Calm (reset.run ins n) ∧ ¬ HwRtos.Switching (reset.run ins n).rtos.fsmState) ∨
      ∃ m < n, Calm (reset.run ins m) ∧ (reset.run ins m).rtos.fsmState = .preemptCheck := by
    intro n
    induction n with
    | zero =>
      left
      refine ⟨⟨rfl, rfl, rfl⟩, ?_⟩
      simp [HwRtos.Switching, run, reset, HwRtos.reset]
    | succ n ih =>
      rcases ih with ⟨hcalm, hsw⟩ | ⟨m, hm, hpre⟩
      · by_cases hp : (reset.run ins n).rtos.fsmState = .preemptCheck
        · exact Or.inr ⟨n, Nat.lt_succ_self n, hcalm, hp⟩
        · exact Or.inl (step_calm hcalm hsw hp)
      · exact Or.inr ⟨m, by omega, hpre⟩
  rcases hinv n with ⟨hcalm, -⟩ | ⟨m, hm, hcalm, hpre⟩
  · exact hcalm
  · -- an earlier switch is still going on
    obtain ⟨d, rfl⟩ := Nat.exists_eq_add_of_lt hm
    have hadd : reset.run ins (m + d + 1) = (reset.run ins m).run (fun k => ins (m + k)) (d + 1) := by
      rw [Nat.add_assoc]
      exact Machine.trace_add step reset ins m (d + 1)
    have hsw := @stuck_run (reset.run ins m) (fun k => ins (m + k)) hcalm hpre (d + 1) (by omega)
    rw [← hadd, hf] at hsw
    simp [HwRtos.Switching] at hsw

end Run

/-- **No switch completes**: the FSM never comes back to `S_IDLE`. -/
theorem handshake_never_completes (s : CtxSystem) (ins : ℕ → CtxIn) (h : Calm s)
    (hf : s.rtos.fsmState = .preemptCheck) :
    ¬ ∃ k n, Completes s ins k n := by
  rintro ⟨k, n, hc⟩
  have hafter := hc.after
  have hsw := @stuck_run s ins h hf n (by omega)
  rw [hc.rtos] at hsw
  simp [HwRtos.Switching] at hsw

/-- task 1 runs; task 2 is created in cycle 26 and preempts it. The program is all NOPs. -/
def preemptRun (k : ℕ) : CtxIn where
  imemRdata := 0x00000013
  memRdata := 0
  memReady := true
  irq := .none
  syscallDone := none
  debugHaltReq := false
  debugRegAddr := 0
  mextStarts := false
  rtos :=
    { RtosIn.quiet with
      taskCreate := k == 0 || k == 26
      createArgs := if k < 26 then ⟨0x100, 0x800, 1⟩ else ⟨0x200, 0x900, 2⟩ }

/-- the switch that begins in cycle 49 of that run -/
theorem handshake_of_preempt : ¬ ∃ k n, Completes (reset.run preemptRun 49) (fun k => preemptRun (49 + k)) k n :=
  handshake_never_completes (reset.run preemptRun 49) (fun k => preemptRun (49 + k))
    (calm_of_run preemptRun 49 (by decide +kernel)) (by decide +kernel)

/-- **A preemption hangs the scheduler.** From cycle 49 on, where task 2 is to preempt task 1 and the core is in no
syscall, `S_IDLE` is never reached again. -/
theorem preempt_hangs :
    (reset.run preemptRun 49).rtos.fsmState = .preemptCheck ∧ (reset.run preemptRun 49).rtos.currentTaskIdR = 1 ∧
      (reset.run preemptRun 49).rtos.nextTaskIdR = 2 ∧ (reset.run preemptRun 51).core.sysState = .idle ∧
      ¬ ∃ k n, Completes (reset.run preemptRun 49) (fun k => preemptRun (49 + k)) k n := by
  have hf : (reset.run preemptRun 49).rtos.fsmState = .preemptCheck := by decide +kernel
  refine ⟨hf, by decide +kernel, by decide +kernel, by decide +kernel, ?_⟩
  rintro ⟨k, n, hc⟩
  have hafter := hc.after
  have hsw := @stuck_run (reset.run preemptRun 49) (fun k => preemptRun (49 + k)) (calm_of_run preemptRun 49 hf) hf n
    (by omega)
  rw [hc.rtos] at hsw
  simp [HwRtos.Switching] at hsw

end CtxSystem

end Vsync
