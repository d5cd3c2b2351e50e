/-
`pthread_exit` and `pthread_yield`: the calls that the layer raises for one cycle and then forgets.

`hw_rtos` looks at the exit line in `S_IDLE`, behind a latched creation, and in `S_BLOCK_TASK`; at the yield line in
`S_IDLE` only. It latches neither. A call is lost when the FSM passes it over: it accepts another request, or stays in
`S_IDLE`, and has not executed the call before.

- `ExitLost`, `YieldLost`: a call of cycle `k` is lost.
- `exit_kept_iff`: which exits are kept.
- `yield_kept`, `yield_ignored`: which yields are kept, and that the others leave no trace.
- `requests_kept`: both, for every run and every call.
- `calls_lost`: an exit and a yield that meet `S_TASK_CREATE`.
-/
import Vsync.Posix.System
import Vsync.Rtos.Scan

namespace Vsync

namespace System

def rtosIns (ins : ℕ → SysIn) (n : ℕ) : RtosIn := (stateAt ins n).rtosIn (ins n)

/-- the RTOS of the system is a run of the RTOS -/
theorem rtos_stateAt (ins : ℕ → SysIn) (n : ℕ) : (stateAt ins n).rtos = HwRtos.stateAt (rtosIns ins) n := by
  induction n with
  | zero => rfl
  | succ n ih => rw [stateAt_succ, HwRtos.stateAt_succ, ← ih]; rfl

/-! ## Lost calls -/

section Lost

variable (ins : ℕ → SysIn) (k : ℕ)

/-- in cycle `m` the FSM is in `S_IDLE` and does not go to `f` from the cycle of the call -/
def PassesOver (m : ℕ) (f : SchedFsm) : Prop :=
  (stateAt ins m).rtos.fsmState = .idle ∧ (m = k → (stateAt ins (k + 1)).rtos.fsmState ≠ f)

/-- cycle `l` executes `S_TASK_EXIT` for the task `t` -/
def ExitsTask (l : ℕ) (t : TaskId) : Prop := (stateAt ins l).rtos.exits = true ∧ (stateAt ins l).rtos.currentTaskIdR = t

/-- the scan reads the task `t` in cycle `l` and finds it READY -/
def ScansReady (l : ℕ) (t : TaskId) : Prop :=
  (stateAt ins l).rtos.sched.state = .scan ∧ (stateAt ins l).rtos.sched.scanIdx = t ∧
    ((stateAt ins l).rtos.tcb t).state = .ready

/-- the exit that is called in cycle `k` is lost -/
def ExitLost : Prop :=
  ∃ m, k ≤ m ∧ PassesOver ins k m .taskExit ∧
    ∀ l, k < l → l ≤ m → ¬ ExitsTask ins l (stateAt ins k).rtos.currentTaskIdR

/-- the yield that is called in cycle `k` is lost -/
def YieldLost : Prop :=
  ∃ m, k ≤ m ∧ PassesOver ins k m .scanReady ∧
    ∀ l, k < l → l ≤ m → ¬ ScansReady ins l (stateAt ins k).rtos.currentTaskIdR

end Lost

end System

namespace HwRtos

/-- the FSM looks at the exit line, and no creation is ahead of it -/
def HearsExit (s : HwRtos) : Prop := (s.fsmState = .idle ∧ s.taskCreatePending = false) ∨ s.fsmState = .blockTask

/-- the same for the yield line; for entry 0, no boost is about to overwrite the mark -/
def HearsYield (s : HwRtos) : Prop :=
  s.fsmState = .idle ∧ s.taskCreatePending = false ∧ (s.currentTaskIdR ≠ 0 ∨ s.mutex.boost = none)

instance (s : HwRtos) : Decidable s.HearsExit := inferInstanceAs (Decidable (_ ∨ _))

instance (s : HwRtos) : Decidable s.HearsYield := inferInstanceAs (Decidable (_ ∧ _))

section Step

variable {s : HwRtos} {i : RtosIn}

/-- from `S_IDLE` and `S_BLOCK_TASK` alone the FSM gets into `S_TASK_EXIT` or `S_BLOCK_TASK` -/
theorem outside_of_step (h1 : s.fsmState ≠ .idle) (h2 : s.fsmState ≠ .blockTask) :
    s.fsmNext i ≠ .taskExit ∧ s.fsmNext i ≠ .blockTask := by
  cases hf : s.fsmState with
  | idle => exact absurd hf h1
  | blockTask => exact absurd hf h2
  | _ =>
    simp only [fsmNext, hf]
    constructor
    · try split_ifs
      all_goals decide
    · try split_ifs
      all_goals decide

theorem exit_heard (h : s.HearsExit) (hx : i.taskExit = true) (hc : i.taskCreate = false) (he : i.schedulerEn = true)
    (ha : s.taskActiveR = true) :
    (s.step i).fsmState = .taskExit ∧ (s.step i).taskActiveR = true ∧ (s.step i).currentTaskIdR = s.currentTaskIdR := by
  rcases h with ⟨hf, hp⟩ | hf
  · refine ⟨?_, ?_, ?_⟩
    · change s.fsmNext i = _
      simp [fsmNext, hf, hx, hc, he, hp]
    · simp [step, taskActiveNext, hf, ha]
    · simp [step, currentTaskIdNext, hf]
  · refine ⟨?_, ?_, ?_⟩
    · change s.fsmNext i = _
      simp [fsmNext, hf, hx]
    · have hb : s.blocksCurrent i = false := by simp [blocksCurrent, servedBlock, served, hx]
      simp [step, taskActiveNext, hf, hb, ha]
    · simp [step, currentTaskIdNext, hf]

/-- a yield in another state than `S_IDLE` leaves no trace -/
theorem yield_ignored (h : s.fsmState ≠ .idle) : s.step i = s.step { i with taskYield := false } := by
  have hissues : s.issues i = s.issues { i with taskYield := false } := by simp [issues, h]
  have hfsm : s.fsmNext i = s.fsmNext { i with taskYield := false } := by
    cases hf : s.fsmState with
    | idle => exact absurd hf h
    | _ => simp only [fsmNext, hf]
  have hwr : s.stateWrNext i = s.stateWrNext { i with taskYield := false } := by
    cases hf : s.fsmState with
    | idle => exact absurd hf h
    | _ => simp only [stateWrNext, hf] <;> rfl
  unfold step
  rw [hfsm, hwr]
  simp only [hissues, opIntNext, opPendingNext]
  rfl

end Step

end HwRtos

namespace System

section Calls

variable {ins : ℕ → SysIn} {k : ℕ}

/-- a call drives its own request line only -/
theorem lines_of_exit {s : System} (h : s.posix.taskExit = true) : s.posix.taskCreate = none := by
  simp only [PosixLayer.taskExit, Bool.and_eq_true, beq_iff_eq] at h
  simp [PosixLayer.taskCreate, PosixLayer.serves, h.1, h.2]

theorem lines_of_yield {s : System} (h : s.posix.taskYield = true) :
    s.posix.taskCreate = none ∧ s.posix.taskExit = false ∧ s.posix.taskJoin = false := by
  simp only [PosixLayer.taskYield, Bool.and_eq_true, beq_iff_eq] at h
  refine ⟨?_, ?_, ?_⟩
  · simp [PosixLayer.taskCreate, PosixLayer.serves, h.1, h.2]
  · simp [PosixLayer.taskExit, h.2]
  · simp [PosixLayer.taskJoin, h.2]

/-- between a cycle outside `S_IDLE` and `S_BLOCK_TASK` and the next `S_IDLE` no exit is executed -/
theorem no_exit_between {m : ℕ} (hb : (stateAt ins k).rtos.fsmState ≠ .blockTask)
    (hidle : ∀ l, k ≤ l → l < m → (stateAt ins l).rtos.fsmState ≠ .idle) (l : ℕ) (hkl : k < l) (hlm : l ≤ m) :
    (stateAt ins l).rtos.fsmState ≠ .taskExit ∧ (stateAt ins l).rtos.fsmState ≠ .blockTask := by
  induction l, hkl using Nat.le_induction with
  | base => exact HwRtos.outside_of_step (hidle k (le_refl k) hlm) hb
  | succ l hkl ih => exact HwRtos.outside_of_step (hidle l (by omega) hlm) (ih (by omega)).2

/-- **Which exits are kept**: those that the FSM hears; the others are lost with the next `S_IDLE`. -/
theorem exit_kept_iff (ha : (stateAt ins k).rtos.taskActiveR = true) (hx : (stateAt ins k).posix.taskExit = true) :
    ¬ ExitLost ins k ↔
      (stateAt ins k).rtos.HearsExit ∨ ∀ m, k ≤ m → (stateAt ins m).rtos.fsmState ≠ .idle := by
  have hc := lines_of_exit hx
  constructor
  · intro hkept
    by_contra hnot
    push Not at hnot
    obtain ⟨hdeaf, hex⟩ := hnot
    apply hkept
    obtain ⟨hkm, hm⟩ := Nat.find_spec hex
    have hbefore : ∀ l, k ≤ l → l < Nat.find hex → (stateAt ins l).rtos.fsmState ≠ .idle :=
      fun l h1 h2 hi => Nat.find_min hex h2 ⟨h1, hi⟩
    have hb : (stateAt ins k).rtos.fsmState ≠ .blockTask := fun hb => hdeaf (Or.inr hb)
    refine ⟨Nat.find hex, hkm, ⟨hm, fun heq => ?_⟩, fun l h1 h2 hl => ?_⟩
    · -- the call meets a latched creation
      rw [heq] at hm
      have hp : (stateAt ins k).rtos.taskCreatePending = true := by
        by_contra hp
        exact hdeaf (Or.inl ⟨hm, Bool.eq_false_iff.2 hp⟩)
      change (stateAt ins k).rtos.fsmNext ((stateAt ins k).rtosIn (ins k)) ≠ _
      simp [HwRtos.fsmNext, hm, hp, rtosIn]
    · have hout := (no_exit_between hb hbefore l h1 h2).1
      simp only [ExitsTask, HwRtos.exits, Bool.and_eq_true, beq_iff_eq] at hl
      exact hout hl.1.1
  · rintro hheard ⟨m, hkm, ⟨hm, hnext⟩, hnone⟩
    rcases hheard with hheard | hnever
    · have hin : ((stateAt ins k).rtosIn (ins k)).taskCreate = false := by simp [rtosIn, hc]
      obtain ⟨hf, hact, hcur⟩ := HwRtos.exit_heard (i := (stateAt ins k).rtosIn (ins k)) hheard hx hin rfl ha
      rcases Nat.eq_or_lt_of_le hkm with heq | hlt
      · exact hnext heq.symm hf
      · refine hnone (k + 1) (Nat.lt_succ_self k) hlt ⟨?_, hcur⟩
        rw [HwRtos.exits, Bool.and_eq_true, beq_iff_eq]
        exact ⟨hf, hact⟩
    · exact hnever m hkm hm

/-- a yield that the FSM hears is accepted -/
theorem yield_accepted (ha : (stateAt ins k).rtos.taskActiveR = true) (hy : (stateAt ins k).posix.taskYield = true)
    (hh : (stateAt ins k).rtos.HearsYield) : HwRtos.AcceptsYield (HwRtos.stateAt (rtosIns ins) k) (rtosIns ins k) := by
  obtain ⟨hf, hp, -⟩ := hh
  obtain ⟨hc, hx, hj⟩ := lines_of_yield hy
  rw [← rtos_stateAt]
  exact ⟨hf, hp, rfl, by simp [rtosIns, rtosIn, hc], hx, hj, hy, ha⟩

/-- behind a yield that the FSM hears, the scan reads the task READY -/
theorem yield_read (ha : (stateAt ins k).rtos.taskActiveR = true) (hy : (stateAt ins k).posix.taskYield = true)
    (hh : (stateAt ins k).rtos.HearsYield) :
    ((HwRtos.stateAt (rtosIns ins) (k + 2 + 1 + (stateAt ins k).rtos.currentTaskIdR.val)).tcb
      (stateAt ins k).rtos.currentTaskIdR).state = .ready := by
  obtain ⟨hf1, hw1, hscan⟩ := HwRtos.yield_starts (yield_accepted ha hy hh)
  obtain ⟨x, hx⟩ : ∃ x, x = (stateAt ins k).rtos.currentTaskIdR := ⟨_, rfl⟩
  have hready : ((HwRtos.stateAt (rtosIns ins) (k + 2)).tcb x).state = .ready := by
    rw [← rtos_stateAt ins k, ← hx] at hw1
    exact HwRtos.state_of_stateWr hw1
  obtain ⟨hw, hc, hd⟩ := HwRtos.quiet_of_scanReady hf1
  rw [← hx]
  by_cases h0 : x = 0
  · -- for entry 0 the write port is quiet, too
    have hb : (stateAt ins k).rtos.mutex.boost = none := hh.2.2.resolve_left fun hne => hne (hx.symm.trans h0)
    have hen : (HwRtos.stateAt (rtosIns ins) (k + 2)).tcbWr = none := by
      rw [← rtos_stateAt]
      simp [HwRtos.tcbWr, stateAt_succ, step, HwRtos.step, hb]
    rw [h0] at hready ⊢
    change ((HwRtos.stateAt (rtosIns ins) (k + 2)).tcb.step (HwRtos.stateAt (rtosIns ins) (k + 2)).tcbPorts 0).state = _
    rw [TcbArray.step_state, HwRtos.tcbPorts, hc, hd, hw, hen]
    simp [hready]
  · have hkeep := (HwRtos.scan_keeps hscan h0 hc hd x.val (by omega)).2
    rw [hkeep, HwRtos.effective, hc, hd, hw]
    simp [hready]

/-- **A yield that the FSM hears is kept.** -/
theorem yield_kept (ha : (stateAt ins k).rtos.taskActiveR = true) (hy : (stateAt ins k).posix.taskYield = true)
    (hh : (stateAt ins k).rtos.HearsYield) : ¬ YieldLost ins k := by
  obtain ⟨hf1, -, hscan⟩ := HwRtos.yield_starts (yield_accepted ha hy hh)
  have hread := yield_read ha hy hh
  obtain ⟨x, hx⟩ : ∃ x, x = (stateAt ins k).rtos.currentTaskIdR := ⟨_, rfl⟩
  rw [← hx] at hread
  have hlt : x.val < 16 := x.isLt
  rintro ⟨m, hkm, ⟨hm, hnext⟩, hnone⟩
  rcases Nat.eq_or_lt_of_le hkm with heq | hlt'
  · rw [← rtos_stateAt] at hf1
    exact hnext heq.symm hf1
  · -- the FSM waits until the entry is read
    have hwaits : ∀ l, k < l → l ≤ k + 2 + 1 + x.val → (stateAt ins l).rtos.fsmState = .scanReady := by
      intro l h1 h2
      rw [rtos_stateAt]
      rcases Nat.lt_or_ge l (k + 3) with h3 | h3
      · rcases Nat.lt_or_ge l (k + 2) with h4 | h4
        · rw [show l = k + 1 by omega]
          exact hf1
        · rw [show l = k + 2 by omega]
          exact hscan.waits
      · have hrun := (HwRtos.scan_run hscan (l - (k + 3)) (by omega)).1
        rw [show k + 2 + 1 + (l - (k + 3)) = l by omega] at hrun
        exact hrun
    have hlater : k + 2 + 1 + x.val ≤ m := by
      by_contra hc
      have := hwaits m hlt' (by omega)
      rw [hm] at this
      exact absurd this (by decide)
    obtain ⟨-, hsl, hil, -⟩ := HwRtos.scan_run hscan x.val hlt
    refine hnone (k + 2 + 1 + x.val) (by omega) hlater ?_
    rw [← hx, ScansReady, rtos_stateAt]
    exact ⟨hsl, Fin.ext hil, hread⟩

end Calls

/-- **Exit and yield calls of an active task.** An exit is kept if and only if the FSM hears it, or never gets back to
`S_IDLE`. A yield that the FSM hears is kept, and outside `S_IDLE` the RTOS goes on as if there were none. -/
theorem requests_kept (ins : ℕ → SysIn) (k : ℕ) (ha : (stateAt ins k).rtos.taskActiveR = true) :
    ((stateAt ins k).posix.taskExit = true → (¬ ExitLost ins k ↔
      (stateAt ins k).rtos.HearsExit ∨ ∀ m, k ≤ m → (stateAt ins m).rtos.fsmState ≠ .idle)) ∧
    ((stateAt ins k).posix.taskYield = true →
      ((stateAt ins k).rtos.HearsYield → ¬ YieldLost ins k) ∧
      ((stateAt ins k).rtos.fsmState ≠ .idle →
        (stateAt ins (k + 1)).rtos = (stateAt ins k).rtos.step { (stateAt ins k).rtosIn
          (ins k) with taskYield := false })) :=
  ⟨exit_kept_iff ha, fun hy => ⟨yield_kept ha hy, fun hf => HwRtos.yield_ignored hf⟩⟩

/-- one `pthread_create` in cycle 0, and the call `num` in cycle `c` -/
def callRun (c : ℕ) (num : BitVec 8) (k : ℕ) : SysIn :=
  if k = c then SysIn.call num 0 0 0 else if k = 0 then SysIn.call 0x00 0x100 0x800 3 else SysIn.quiet

/-- calls in a quiet `S_IDLE` are kept -/
theorem requests_kept_callRun : ¬ ExitLost (callRun 50 0x01) 52 ∧ ¬ YieldLost (callRun 50 0x05) 52 :=
  ⟨((requests_kept (callRun 50 0x01) 52 (by decide +kernel)).1 (by decide +kernel)).2 (Or.inl (by decide +kernel)),
    ((requests_kept (callRun 50 0x05) 52 (by decide +kernel)).2 (by decide +kernel)).1 (by decide +kernel)⟩

/-- the calls of cycle 25 reach the RTOS in `S_TASK_CREATE`, for the second creation of the `pthread_create` -/
theorem callRun_busy (num : BitVec 8) (h : num = 0x01 ∨ num = 0x05) :
    (stateAt (callRun 25 num) 27).rtos.taskActiveR = true ∧ (stateAt (callRun 25 num) 27).rtos.currentTaskIdR = 1 ∧
      (stateAt (callRun 25 num) 49).rtos.fsmState = .idle := by
  rcases h with rfl | rfl <;> decide +kernel

/-- task 1 is RUNNING up to cycle 49, and nothing exits -/
theorem callRun_runs (num : BitVec 8) (h : num = 0x01 ∨ num = 0x05) (l : ℕ) (h1 : 27 < l) (h2 : l ≤ 49) :
    (stateAt (callRun 25 num) l).rtos.fsmState ≠ .taskExit ∧
      ((stateAt (callRun 25 num) l).rtos.tcb 1).state ≠ .ready := by
  have key : ∀ j < 50, decide (27 < j → (stateAt (callRun 25 num) j).rtos.fsmState ≠ .taskExit ∧
      ((stateAt (callRun 25 num) j).rtos.tcb 1).state ≠ .ready) = true := by
    refine Machine.check_all step reset (callRun 25 num)
      (fun j s => decide (27 < j → s.rtos.fsmState ≠ .taskExit ∧ (s.rtos.tcb 1).state ≠ .ready)) 50 ?_
    rcases h with rfl | rfl <;> decide +kernel
  exact of_decide_eq_true (key l (by omega)) h1

/-- **An exit and a yield are lost**: in cycle 49 the FSM is back in `S_IDLE`, and task 1 has been running all along. -/
theorem calls_lost :
    ((stateAt (callRun 25 0x01) 27).rtos.taskActiveR = true ∧ (stateAt (callRun 25 0x01) 27).posix.taskExit = true ∧
      ExitLost (callRun 25 0x01) 27) ∧
    ((stateAt (callRun 25 0x05) 27).rtos.taskActiveR = true ∧ (stateAt (callRun 25 0x05) 27).posix.taskYield = true ∧
      YieldLost (callRun 25 0x05) 27) := by
  obtain ⟨ha, hcur, hidle⟩ := callRun_busy 0x01 (Or.inl rfl)
  obtain ⟨ha', hcur', hidle'⟩ := callRun_busy 0x05 (Or.inr rfl)
  refine ⟨⟨ha, by decide +kernel, 49, by decide, ⟨hidle, fun h => absurd h (by decide)⟩, fun l h1 h2 hl => ?_⟩,
    ⟨ha', by decide +kernel, 49, by decide, ⟨hidle', fun h => absurd h (by decide)⟩, fun l h1 h2 hl => ?_⟩⟩
  · have hexit := hl.1
    rw [HwRtos.exits, Bool.and_eq_true, beq_iff_eq] at hexit
    exact (callRun_runs 0x01 (Or.inl rfl) l h1 h2).1 hexit.1
  · have hread := hl.2.2
    rw [hcur'] at hread
    exact (callRun_runs 0x05 (Or.inr rfl) l h1 h2).2 hread

end System

end Vsync
