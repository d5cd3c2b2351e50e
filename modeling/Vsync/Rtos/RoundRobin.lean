/-
The rotation among tasks of one priority.

The running task gives up its turn by a yield that is accepted, or when `S_TIMER_UPDATE` finds its time slice used up.
Both mark it READY and start a scan, and the next dispatch is of the best task of that scan. Among equals this is the
lowest id, and nothing remembers whose turn it was.

- `GivesUp`: the event; `NextDispatch`: the dispatch behind it.
- `dispatches_best`: the next dispatch is of the best task.
- `Rotation`: a chain of such events and dispatches; `Fair`: what a round robin promises for it.
- `fair_iff`: a chain is fair exactly when at every event an equal task with a lower id is READY.
- `yields_to_itself`: task 1 yields beside an equal READY task 2, and is dispatched again.
-/
import Vsync.Rtos.Scan
import Vsync.Rtos.Moves

namespace Vsync.HwRtos

structure GivesUp (ins : ℕ → RtosIn) (A : TaskId) (e : ℕ) : Prop where
  active : (stateAt ins e).taskActiveR = true
  current : (stateAt ins e).currentTaskIdR = A
  created : A ≠ 0
  valid : ((stateAt ins e).tcb A).valid = true
  event : AcceptsYield (stateAt ins e) (ins e) ∨
    ((stateAt ins e).fsmState = .timerUpdate ∧ (stateAt ins e).sliceExpired = true)

def scanStart (ins : ℕ → RtosIn) (e : ℕ) : ℕ := if (stateAt ins e).fsmState = .timerUpdate then e + 1 else e + 2

/-- entry `j` as the scan behind the event reads it -/
def entryRead (ins : ℕ → RtosIn) (e : ℕ) (j : TaskId) : Tcb := readAt ins (scanStart ins e) j

structure NextDispatch (ins : ℕ → RtosIn) (e m : ℕ) (B : TaskId) : Prop where
  later : e < m
  dispatch : (stateAt ins m).fsmState = .dispatch
  first : ∀ l, e < l → l < m → (stateAt ins l).fsmState ≠ .dispatch
  task : (stateAt ins m).nextTaskIdR = B

def BestReady (read : TaskId → Tcb) (B : TaskId) : Prop :=
  (read B).IsReady ∧ ∀ j, (read j).IsReady → j ≠ B → Beats read B j

section Event

variable {ins : ℕ → RtosIn} {A : TaskId} {e : ℕ}

/-- no entry is being created or deleted outside `S_SCAN_READY` and `S_EXIT_SETTLE` -/
theorem no_create (h1 : (stateAt ins e).fsmState ≠ .scanReady) (h2 : (stateAt ins e).fsmState ≠ .exitSettle) :
    (stateAt ins e).create = none ∧ (stateAt ins e).delete = none := by
  have hp := phased_run ins e
  constructor
  · by_contra hc
    exact h1 (hp.creates hc).1
  · by_contra hc
    exact h2 (hp.deletes hc)

/-- the entry of a created task is valid after a cycle without creation and deletion if it was before -/
theorem valid_succ (hA : A ≠ 0) (hc : (stateAt ins e).create = none) (hd : (stateAt ins e).delete = none)
    (hv : ((stateAt ins e).tcb A).valid = true) : ((stateAt ins (e + 1)).tcb A).valid = true := by
  have hc' : ∀ a, (stateAt ins e).create ≠ some (A, a) := by simp [hc]
  have hd' : (stateAt ins e).delete ≠ some A := by simp [hd]
  have hkeep := (tcb_step_of_ne_zero (phased_run ins e) hA hc' hd').1
  refine hkeep.trans ?_
  simp [effective, hc, hd, hv]

/-- **Behind the event** a scan starts, and it reads the task READY. -/
theorem scan_of_event (h : GivesUp ins A e) :
    e < scanStart ins e ∧ ScanStarts ins (scanStart ins e) ∧
      (∀ l, e < l → l ≤ scanStart ins e → (stateAt ins l).fsmState = .scanReady) ∧
      (stateAt ins (scanStart ins e)).create = none ∧ (stateAt ins (scanStart ins e)).delete = none ∧
      ((stateAt ins (scanStart ins e)).effective A).IsReady ∧
      (stateAt ins (scanStart ins e)).currentTaskIdR = A ∧ (stateAt ins (scanStart ins e)).taskActiveR = true := by
  obtain ⟨ha, hcur, hA, hv, hyield | ⟨hf, hslice⟩⟩ := h
  · have hf := hyield.idle
    obtain ⟨hf1, hw1, hscan⟩ := yield_starts hyield
    obtain ⟨hc, hd⟩ := @no_create ins e (by rw [hf]; decide) (by rw [hf]; decide)
    obtain ⟨hw2, hc2, hd2⟩ := quiet_of_scanReady hf1
    have hc1 : (stateAt ins (e + 1)).create = none := by simp [stateAt_succ, step, createNext, hf]
    have hd1 : (stateAt ins (e + 1)).delete = none := by simp [stateAt_succ, step, deleteNext, hf]
    have hv2 : ((stateAt ins (e + 2)).tcb A).valid = true := valid_succ hA hc1 hd1 (valid_succ hA hc hd hv)
    have hr2 : ((stateAt ins (e + 2)).tcb A).state = .ready := by
      rw [hcur] at hw1
      exact state_of_stateWr hw1
    have hcur1 : (stateAt ins (e + 1)).currentTaskIdR = A ∧ (stateAt ins (e + 1)).taskActiveR = true := by
      constructor
      · simp [stateAt_succ, step, currentTaskIdNext, hf, hcur]
      · simp [stateAt_succ, step, taskActiveNext, hf, ha]
    have hstart : scanStart ins e = e + 2 := by simp [scanStart, hf]
    rw [hstart]
    refine ⟨by omega, hscan, fun l h1 h2 => ?_, hc2, hd2, ?_, ?_⟩
    · rcases Nat.eq_or_lt_of_le h2 with rfl | hlt
      · exact hscan.waits
      · rw [show l = e + 1 by omega]
        exact hf1
    · refine ⟨?_, ?_⟩ <;> simp [effective, hw2, hc2, hd2, hv2, hr2]
    · have hkeep := @scanReady_current ins (e + 1) (e + 2) (by omega) fun l h1 h2 => by
        rw [show l = e + 1 by omega]
        exact hf1
      exact ⟨hkeep.1.trans hcur1.1, hkeep.2.trans hcur1.2⟩
  · obtain ⟨hc, hd⟩ := @no_create ins e (by rw [hf]; decide) (by rw [hf]; decide)
    obtain ⟨hsched, htrig⟩ := sched_rests (phased_run ins e).scanning (by rw [hf]; decide)
    have hf1 : (stateAt ins (e + 1)).fsmState = .scanReady := by
      change (stateAt ins e).fsmNext (ins e) = _
      simp [fsmNext, hf]
    have hc1 : (stateAt ins (e + 1)).create = none := by simp [stateAt_succ, step, createNext, hf]
    have hd1 : (stateAt ins (e + 1)).delete = none := by simp [stateAt_succ, step, deleteNext, hf]
    have hw1 : (stateAt ins (e + 1)).stateWr = some (A, .ready) := by
      simp [stateAt_succ, step, stateWrNext, hf, hslice, hcur]
    have hstart : scanStart ins e = e + 1 := by simp [scanStart, hf]
    rw [hstart]
    refine ⟨by omega, ⟨hf1, ?_, ?_⟩, fun l h1 h2 => ?_, hc1, hd1, ⟨?_, ?_⟩, ?_, ?_⟩
    · simp [sched_succ, TaskScheduler.step, hsched, htrig]
    · simp [stateAt_succ, step, schedTriggerNext, hf]
    · rw [show l = e + 1 by omega]
      exact hf1
    · simp [effective, hw1, hc1, hd1, Tcb.stateWrite, valid_succ hA hc hd hv]
    · simp [effective, hw1, hc1, hd1, Tcb.stateWrite]
    · simp [stateAt_succ, step, currentTaskIdNext, hf, hcur]
    · simp [stateAt_succ, step, taskActiveNext, hf, ha]

/-- so the scan reads the task READY -/
theorem entryRead_ready (h : GivesUp ins A e) : (entryRead ins e A).IsReady := by
  obtain ⟨-, hscan, -, hc, hd, hr, -⟩ := scan_of_event h
  exact stays_ready hscan h.created hc hd hr A.val (by omega)

/-- **The result of the scan** is the best READY task. -/
theorem scan_finds_best (h : GivesUp ins A e) : ∃ d B, e < d ∧ (stateAt ins d).fsmState = .comparePriority ∧
    (∀ l, e < l → l < d → (stateAt ins l).fsmState = .scanReady) ∧ (stateAt ins d).taskActiveR = true ∧
    (stateAt ins d).nextTaskIdR = B ∧ BestReady (entryRead ins e) B := by
  obtain ⟨hlt, hscan, hwait, hc, hd, hr, hcur, hact⟩ := scan_of_event h
  obtain ⟨d, htd, hcmp, hall, hres⟩ := scan_result hscan
  obtain ⟨-, -, hbest⟩ := scan_ends hscan
  have hmark := (stays_ready hscan h.created hc hd hr 16 (by decide)).2
  have hread : (entryRead ins e A).IsReady := entryRead_ready h
  have hfound := hbest.found.2 ⟨A, A.isLt, hread⟩
  obtain ⟨-, hready, -⟩ := hbest.ready hfound
  refine ⟨d, (stateAt ins (scanStart ins e + 17)).sched.bestTaskId, by omega, hcmp, fun l h1 h2 => ?_, ?_, ?_, hready,
    fun j hj hne => hbest.best hfound j j.isLt hj hne⟩
  · rcases Nat.lt_or_ge (scanStart ins e) l with h3 | h3
    · exact hall l h3.le h2
    · exact hwait l h1 h3
  · rw [(scanReady_current htd.le hall).2, hact]
  · rw [(phased_run ins d).comparing hcmp, hres, hcur]
    -- the current task is READY again, so any other best task preempts it
    have hstate : ((stateAt ins (scanStart ins e + 17)).tcb A).state = .ready := by
      rw [show scanStart ins e + 17 = scanStart ins e + 1 + 16 by omega]
      exact hmark
    by_cases hA : (stateAt ins (scanStart ins e + 17)).sched.bestTaskId = A
    · simp [hA]
    · simp [TaskScheduler.preempts, hfound, hA, hstate]

/-- from `S_COMPARE_PRIORITY` with an active task, the FSM goes to the next dispatch with the task of the scan -/
theorem task_of_compare {d m : ℕ} (hcmp : (stateAt ins d).fsmState = .comparePriority)
    (hact : (stateAt ins d).taskActiveR = true) (hdm : d ≤ m)
    (hnot : ∀ l, d < l → l < m → (stateAt ins l).fsmState ≠ .dispatch) :
    (stateAt ins m).nextTaskIdR = (stateAt ins d).nextTaskIdR ∧
      (m = d ∨ (stateAt ins m).fsmState = .preemptCheck ∨ Switching (stateAt ins m).fsmState ∨
        (stateAt ins m).fsmState = .dispatch) := by
  induction m, hdm using Nat.le_induction with
  | base => exact ⟨rfl, Or.inl rfl⟩
  | succ m hdm ih =>
    obtain ⟨hnext, hphase⟩ := ih fun l h1 h2 => hnot l h1 (by omega)
    have hstep : (stateAt ins (m + 1)).fsmState = (stateAt ins m).fsmNext (ins m) := rfl
    rcases hphase with rfl | hf | hf | hf
    · refine ⟨by simp [stateAt_succ, step, nextTaskIdNext, hcmp], Or.inr ?_⟩
      rw [hstep]
      simp only [fsmNext, hcmp, hact, Bool.true_eq_false, false_and, and_true, if_false]
      split_ifs <;> simp
    · refine ⟨((switching_keeps (ins m) (Or.inl hf)).2.1).trans hnext, Or.inr (Or.inr (Or.inl ?_))⟩
      rw [hstep]
      simp [fsmNext, hf, Switching]
    · refine ⟨((switching_keeps (ins m) (Or.inr hf)).2.1).trans hnext, Or.inr (Or.inr ?_)⟩
      rw [hstep]
      rcases hf with hf | hf | hf
      · simp only [fsmNext, hf]
        split_ifs <;> simp [Switching]
      · simp only [fsmNext, hf]
        split_ifs <;> simp [Switching]
      · simp only [fsmNext, hf]
        split_ifs <;> simp [Switching]
    · rcases Nat.eq_or_lt_of_le hdm with heq | hlt
      · rw [← heq, hcmp] at hf
        exact absurd hf (by decide)
      · exact absurd hf (hnot m hlt (Nat.lt_succ_self m))

/-- **The next dispatch is of the best READY task.** -/
theorem dispatches_best {B : TaskId} {m : ℕ} (h : GivesUp ins A e) (hm : NextDispatch ins e m B) :
    BestReady (entryRead ins e) B := by
  obtain ⟨d, B', hed, hcmp, hwait, hact, hB', hbest⟩ := scan_finds_best h
  have hdm : d < m := by
    by_contra hc
    rcases Nat.eq_or_lt_of_le (Nat.le_of_not_lt hc) with heq | hlt
    · rw [← heq, hm.dispatch] at hcmp
      exact absurd hcmp (by decide)
    · have := hwait m hm.later hlt
      rw [hm.dispatch] at this
      exact absurd this (by decide)
  have hnext := (task_of_compare hcmp hact hdm.le fun l h1 h2 => hm.first l (by omega) h2).1
  rw [hm.task, hB'] at hnext
  rw [hnext]
  exact hbest

end Event

/-! ## The rotation -/

/-- another task is READY at the priority of `A`, and none at a higher one -/
structure Contended (read : TaskId → Tcb) (A : TaskId) : Prop where
  rival : ∃ B, B ≠ A ∧ (read B).IsReady ∧ (read B).prioLevel = (read A).prioLevel
  top : ∀ B, (read B).IsReady → (read B).prioLevel ≤ (read A).prioLevel

/-- an equal task with a lower id is READY -/
def LowerReady (read : TaskId → Tcb) (A : TaskId) : Prop :=
  ∃ B, B < A ∧ (read B).IsReady ∧ (read B).prioLevel = (read A).prioLevel

instance (read : TaskId → Tcb) (A : TaskId) : Decidable (LowerReady read A) :=
  inferInstanceAs (Decidable (∃ B, B < A ∧ (read B).IsReady ∧ (read B).prioLevel = (read A).prioLevel))

section Best

variable {read : TaskId → Tcb} {A B : TaskId}

/-- the best task, if it is another one, is an equal one with a lower id -/
theorem BestReady.lower (hB : BestReady read B) (hA : (read A).IsReady) (hc : Contended read A) (hne : B ≠ A) :
    B < A ∧ (read B).prioLevel = (read A).prioLevel := by
  have htop := hc.top B hB.1
  rcases hB.2 A hA hne.symm with h | ⟨h1, h2⟩
  · exact absurd h (by bv_omega)
  · exact ⟨h2, h1.symm⟩

/-- the best task is another one exactly when an equal task with a lower id is READY -/
theorem BestReady.ne_iff (hB : BestReady read B) (hA : (read A).IsReady) (hc : Contended read A) :
    B ≠ A ↔ LowerReady read A := by
  constructor
  · intro hne
    obtain ⟨hlt, hp⟩ := hB.lower hA hc hne
    exact ⟨B, hlt, hB.1, hp⟩
  · rintro ⟨C, hlt, hC, hp⟩ rfl
    rcases hB.2 C hC hlt.ne with h | ⟨-, h⟩
    · rw [hp] at h
      exact absurd h (BitVec.lt_irrefl _)
    · exact absurd h (lt_asymm hlt)

end Best

/-- `N` consecutive events: `A i` gives up its turn in cycle `e i`, and `A (i + 1)` is dispatched in cycle `d i` -/
structure Rotation (ins : ℕ → RtosIn) (N : ℕ) (A : ℕ → TaskId) (e d : ℕ → ℕ) : Prop where
  gives : ∀ i < N, GivesUp ins (A i) (e i)
  contended : ∀ i < N, Contended (entryRead ins (e i)) (A i)
  next : ∀ i < N, NextDispatch ins (e i) (d i) (A (i + 1))
  order : ∀ i, i + 1 < N → d i < e (i + 1)

/-- **A fair round**: each event dispatches another task, and no task has a second turn before every equal READY task
has had one -/
structure Fair (ins : ℕ → RtosIn) (N : ℕ) (A : ℕ → TaskId) (e : ℕ → ℕ) : Prop where
  other : ∀ i < N, A (i + 1) ≠ A i
  round : ∀ i j, i < j → j ≤ N → A i = A j → ∀ B, B ≠ A i → (entryRead ins (e i) B).IsReady →
    (entryRead ins (e i) B).prioLevel = (entryRead ins (e i) (A i)).prioLevel → ∃ l, i < l ∧ l < j ∧ A l = B

/-- ids that fall at every event do not come back -/
theorem falls_of_steps {N : ℕ} {A : ℕ → TaskId} (h : ∀ i < N, A (i + 1) < A i) (i j : ℕ) (hij : i < j) (hj : j ≤ N) :
    A j < A i := by
  induction j, hij using Nat.le_induction with
  | base => exact h i hj
  | succ j hij ih => exact lt_trans (h j hj) (ih (by omega))

/-- **When the round robin is fair**: exactly when at every event an equal task with a lower id is READY. -/
theorem fair_iff (ins : ℕ → RtosIn) (N : ℕ) (A : ℕ → TaskId) (e d : ℕ → ℕ) (h : Rotation ins N A e d) :
    Fair ins N A e ↔ ∀ i < N, LowerReady (entryRead ins (e i)) (A i) := by
  have hread (i : ℕ) (hi : i < N) : (entryRead ins (e i) (A i)).IsReady := entryRead_ready (h.gives i hi)
  have hbest (i : ℕ) (hi : i < N) : BestReady (entryRead ins (e i)) (A (i + 1)) :=
    dispatches_best (h.gives i hi) (h.next i hi)
  constructor
  · intro hfair i hi
    exact ((hbest i hi).ne_iff (hread i hi) (h.contended i hi)).1 (hfair.other i hi)
  · intro hlower
    have hother : ∀ i < N, A (i + 1) ≠ A i := fun i hi =>
      ((hbest i hi).ne_iff (hread i hi) (h.contended i hi)).2 (hlower i hi)
    have hfalls : ∀ i < N, A (i + 1) < A i := fun i hi =>
      ((hbest i hi).lower (hread i hi) (h.contended i hi) (hother i hi)).1
    refine ⟨hother, fun i j hij hj heq => ?_⟩
    have hlt := falls_of_steps hfalls i j hij hj
    rw [heq] at hlt
    exact absurd hlt (lt_irrefl _)

/-! ## Two runs -/

/-- two tasks of one priority; task 1 exits and its entry is taken again, and task 2 yields in cycle 105 -/
def turnRun (k : ℕ) : RtosIn :=
  { RtosIn.quiet with
    taskCreate := k == 0 || k == 26 || k == 80
    createArgs := ⟨0x100, 0x800, 2⟩
    taskExit := k == 50
    taskYield := k == 105
    ctxSwitchAck := k == 130 }

def selfRun (k : ℕ) : RtosIn :=
  { RtosIn.quiet with taskCreate := k == 0 || k == 26, createArgs := ⟨0x100, 0x800, 2⟩, taskYield := k == 50 }

/-- the scan reads tasks 1 and 2 READY, with priority 2 -/
def ReadsPair (j : ℕ) (e : Tcb) : Prop := (e.IsReady ↔ j = 1 ∨ j = 2) ∧ (e.IsReady → e.prioLevel = 2)

instance (j : ℕ) (e : Tcb) : Decidable (ReadsPair j e) := inferInstanceAs (Decidable (_ ∧ _))

/-- what one pass over such a run tests: `A` yields in cycle `e`, the scan reads the pair, and `B` is dispatched in
cycle `d` -/
def turnTest (A B : TaskId) (e d k : ℕ) (s : HwRtos) : Bool :=
  decide (k = e → s.fsmState = .idle ∧ s.taskCreatePending = false ∧ s.taskActiveR = true ∧ s.currentTaskIdR = A ∧
    (s.tcb A).valid = true) &&
  decide (e + 3 ≤ k → k < e + 19 → ReadsPair (k - (e + 3)) (s.tcb (Fin.ofNat 16 (k - (e + 3))))) &&
  decide (e < k → k < d → s.fsmState ≠ .dispatch) &&
  decide (k = d → s.fsmState = .dispatch ∧ s.nextTaskIdR = B)

section Test

variable {ins : ℕ → RtosIn} {A B : TaskId} {e d : ℕ}

theorem turnTest_spec (h : ∀ k < d + 1, turnTest A B e d k (stateAt ins k) = true) (k : ℕ) (hk : k ≤ d) :
    (k = e → (stateAt ins k).fsmState = .idle ∧ (stateAt ins k).taskCreatePending = false ∧
      (stateAt ins k).taskActiveR = true ∧ (stateAt ins k).currentTaskIdR = A ∧ ((stateAt ins k).tcb A).valid = true) ∧
    (e + 3 ≤ k → k < e + 19 → ReadsPair (k - (e + 3)) ((stateAt ins k).tcb (Fin.ofNat 16 (k - (e + 3))))) ∧
    (e < k → k < d → (stateAt ins k).fsmState ≠ .dispatch) ∧
    (k = d → (stateAt ins k).fsmState = .dispatch ∧ (stateAt ins k).nextTaskIdR = B) := by
  have hall : turnTest A B e d k (stateAt ins k) = true := h k (by omega)
  simp only [turnTest, Bool.and_eq_true, decide_eq_true_eq] at hall
  obtain ⟨⟨⟨h1, h2⟩, h3⟩, h4⟩ := hall
  exact ⟨h1, h2, h3, h4⟩

theorem gives_of_test (h : ∀ k < d + 1, turnTest A B e d k (stateAt ins k) = true) (hed : e < d) (hA : A ≠ 0)
    (hin : (ins e).schedulerEn = true ∧ (ins e).taskCreate = false ∧ (ins e).taskExit = false ∧
      (ins e).taskJoin = false ∧ (ins e).taskYield = true) : GivesUp ins A e := by
  obtain ⟨hf, hp, ha, hc, hv⟩ := (turnTest_spec h e hed.le).1 rfl
  obtain ⟨he, hcr, hx, hj, hy⟩ := hin
  exact ⟨ha, hc, hA, hv, Or.inl ⟨hf, hp, he, hcr, hx, hj, hy, ha⟩⟩

theorem next_of_test (h : ∀ k < d + 1, turnTest A B e d k (stateAt ins k) = true) (hed : e < d) :
    NextDispatch ins e d B := by
  obtain ⟨hf, hn⟩ := (turnTest_spec h d (le_refl d)).2.2.2 rfl
  exact ⟨hed, hf, fun l h1 h2 => (turnTest_spec h l h2.le).2.2.1 h1 h2, hn⟩

theorem reads_of_test (h : ∀ k < d + 1, turnTest A B e d k (stateAt ins k) = true) (hed : e + 19 < d)
    (j : TaskId) : ReadsPair j.val (entryRead ins e j) := by
  have hf := ((turnTest_spec h e (by omega)).1 rfl).1
  have hj := (turnTest_spec h (e + 3 + j.val) (by omega)).2.1 (by omega) (by omega)
  rw [show e + 3 + j.val - (e + 3) = j.val by omega] at hj
  rw [show (Fin.ofNat 16 j.val : TaskId) = j from Fin.ext (Nat.mod_eq_of_lt j.isLt)] at hj
  have hstart : scanStart ins e = e + 2 := by simp [scanStart, hf]
  rw [entryRead, readAt, hstart]
  exact hj

theorem contended_of_pair {read : TaskId → Tcb} {C : TaskId} (h : ∀ j : TaskId, ReadsPair j.val (read j))
    (hA : A.val = 1 ∨ A.val = 2) (hC : C.val = 1 ∨ C.val = 2) (hne : C ≠ A) : Contended read A := by
  have hp : (read A).prioLevel = 2 := (h A).2 ((h A).1.2 hA)
  constructor
  · have hr := (h C).1.2 hC
    exact ⟨C, hne, hr, by rw [(h C).2 hr, hp]⟩
  · intro D hD
    rw [(h D).2 hD, hp]
    exact BitVec.le_refl _

end Test

theorem turnRun_test : ∀ k < 258, turnTest 2 1 105 257 k (stateAt turnRun k) = true := by decide +kernel

theorem selfRun_test : ∀ k < 73, turnTest 1 1 50 72 k (stateAt selfRun k) = true := by decide +kernel

/-- task 2 gives its turn to task 1 -/
theorem fair_iff_turnRun : Fair turnRun 1 (fun i => if i = 0 then 2 else 1) (fun _ => 105) := by
  have hreads := reads_of_test turnRun_test (by decide)
  refine (fair_iff turnRun 1 (fun i => if i = 0 then 2 else 1) (fun _ => 105) (fun _ => 257) ?_).2 ?_
  · refine ⟨fun i hi => ?_, fun i hi => ?_, fun i hi => ?_, fun i hi => ?_⟩
    · rw [Nat.lt_one_iff.1 hi]
      exact gives_of_test turnRun_test (by decide) (by decide) (by decide)
    · rw [Nat.lt_one_iff.1 hi]
      exact contended_of_pair (C := 1) hreads (Or.inr rfl) (Or.inl rfl) (by decide)
    · rw [Nat.lt_one_iff.1 hi]
      exact next_of_test turnRun_test (by decide)
    · omega
  · intro i hi
    rw [Nat.lt_one_iff.1 hi]
    obtain ⟨hr1, hp1⟩ := hreads 1
    obtain ⟨hr2, hp2⟩ := hreads 2
    have hready := hr1.2 (Or.inl rfl)
    exact ⟨1, by decide, hready, (hp1 hready).trans (hp2 (hr2.2 (Or.inr rfl))).symm⟩

/-- **A yield that gives nothing away**: task 1 yields in cycle 50 beside the equal READY task 2, and is dispatched
again. -/
theorem yields_to_itself : GivesUp selfRun 1 50 ∧ Contended (entryRead selfRun 50) 1 ∧ NextDispatch selfRun 50 72 1 ∧
    ¬ Fair selfRun 1 (fun _ => 1) (fun _ => 50) :=
  ⟨gives_of_test selfRun_test (by decide) (by decide) (by decide),
    contended_of_pair (C := 2) (reads_of_test selfRun_test (by decide)) (Or.inl rfl) (Or.inr rfl) (by decide),
    next_of_test selfRun_test (by decide), fun h => h.other 0 Nat.one_pos rfl⟩

end Vsync.HwRtos
