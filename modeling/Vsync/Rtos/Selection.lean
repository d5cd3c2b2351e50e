/-
The scheduler over tables that do not change: what it selects, and when it is done.

- `Best`: the best READY task; `Preempting`: it takes the place of the current one.
- `Selected`: the task that the scheduler is to select.
- `scan_finds`: what the sixteen cycles of the scan find.
- `scheduler_selects`: from a trigger on, the scheduler is done after 18 or 19 cycles with the selected task, and
  requests a switch exactly for another one.
-/
import Vsync.Machine
import Vsync.Rtos.Scan

namespace Vsync

section Selection

variable (t : TcbArray) (current b : TaskId)

structure Best : Prop where
  ready : (t b).IsReady
  beats : ∀ j, (t j).IsReady → j ≠ b → Beats t b j

/-- the best task is another one, and it has a higher priority than the current task, which else is not running -/
structure Preempting : Prop where
  best : Best t b
  other : b ≠ current
  wins : (t current).prioLevel < (t b).prioLevel ∨ (t current).state ≠ .running

/-- the task to select: the one that preempts, or the current one if there is none -/
def Selected (id : TaskId) : Prop := Preempting t current id ∨ ((¬ ∃ b, Preempting t current b) ∧ id = current)

end Selection

theorem Best.unique {t : TcbArray} {b c : TaskId} (hb : Best t b) (hc : Best t c) : b = c := by
  by_contra hne
  exact (hb.beats c hc.ready (Ne.symm hne)).asymm (hc.beats b hb.ready hne)

namespace TaskScheduler

open Machine

section Run

variable {s : TaskScheduler} {t : TcbArray} {current : TaskId} {trigger : ℕ → Bool}

/-- one clock edge over the tables `t` -/
def onTable (t : TcbArray) (current : TaskId) (s : TaskScheduler) (trigger : Bool) : TaskScheduler :=
  s.step trigger current t

structure Scanned (t : TcbArray) (x : ℕ) (s : TaskScheduler) : Prop where
  best : BestOf t x s
  quiet : s.switchRequestReg = false

theorem scan_step {x : ℕ} (i : Bool) (hs : s.state = .scan) (hidx : s.scanIdx.val = x) (h : Scanned t x s) :
    Scanned t (x + 1) (onTable t current s i) := by
  subst hidx
  refine ⟨step_bestOf h.best rfl hs i current, ?_⟩
  have hquiet := h.quiet
  simp only [onTable, step, hs]
  split_ifs <;> exact hquiet

variable (t current) in
theorem scan_on (i : Bool) (hs : s.state = .scan) (h15 : s.scanIdx ≠ 15) :
    (onTable t current s i).state = .scan ∧ (onTable t current s i).scanIdx.val = s.scanIdx.val + 1 := by
  have hlast : s.scanIdx ≠ Fin.last 15 := h15
  simp only [onTable, step, hs, h15, if_false, Fin.val_add_one, hlast]
  split_ifs <;> simp [hs]

theorem scan_end (i : Bool) (hs : s.state = .scan) (h15 : s.scanIdx = 15) :
    (onTable t current s i).state = .preempt := by
  simp [onTable, step, hs, h15]

variable (t current) in
/-- **The scan, cycle by cycle.** -/
theorem scan_cycles (h : s.state = .idle) (h0 : trigger 0 = true) (x : ℕ) (hx : x < 16) :
    (trace (onTable t current) s trigger (x + 1)).state = .scan ∧
      (trace (onTable t current) s trigger (x + 1)).scanIdx.val = x ∧
      Scanned t x (trace (onTable t current) s trigger (x + 1)) := by
  induction x with
  | zero =>
    have hfirst : trace (onTable t current) s trigger 1 =
        { s with state := .scan, scanIdx := 0, bestTaskId := 0, bestPrio := 0, foundReady := false,
                 switchRequestReg := false } := by
      simp [trace_succ, onTable, step, h, h0]
    rw [hfirst]
    refine ⟨rfl, rfl, ⟨?_, ?_, ?_⟩, rfl⟩
    · simp
    · exact fun hf => Bool.noConfusion hf
    · exact fun hf => Bool.noConfusion hf
  | succ x ih =>
    obtain ⟨hs, hidx, hscan⟩ := ih (Nat.lt_of_succ_lt hx)
    have h15 : (trace (onTable t current) s trigger (x + 1)).scanIdx ≠ 15 := by
      intro hc
      rw [hc] at hidx
      change 15 = x at hidx
      omega
    obtain ⟨hs', hidx'⟩ := scan_on t current (trigger (x + 1)) hs h15
    rw [hidx] at hidx'
    exact ⟨hs', hidx', scan_step (trigger (x + 1)) hs hidx hscan⟩

variable (t current) in
/-- **What the scan finds** when the FSM is in `SCHED_PREEMPT`. -/
theorem scan_finds (h : s.state = .idle) (h0 : trigger 0 = true) :
    (trace (onTable t current) s trigger 17).state = .preempt ∧
      Scanned t 16 (trace (onTable t current) s trigger 17) := by
  obtain ⟨hs, hidx, hscan⟩ := scan_cycles t current h h0 15 (by decide)
  exact ⟨scan_end (trigger 16) hs (Fin.ext hidx), scan_step (trigger 16) hs hidx hscan⟩

theorem best_iff (h : BestOf t 16 s) (b : TaskId) : Best t b ↔ s.foundReady = true ∧ s.bestTaskId = b := by
  have hbest (hf : s.foundReady = true) : Best t s.bestTaskId :=
    ⟨(h.ready hf).2.1, fun j hr hne => h.best hf j j.isLt hr hne⟩
  constructor
  · intro hb
    have hf : s.foundReady = true := h.found.2 ⟨b, b.isLt, hb.ready⟩
    exact ⟨hf, (hbest hf).unique hb⟩
  · rintro ⟨hf, rfl⟩
    exact hbest hf

/-- the `SCHED_PREEMPT` test -/
theorem preempting_iff (h : BestOf t 16 s) (b : TaskId) :
    Preempting t current b ↔ s.preempts current t = true ∧ s.bestTaskId = b := by
  have htest : s.preempts current t = true ↔ s.foundReady = true ∧ s.bestTaskId ≠ current ∧
      ((t current).prioLevel < s.bestPrio ∨ (t current).state ≠ .running) := by
    simp only [preempts, Bool.and_eq_true, Bool.or_eq_true, bne_iff_ne, decide_eq_true_eq, ne_eq]
    exact and_assoc
  rw [htest]
  constructor
  · rintro ⟨hb, hother, hwins⟩
    obtain ⟨hf, rfl⟩ := (best_iff h b).1 hb
    rw [← (h.ready hf).2.2] at hwins
    exact ⟨⟨hf, hother, hwins⟩, rfl⟩
  · rintro ⟨⟨hf, hother, hwins⟩, rfl⟩
    rw [(h.ready hf).2.2] at hwins
    exact ⟨(best_iff h _).2 ⟨hf, rfl⟩, hother, hwins⟩

/-- **The scheduler selects**: it is done for the first time after 18 or 19 cycles, its answer is the selected task, and
it requests a switch exactly if that is not the current one. -/
theorem scheduler_selects (h : s.state = .idle) (h0 : trigger 0 = true) : ∃ d, d ≤ 19 ∧
    (∀ k < d, (trace (onTable t current) s trigger k).done = false) ∧
      (trace (onTable t current) s trigger d).done = true ∧
      Selected t current (trace (onTable t current) s trigger d).nextTaskIdReg ∧
      ((trace (onTable t current) s trigger d).switchRequestReg = true ↔
        (trace (onTable t current) s trigger d).nextTaskIdReg ≠ current) := by
  obtain ⟨hs, hscan⟩ := scan_finds t current h h0
  have hwaits : ∀ k < 18, (trace (onTable t current) s trigger k).done = false := by
    intro k hk
    rcases Nat.eq_zero_or_pos k with rfl | hpos
    · simp [done, h]
    · rcases Nat.lt_or_ge k 17 with hlt | hge
      · have hsk := (scan_cycles t current h h0 (k - 1) (by omega)).1
        rw [Nat.sub_add_cancel hpos] at hsk
        simp [done, hsk]
      · obtain rfl : k = 17 := by omega
        simp [done, hs]
  have h18 := trace_succ (onTable t current) s trigger 17
  generalize trace (onTable t current) s trigger 17 = p at hs hscan h18
  by_cases hp : p.preempts current t = true
  · -- another task: one cycle more for `SCHED_SWITCH`
    have hnext : trace (onTable t current) s trigger 18 =
        { p with nextTaskIdReg := p.bestTaskId, state := .switch } := by
      simp [h18, onTable, step, hs, hp]
    have hdone : trace (onTable t current) s trigger 19 =
        { p with nextTaskIdReg := p.bestTaskId, state := .done, switchRequestReg := true } := by
      simp [trace_succ _ _ _ 18, hnext, onTable, step]
    have hpre : Preempting t current p.bestTaskId := (preempting_iff hscan.best _).2 ⟨hp, rfl⟩
    refine ⟨19, le_refl _, fun k hk => ?_, ?_, ?_, ?_⟩
    · rcases Nat.lt_succ_iff_lt_or_eq.1 hk with hlt | rfl
      · exact hwaits k hlt
      · rw [hnext]
        rfl
    · rw [hdone]
      rfl
    · rw [hdone]
      exact .inl hpre
    · rw [hdone]
      exact ⟨fun _ => hpre.other, fun _ => rfl⟩
  · have hdone : trace (onTable t current) s trigger 18 = { p with nextTaskIdReg := current, state := .done } := by
      simp [h18, onTable, step, hs, hp]
    refine ⟨18, by decide, hwaits, ?_, ?_, ?_⟩
    · rw [hdone]
      rfl
    · rw [hdone]
      refine .inr ⟨?_, rfl⟩
      rintro ⟨b, hb⟩
      exact hp ((preempting_iff hscan.best b).1 hb).1
    · rw [hdone]
      exact ⟨fun hq => absurd (hscan.quiet.symm.trans hq) Bool.false_ne_true, fun hne => absurd rfl hne⟩

/-- task 3 runs with priority 4; the tasks 2, 5, 9 and 12 are READY, 5 and 9 with the highest priority -/
def tiedTable : TcbArray := fun i =>
  if i = 3 then ⟨i, 4, .running, 0x100, 0, 8, true⟩
  else if i = 2 ∨ i = 12 then ⟨i, 6, .ready, 0x200, 0, 8, true⟩
  else if i = 5 ∨ i = 9 then ⟨i, 7, .ready, 0x300, 0, 8, true⟩
  else ⟨i, 0, .dormant, 0, 0, 0, false⟩

/-- task 5 is selected: it beats the other READY tasks, and task 9 by its id -/
theorem scheduler_selects_tied : ∃ d, d ≤ 19 ∧
    (trace (onTable tiedTable 3) reset (fun _ => true) d).done = true ∧
      (trace (onTable tiedTable 3) reset (fun _ => true) d).nextTaskIdReg = 5 ∧
      (trace (onTable tiedTable 3) reset (fun _ => true) d).switchRequestReg = true := by
  obtain ⟨d, hd, -, hdone, hsel, hswitch⟩ := @scheduler_selects reset tiedTable 3 (fun _ => true) rfl rfl
  have hbest : Best tiedTable 5 := ⟨by decide, by decide⟩
  have hpre : Preempting tiedTable 3 5 := ⟨hbest, by decide, by decide⟩
  have hnext : (trace (onTable tiedTable 3) reset (fun _ => true) d).nextTaskIdReg = 5 := by
    rcases hsel with h | ⟨hno, -⟩
    · exact h.best.unique hbest
    · exact absurd ⟨5, hpre⟩ hno
  refine ⟨d, hd, hdone, hnext, hswitch.2 ?_⟩
  rw [hnext]
  decide

end Run

end TaskScheduler

end Vsync
