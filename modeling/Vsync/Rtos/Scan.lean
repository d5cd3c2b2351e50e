/-
One scan of the scheduler.

The scheduler reads the entries one by one, entry `j` in the cycle `j + 1` behind its trigger, and keeps the best READY
one: the highest priority, the lowest id among equals. The FSM waits in `S_SCAN_READY` until it is done.

- `Beats`: the order of the scan; `BestOf`: the best of the entries before an index.
- `step_bestOf`: one cycle of the scan.
- `scan_run`: a scan from its trigger on, cycle by cycle.
- `scan_result`: what the FSM finds in `S_COMPARE_PRIORITY`.
- `scan_keeps`: an entry stays as it is until it is read.
- `yield_starts`: an accepted yield marks its task and starts a scan.
-/
import Vsync.Rtos.Blocked

namespace Vsync

def Tcb.IsReady (e : Tcb) : Prop := e.valid = true ∧ e.state = .ready

instance (e : Tcb) : Decidable e.IsReady := inferInstanceAs (Decidable (_ ∧ _))

/-- entry `i` comes before entry `j`: a higher priority, or a lower id at the same one -/
def Beats (read : TaskId → Tcb) (i j : TaskId) : Prop :=
  (read j).prioLevel < (read i).prioLevel ∨ ((read j).prioLevel = (read i).prioLevel ∧ i < j)

instance (read : TaskId → Tcb) (i j : TaskId) : Decidable (Beats read i j) := inferInstanceAs (Decidable (_ ∨ _))

theorem Beats.asymm {read : TaskId → Tcb} {i j : TaskId} (h : Beats read i j) : ¬ Beats read j i := by
  intro h'
  rcases h with h | ⟨h1, h2⟩ <;> rcases h' with h3 | ⟨h3, h4⟩
  · bv_omega
  · bv_omega
  · bv_omega
  · exact absurd h4 (lt_asymm h2)

theorem Beats.trans {read : TaskId → Tcb} {i j k : TaskId} (h : Beats read i j) (h' : Beats read j k) :
    Beats read i k := by
  rcases h with h1 | ⟨h1, h2⟩ <;> rcases h' with h3 | ⟨h3, h4⟩
  · exact Or.inl (BitVec.lt_trans h3 h1)
  · exact Or.inl (h3 ▸ h1)
  · exact Or.inl (h1 ▸ h3)
  · exact Or.inr ⟨h3.trans h1, lt_trans h2 h4⟩

/-- of two entries one comes before the other -/
theorem beats_of_not {read : TaskId → Tcb} {i j : TaskId} (h : ¬ Beats read i j) (hji : j < i) : Beats read j i := by
  have hle : ¬ (read j).prioLevel < (read i).prioLevel := fun hlt => h (Or.inl hlt)
  by_cases hp : (read i).prioLevel < (read j).prioLevel
  · exact Or.inl hp
  · exact Or.inr ⟨by bv_omega, hji⟩

namespace TaskScheduler

/-- the scheduler keeps the best READY entry below `x` -/
structure BestOf (read : TaskId → Tcb) (x : ℕ) (s : TaskScheduler) : Prop where
  found : s.foundReady = true ↔ ∃ j : TaskId, j.val < x ∧ (read j).IsReady
  ready : s.foundReady = true → s.bestTaskId.val < x ∧ (read s.bestTaskId).IsReady ∧
    s.bestPrio = (read s.bestTaskId).prioLevel
  best : s.foundReady = true → ∀ j : TaskId, j.val < x → (read j).IsReady → j ≠ s.bestTaskId → Beats read s.bestTaskId j

section Step

variable {read : TaskId → Tcb} {s : TaskScheduler} {t : TcbArray}

/-- the entry under the index is taken exactly when it is READY and beats the best one so far -/
theorem takes_iff (h : BestOf read s.scanIdx.val s) (ht : t s.scanIdx = read s.scanIdx) :
    s.takes t = true ↔
      (read s.scanIdx).IsReady ∧ (s.foundReady = true → Beats read s.scanIdx s.bestTaskId) := by
  unfold takes Beats Tcb.IsReady
  rw [ht]
  cases hf : s.foundReady with
  | false => simp
  | true =>
    obtain ⟨hlt, -, hp⟩ := h.ready hf
    simp only [Bool.not_true, Bool.false_or, Bool.and_eq_true, Bool.or_eq_true, beq_iff_eq, decide_eq_true_eq, hp,
      forall_const]
    constructor
    · rintro ⟨h1, h2 | ⟨h2, h3⟩⟩
      · exact ⟨h1, Or.inl h2⟩
      · exact ⟨h1, Or.inr ⟨h2.symm, h3⟩⟩
    · rintro ⟨h1, h2 | ⟨h2, h3⟩⟩
      · exact ⟨h1, Or.inl h2⟩
      · exact ⟨h1, Or.inr ⟨h2.symm, h3⟩⟩

/-- what a cycle of the scan does to the record of the best entry -/
theorem scan_next (hs : s.state = .scan) (trigger : Bool) (current : TaskId) :
    (s.step trigger current t).foundReady = (s.foundReady || s.takes t) ∧
      (s.step trigger current t).bestTaskId = (if s.takes t then s.scanIdx else s.bestTaskId) ∧
      (s.step trigger current t).bestPrio = (if s.takes t then (t s.scanIdx).prioLevel else s.bestPrio) := by
  simp only [step, hs]
  cases s.takes t <;> by_cases h15 : s.scanIdx = 15 <;> simp [h15]

/-- an entry up to the index is one before it or the one under it -/
theorem lt_or_eq_of_lt_succ {x j : TaskId} (hj : j.val < x.val + 1) : j.val < x.val ∨ j = x := by
  rcases Nat.lt_succ_iff_lt_or_eq.1 hj with hj | hj
  · exact Or.inl hj
  · exact Or.inr (Fin.ext hj)

theorem bestOf_taken (h : BestOf read s.scanIdx.val s) (ht : t s.scanIdx = read s.scanIdx) (hs : s.state = .scan)
    (hk : s.takes t = true) (trigger : Bool) (current : TaskId) :
    BestOf read (s.scanIdx.val + 1) (s.step trigger current t) := by
  obtain ⟨hfound, hid, hprio⟩ := scan_next (t := t) hs trigger current
  obtain ⟨hready, hbeats⟩ := (takes_iff h ht).1 hk
  rw [hk, if_pos rfl] at hid hprio
  refine ⟨?_, fun _ => ?_, fun _ j hj hr hne => ?_⟩
  · rw [hfound, hk, Bool.or_true]
    exact ⟨fun _ => ⟨s.scanIdx, Nat.lt_succ_self _, hready⟩, fun _ => rfl⟩
  · rw [hid, hprio, ht]
    exact ⟨Nat.lt_succ_self _, hready, rfl⟩
  · rw [hid] at hne ⊢
    have hlt := (lt_or_eq_of_lt_succ hj).resolve_right hne
    have hf : s.foundReady = true := h.found.2 ⟨j, hlt, hr⟩
    by_cases hjb : j = s.bestTaskId
    · rw [hjb]
      exact hbeats hf
    · exact (hbeats hf).trans (h.best hf j hlt hr hjb)

theorem bestOf_kept (h : BestOf read s.scanIdx.val s) (ht : t s.scanIdx = read s.scanIdx) (hs : s.state = .scan)
    (hk : s.takes t = false) (trigger : Bool) (current : TaskId) :
    BestOf read (s.scanIdx.val + 1) (s.step trigger current t) := by
  obtain ⟨hfound, hid, hprio⟩ := scan_next (t := t) hs trigger current
  have hnot : ¬ ((read s.scanIdx).IsReady ∧ (s.foundReady = true → Beats read s.scanIdx s.bestTaskId)) := by
    rw [← takes_iff h ht, hk]
    decide
  simp only [hk, Bool.or_false, Bool.false_eq_true, if_false] at hfound hid hprio
  refine ⟨?_, fun hf => ?_, fun hf j hj hr hne => ?_⟩
  · rw [hfound, h.found]
    constructor
    · rintro ⟨j, hj, hr⟩
      exact ⟨j, Nat.lt_succ_of_lt hj, hr⟩
    · rintro ⟨j, hj, hr⟩
      rcases lt_or_eq_of_lt_succ hj with hlt | rfl
      · exact ⟨j, hlt, hr⟩
      · have hf : s.foundReady = true := by
          by_contra hc
          exact hnot ⟨hr, fun hf => absurd hf hc⟩
        exact h.found.1 hf
  · rw [hfound] at hf
    rw [hid, hprio]
    obtain ⟨h1, h2⟩ := h.ready hf
    exact ⟨Nat.lt_succ_of_lt h1, h2⟩
  · rw [hfound] at hf
    rw [hid] at hne ⊢
    rcases lt_or_eq_of_lt_succ hj with hlt | rfl
    · exact h.best hf j hlt hr hne
    · exact beats_of_not (fun hb => hnot ⟨hr, fun _ => hb⟩) (h.ready hf).1

/-- **One cycle of the scan** adds an entry. -/
theorem step_bestOf (h : BestOf read s.scanIdx.val s) (ht : t s.scanIdx = read s.scanIdx) (hs : s.state = .scan)
    (trigger : Bool) (current : TaskId) : BestOf read (s.scanIdx.val + 1) (s.step trigger current t) := by
  cases hk : s.takes t with
  | true => exact bestOf_taken h ht hs hk trigger current
  | false => exact bestOf_kept h ht hs hk trigger current

end Step

end TaskScheduler

namespace HwRtos

section Run

variable {ins : ℕ → RtosIn} {t : ℕ}

structure ScanStarts (ins : ℕ → RtosIn) (t : ℕ) : Prop where
  waits : (stateAt ins t).fsmState = .scanReady
  rests : (stateAt ins t).sched.state = .idle
  trigger : (stateAt ins t).schedTrigger = true

/-- entry `j` as the scan that starts in cycle `t` reads it -/
def readAt (ins : ℕ → RtosIn) (t : ℕ) (j : TaskId) : Tcb := (stateAt ins (t + 1 + j.val)).tcb j

theorem sched_succ (ins : ℕ → RtosIn) (n : ℕ) : (stateAt ins (n + 1)).sched =
    (stateAt ins n).sched.step (stateAt ins n).schedTrigger (stateAt ins n).currentTaskIdR (stateAt ins n).tcb := rfl

theorem scanReady_succ {n : ℕ} (hf : (stateAt ins n).fsmState = .scanReady) (hd : (stateAt ins n).sched.state ≠ .done) :
    (stateAt ins (n + 1)).fsmState = .scanReady := by
  change (stateAt ins n).fsmNext (ins n) = _
  simp [fsmNext, hf, TaskScheduler.done, hd]

/-- the entry under the index is read, and added to the ones before it -/
theorem scan_adds {x : ℕ} (hs : (stateAt ins (t + 1 + x)).sched.state = .scan)
    (hidx : (stateAt ins (t + 1 + x)).sched.scanIdx.val = x)
    (hbest : TaskScheduler.BestOf (readAt ins t) x (stateAt ins (t + 1 + x)).sched) :
    TaskScheduler.BestOf (readAt ins t) (x + 1) (stateAt ins (t + 1 + x + 1)).sched := by
  have hread : (stateAt ins (t + 1 + x)).tcb (stateAt ins (t + 1 + x)).sched.scanIdx =
      readAt ins t (stateAt ins (t + 1 + x)).sched.scanIdx := by
    rw [readAt, hidx]
  have hbest' : TaskScheduler.BestOf (readAt ins t) (stateAt ins (t + 1 + x)).sched.scanIdx.val
      (stateAt ins (t + 1 + x)).sched := by
    rw [hidx]
    exact hbest
  have hnext := TaskScheduler.step_bestOf hbest' hread hs (stateAt ins (t + 1 + x)).schedTrigger
    (stateAt ins (t + 1 + x)).currentTaskIdR
  rw [hidx] at hnext
  exact hnext

/-- **A scan, cycle by cycle**: the entry under the index, and the best one of those before it. -/
theorem scan_run (h : ScanStarts ins t) (x : ℕ) (hx : x < 16) :
    (stateAt ins (t + 1 + x)).fsmState = .scanReady ∧ (stateAt ins (t + 1 + x)).sched.state = .scan ∧
      (stateAt ins (t + 1 + x)).sched.scanIdx.val = x ∧
      TaskScheduler.BestOf (readAt ins t) x (stateAt ins (t + 1 + x)).sched := by
  induction x with
  | zero =>
    refine ⟨scanReady_succ h.waits (by rw [h.rests]; decide), ?_, ?_, ?_⟩
    · rw [Nat.add_zero, sched_succ]
      simp [TaskScheduler.step, h.rests, h.trigger]
    · rw [Nat.add_zero, sched_succ]
      simp [TaskScheduler.step, h.rests, h.trigger]
    · rw [Nat.add_zero, sched_succ]
      constructor <;> simp [TaskScheduler.step, h.rests, h.trigger]
  | succ x ih =>
    obtain ⟨hf, hs, hidx, hbest⟩ := ih (by omega)
    have h15 : (stateAt ins (t + 1 + x)).sched.scanIdx ≠ 15 := by
      intro hc
      rw [hc] at hidx
      change 15 = x at hidx
      omega
    have hnext := scan_adds hs hidx hbest
    rw [← Nat.add_assoc]
    refine ⟨scanReady_succ hf (by rw [hs]; decide), ?_, ?_, hnext⟩
    · rw [sched_succ]
      simp only [TaskScheduler.step, hs, h15, if_false]
      split_ifs <;> simp [hs]
    · rw [sched_succ]
      simp only [TaskScheduler.step, hs, h15, if_false]
      have hlast : (stateAt ins (t + 1 + x)).sched.scanIdx ≠ Fin.last 15 := h15
      rw [Fin.val_add_one, if_neg hlast, hidx]

theorem scan_ends (h : ScanStarts ins t) :
    (stateAt ins (t + 17)).fsmState = .scanReady ∧ (stateAt ins (t + 17)).sched.state = .preempt ∧
      TaskScheduler.BestOf (readAt ins t) 16 (stateAt ins (t + 17)).sched := by
  obtain ⟨hf, hs, hidx, hbest⟩ := scan_run h 15 (by decide)
  have h15 : (stateAt ins (t + 1 + 15)).sched.scanIdx = 15 := Fin.ext hidx
  have hnext := scan_adds hs hidx hbest
  rw [show t + 17 = t + 1 + 15 + 1 by omega]
  refine ⟨scanReady_succ hf (by rw [hs]; decide), ?_, hnext⟩
  rw [sched_succ]
  simp only [TaskScheduler.step, hs, h15, if_true]

/-- while the FSM waits for the scheduler, the current task stays what it was -/
theorem scanReady_current {m n : ℕ} (hmn : m ≤ n) (hf : ∀ l, m ≤ l → l < n → (stateAt ins l).fsmState = .scanReady) :
    (stateAt ins n).currentTaskIdR = (stateAt ins m).currentTaskIdR ∧
      (stateAt ins n).taskActiveR = (stateAt ins m).taskActiveR := by
  induction n, hmn using Nat.le_induction with
  | base => exact ⟨rfl, rfl⟩
  | succ n hmn ih =>
    obtain ⟨h1, h2⟩ := ih fun l hl1 hl2 => hf l hl1 (by omega)
    have hs := hf n hmn (Nat.lt_succ_self n)
    rw [stateAt_succ]
    constructor
    · simp [step, currentTaskIdNext, hs, h1]
    · simp [step, taskActiveNext, hs, h2]

/-- the FSM waits through the scan -/
theorem scan_waits (h : ScanStarts ins t) (l : ℕ) (h1 : t ≤ l) (h2 : l < t + 18) :
    (stateAt ins l).fsmState = .scanReady := by
  rcases Nat.eq_or_lt_of_le h1 with rfl | hlt
  · exact h.waits
  · rcases Nat.lt_or_ge l (t + 17) with h3 | h3
    · have hscan := (scan_run h (l - (t + 1)) (by omega)).1
      rw [show t + 1 + (l - (t + 1)) = l by omega] at hscan
      exact hscan
    · rw [show l = t + 17 by omega]
      exact (scan_ends h).1

/-- the FSM goes on in the cycle behind `SCHED_DONE` -/
theorem scan_leaves {n : ℕ} (hf : (stateAt ins n).fsmState = .scanReady) (hd : (stateAt ins n).sched.state = .done) :
    (stateAt ins (n + 1)).fsmState = .comparePriority ∧
      (stateAt ins (n + 1)).sched.nextTaskIdReg = (stateAt ins n).sched.nextTaskIdReg := by
  constructor
  · change (stateAt ins n).fsmNext (ins n) = _
    simp [fsmNext, hf, TaskScheduler.done, hd]
  · rw [sched_succ]
    simp [TaskScheduler.step, hd]

/-- **What the FSM finds** in `S_COMPARE_PRIORITY`: the best task if it preempts, the current one otherwise. -/
theorem scan_result (h : ScanStarts ins t) : ∃ d, t < d ∧ (stateAt ins d).fsmState = .comparePriority ∧
    (∀ l, t ≤ l → l < d → (stateAt ins l).fsmState = .scanReady) ∧
    (stateAt ins d).sched.nextTaskIdReg =
      if (stateAt ins (t + 17)).sched.preempts (stateAt ins t).currentTaskIdR (stateAt ins (t + 17)).tcb then
        (stateAt ins (t + 17)).sched.bestTaskId
      else (stateAt ins t).currentTaskIdR := by
  obtain ⟨hf17, hs17, -⟩ := scan_ends h
  have hf18 : (stateAt ins (t + 18)).fsmState = .scanReady := scanReady_succ hf17 (by rw [hs17]; decide)
  have hwaits (l : ℕ) (h1 : t ≤ l) (h2 : l < t + 19) : (stateAt ins l).fsmState = .scanReady := by
    rcases Nat.lt_succ_iff_lt_or_eq.1 h2 with h3 | rfl
    · exact scan_waits h l h1 h3
    · exact hf18
  obtain ⟨hcur, -⟩ := scanReady_current (m := t) (n := t + 17) (by omega) fun l h1 h2 => hwaits l h1 (by omega)
  have hstep := sched_succ ins (t + 17)
  rw [show t + 17 + 1 = t + 18 by omega, hcur] at hstep
  by_cases hp : (stateAt ins (t + 17)).sched.preempts (stateAt ins t).currentTaskIdR (stateAt ins (t + 17)).tcb = true
  · -- by way of `SCHED_SWITCH`
    have h18 : (stateAt ins (t + 18)).sched.state = .switch ∧
        (stateAt ins (t + 18)).sched.nextTaskIdReg = (stateAt ins (t + 17)).sched.bestTaskId := by
      rw [hstep]
      simp [TaskScheduler.step, hs17, hp]
    have h19 : (stateAt ins (t + 19)).sched.state = .done ∧
        (stateAt ins (t + 19)).sched.nextTaskIdReg = (stateAt ins (t + 17)).sched.bestTaskId := by
      rw [show t + 19 = t + 18 + 1 by omega, sched_succ]
      simp [TaskScheduler.step, h18.1, h18.2]
    have hf19 : (stateAt ins (t + 19)).fsmState = .scanReady := scanReady_succ hf18 (by rw [h18.1]; decide)
    obtain ⟨h1, h2⟩ := scan_leaves hf19 h19.1
    refine ⟨t + 20, by omega, h1, fun l hl1 hl2 => ?_, ?_⟩
    · rcases Nat.lt_succ_iff_lt_or_eq.1 hl2 with h3 | rfl
      · exact hwaits l hl1 h3
      · exact hf19
    · rw [h2, h19.2, if_pos hp]
  · have h18 : (stateAt ins (t + 18)).sched.state = .done ∧
        (stateAt ins (t + 18)).sched.nextTaskIdReg = (stateAt ins t).currentTaskIdR := by
      rw [hstep]
      simp [TaskScheduler.step, hs17, hp]
    obtain ⟨h1, h2⟩ := scan_leaves hf18 h18.1
    refine ⟨t + 19, by omega, h1, hwaits, ?_⟩
    rw [h2, h18.2, if_neg hp]

/-- the entry of a created task stays, until it is read, what it is when the scan starts -/
theorem scan_keeps (h : ScanStarts ins t) {j : TaskId} (hj : j ≠ 0) (hc : (stateAt ins t).create = none)
    (hd : (stateAt ins t).delete = none) (x : ℕ) (hx : x < 17) :
    ((stateAt ins (t + 1 + x)).tcb j).valid = ((stateAt ins t).effective j).valid ∧
      ((stateAt ins (t + 1 + x)).tcb j).state = ((stateAt ins t).effective j).state := by
  induction x with
  | zero =>
    have hc' : ∀ a, (stateAt ins t).create ≠ some (j, a) := by simp [hc]
    have hd' : (stateAt ins t).delete ≠ some j := by simp [hd]
    exact tcb_step_of_ne_zero (phased_run ins t) hj hc' hd'
  | succ x ih =>
    obtain ⟨hv, hst⟩ := ih (by omega)
    have hbusy : (stateAt ins (t + 1 + x)).sched.state ≠ .idle := by
      rw [(scan_run h x (by omega)).2.1]
      decide
    have hp := phased_run ins (t + 1 + x)
    obtain ⟨-, hc', hd'⟩ := hp.quiet (Or.inl hbusy)
    obtain ⟨hv', hst'⟩ := tcb_step_of_ne_zero hp hj (by simp [hc']) (by simp [hd'])
    rw [effective_of_quiet hp (Or.inl hbusy)] at hv' hst'
    exact ⟨hv'.trans hv, hst'.trans hst⟩

/-- so a task that is READY when the scan starts is READY when it is read -/
theorem stays_ready (h : ScanStarts ins t) {j : TaskId} (hj : j ≠ 0) (hc : (stateAt ins t).create = none)
    (hd : (stateAt ins t).delete = none) (hr : ((stateAt ins t).effective j).IsReady) (x : ℕ) (hx : x < 17) :
    ((stateAt ins (t + 1 + x)).tcb j).IsReady := by
  obtain ⟨hv, hst⟩ := scan_keeps h hj hc hd x hx
  exact ⟨hv.trans hr.1, hst.trans hr.2⟩

/-! ## What starts a scan -/

structure AcceptsYield (s : HwRtos) (i : RtosIn) : Prop where
  idle : s.fsmState = .idle
  pending : s.taskCreatePending = false
  enabled : i.schedulerEn = true
  create : i.taskCreate = false
  exit : i.taskExit = false
  join : i.taskJoin = false
  yield : i.taskYield = true
  active : s.taskActiveR = true

/-- **A yield that is accepted** marks the task and starts a scan two cycles later. -/
theorem yield_starts (h : AcceptsYield (stateAt ins t) (ins t)) :
    (stateAt ins (t + 1)).fsmState = .scanReady ∧
      (stateAt ins (t + 1)).stateWr = some ((stateAt ins t).currentTaskIdR, .ready) ∧ ScanStarts ins (t + 2) := by
  obtain ⟨hf, hp, he, hc, hx, hj, hy, ha⟩ := h
  obtain ⟨hsched, htrig⟩ := sched_rests (phased_run ins t).scanning (by rw [hf]; decide)
  have hf1 : (stateAt ins (t + 1)).fsmState = .scanReady := by
    change (stateAt ins t).fsmNext (ins t) = _
    simp [fsmNext, hf, hp, he, hc, hx, hj, hy]
  have hs1 : (stateAt ins (t + 1)).sched.state = .idle := by
    simp [sched_succ, TaskScheduler.step, hsched, htrig]
  have ht1 : (stateAt ins (t + 1)).schedTrigger = false := by
    simp [stateAt_succ, step, schedTriggerNext, hf]
  refine ⟨hf1, ?_, scanReady_succ hf1 (by rw [hs1]; decide), ?_, ?_⟩
  · simp [stateAt_succ, step, stateWrNext, hf, he, hc, hx, hj, hy, ha]
  · rw [show t + 2 = t + 1 + 1 by omega, sched_succ]
    simp [TaskScheduler.step, hs1, ht1]
  · rw [show t + 2 = t + 1 + 1 by omega, stateAt_succ]
    simp [step, schedTriggerNext, hf1, TaskScheduler.busy, TaskScheduler.done, hs1]

/-- the pulses behind a cycle in `S_SCAN_READY` -/
theorem quiet_of_scanReady (hf : (stateAt ins t).fsmState = .scanReady) :
    (stateAt ins (t + 1)).stateWr = none ∧ (stateAt ins (t + 1)).create = none ∧ (stateAt ins (t + 1)).delete = none :=
  scanReady_quiet (i := ins t) hf

/-- a state write outranks the other writes of the cycle -/
theorem state_of_stateWr {j : TaskId} {st : TaskState} (hw : (stateAt ins t).stateWr = some (j, st)) :
    ((stateAt ins (t + 1)).tcb j).state = st := by
  change ((stateAt ins t).tcb.step (stateAt ins t).tcbPorts j).state = _
  rw [TcbArray.step_state, tcbPorts, hw]
  simp [Tcb.stateWrite]

end Run

end HwRtos

end Vsync
