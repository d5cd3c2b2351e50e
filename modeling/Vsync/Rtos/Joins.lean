/-
Joins.

`S_TASK_EXIT` loops over the join records and puts each joiner of the exiting task in the one wake register, so that the
last one stays. The exit goes on through `S_DISPATCH`, which clears the flag. A joiner gets its READY write only from a
wake event that `S_UNBLOCK_TASK` reaches first.

- `Joined`: a task blocked in `S_TASK_JOIN` on the current one.
- `joined_run`: a joiner sleeps until a READY write of its own.
- `joiners_woken_iff`: the joiners are woken exactly when each one gets a wake event that the FSM serves.
- `join_never_woken`: the only joiner of a task that exits is not woken.
-/
import Vsync.Rtos.Blocked

namespace Vsync.HwRtos

/-- task `j` is blocked in `S_TASK_JOIN` on the current task. Entry 0 is never given to a task. -/
structure Joined (s : HwRtos) (j : TaskId) : Prop where
  record : s.joinValid j = true ∧ s.joinTarget j = s.currentTaskIdR
  other : j ≠ s.currentTaskIdR
  created : j ≠ 0
  blocked : (s.tcb j).IsBlocked

structure Rests (s : HwRtos) (i : RtosIn) : Prop where
  idle : s.fsmState = .idle
  task : i.taskCreate = false ∧ s.taskCreatePending = false ∧ i.taskExit = false ∧ i.taskJoin = false ∧
    i.taskYield = false
  object : objRequest i = none
  pending : s.timerTickPending = false ∧ s.needReschedule = false

instance (s : HwRtos) (j : TaskId) : Decidable (s.Joined j) :=
  decidable_of_iff ((s.joinValid j = true ∧ s.joinTarget j = s.currentTaskIdR) ∧ j ≠ s.currentTaskIdR ∧ j ≠ 0 ∧
    (s.tcb j).IsBlocked) ⟨fun h => ⟨h.1, h.2.1, h.2.2.1, h.2.2.2⟩, fun h => ⟨h.1, h.2, h.3, h.4⟩⟩

instance (s : HwRtos) (i : RtosIn) : Decidable (s.Rests i) :=
  decidable_of_iff (s.fsmState = .idle ∧ (i.taskCreate = false ∧ s.taskCreatePending = false ∧ i.taskExit = false ∧
    i.taskJoin = false ∧ i.taskYield = false) ∧ objRequest i = none ∧ s.timerTickPending = false ∧
      s.needReschedule = false)
    ⟨fun h => ⟨h.1, h.2.1, h.2.2.1, h.2.2.2⟩, fun h => ⟨h.1, h.2, h.3, h.4⟩⟩

section Step

variable {s : HwRtos} {i : RtosIn} {j : TaskId}

/-- the boost does not take a created task out of BLOCKED -/
theorem tcb_blocked_of_created (hp : Phased s) (hj : j ≠ 0) (hb : (s.effective j).IsBlocked) :
    (s.tcb.step s.tcbPorts j).IsBlocked := by
  have hdelete : s.delete ≠ some j := by
    intro hd
    have hv := hb.1
    rw [effective_valid, hd] at hv
    simp [Tcb.delete] at hv
  have hcreate : ∀ a, s.create ≠ some (j, a) := by
    intro a hc
    have hst := (hp.creates (by rw [hc]; simp)).2
    have hready := hb.2
    rw [effective, Tcb.delete_of_ne j _ hdelete, hst, hc] at hready
    simp [Tcb.create] at hready
  obtain ⟨hv, hst⟩ := tcb_step_of_ne_zero hp hj hcreate hdelete
  unfold Tcb.IsBlocked
  rw [hv, hst]
  exact hb

/-- a task is asleep while another one exits -/
theorem asleep_of_exit (hp : Phased s) (hf : s.fsmState = .taskExit) (hj : j ≠ s.currentTaskIdR) : Asleep s j := by
  have hidle := (sched_rests hp.scanning (by simp [hf])).1
  constructor
  · intro _
    exact hj.symm
  · intro h
    simp [hf, Switching] at h
  · intro h
    simp [hf, hidle] at h
  · intro h
    simp [hidle] at h

/-- a sleeping task that is not the current one is not dispatched -/
theorem current_of_asleep (h : Asleep s j) (hc : s.currentTaskIdR ≠ j) : (s.step i).currentTaskIdR ≠ j := by
  simp only [step, currentTaskIdNext]
  split_ifs with hf
  · exact h.ahead (Or.inr (Or.inr hf))
  · exact hc

/-- **A join on an invalid id returns**: the task is not blocked. -/
theorem join_invalid (hf : s.fsmState = .taskJoin) (hv : (s.tcb i.taskTargetId).valid = false) :
    s.stateWrNext i = none ∧ (s.step i).taskActiveR = s.taskActiveR ∧ (s.step i).taskJoinDone = true := by
  have hj : s.joinBlocks i = false := by simp [joinBlocks, hv]
  simp [stateWrNext, step, taskActiveNext, taskJoinDoneNext, hf, hj]

end Step

section Run

variable (ins : ℕ → RtosIn)

/-- task `j` gets a READY or RUNNING write between cycle `k` and cycle `r` -/
def Awoken (k r : ℕ) (j : TaskId) : Prop :=
  ∃ m, k < m ∧ m < r ∧
    ((stateAt ins m).stateWrNext (ins m) = some (j, .ready) ∨ (stateAt ins m).stateWrNext (ins m) = some (j, .running))

/-- a wake event of `j`, from cycle `k` on, that the wake register takes and that the FSM serves before cycle `r`: it
comes to `S_UNBLOCK_TASK` before it dispatches and before another event -/
def WakeServed (k r : ℕ) (j : TaskId) : Prop :=
  ∃ e m, k ≤ e ∧ e < m ∧ m < r ∧ ¬ (stateAt ins e).ClearsWake ∧ (stateAt ins e).latchedId = some j ∧
    (stateAt ins m).fsmState = .unblockTask ∧
    ∀ l, e < l → l < m → (stateAt ins l).fsmState ≠ .dispatch ∧ (stateAt ins l).fsmState ≠ .unblockTask ∧
      (stateAt ins l).latchedId = none

/-- the next cycle after cycle `k` in which the FSM rests -/
structure NextRest (k r : ℕ) : Prop where
  after : k < r
  rests : (stateAt ins r).Rests (ins r)
  first : ∀ l, k < l → l < r → ¬ (stateAt ins l).Rests (ins l)

/-- what a join promises for the exit in cycle `k`: the tasks of `J`, which have joined the exiting one, are READY or
RUNNING again when the FSM next rests, and no task is blocked by a join on an invalid id -/
structure JoinsKept (k : ℕ) (J : Set TaskId) : Prop where
  woken : ∀ r, NextRest ins k r → ∀ j ∈ J, Awoken ins k r j
  invalid : ∀ n, (stateAt ins n).fsmState = .taskJoin → ((stateAt ins n).tcb (ins n).taskTargetId).valid = false →
    (stateAt ins n).stateWrNext (ins n) = none ∧ (stateAt ins (n + 1)).taskActiveR = (stateAt ins n).taskActiveR

variable {ins} {k : ℕ} {j : TaskId}

/-- **A joiner sleeps** after the exit until a READY write of its own. -/
theorem joined_run {m : ℕ} (hx : (stateAt ins k).exits = true) (hj : Joined (stateAt ins k) j) (hkm : k ≤ m)
    (hno : ∀ l, k < l → l < m → (stateAt ins l).stateWrNext (ins l) ≠ some (j, .ready)) :
    Asleep (stateAt ins m) j ∧ (stateAt ins m).currentTaskIdR ≠ j ∧ ((stateAt ins m).effective j).IsBlocked := by
  have hf : (stateAt ins k).fsmState = .taskExit := by
    simp only [exits, Bool.and_eq_true, beq_iff_eq] at hx
    exact hx.1
  induction m, hkm using Nat.le_induction with
  | base =>
    refine ⟨asleep_of_exit (phased_run ins k) hf hj.other, hj.other.symm, ?_⟩
    rw [effective_of_quiet (phased_run ins k) (Or.inr (Or.inr hf))]
    exact hj.blocked
  | succ m hkm ih =>
    obtain ⟨hs, hc, hb⟩ := ih fun l h1 h2 => hno l h1 (by omega)
    have hp := phased_run ins m
    have ht := tcb_blocked_of_created hp hj.created hb
    rw [stateAt_succ]
    refine ⟨step_asleep (ins m) hs hp hb fun hfs _ _ hn => ?_, current_of_asleep hs hc, ?_⟩
    · -- the scheduler falls back to the current task only
      exact hc (hs.choice (Or.inl hfs) hn).2
    · rcases leaves_blocked (ins m) hs hp ht hb.1 with h | ⟨hst, hun, -⟩
      · exact h
      · rcases Nat.eq_or_lt_of_le hkm with rfl | hlt
        · rw [hf] at hun
          exact absurd hun (by decide)
        · exact absurd hst (hno m hlt (Nat.lt_succ_self m))

/-- an exit with a joiner puts a joiner in the wake register -/
theorem latched_of_exit {s : HwRtos} (hx : s.exits = true) (hj : Joined s j) : s.latchedId ≠ none := by
  have hmem : j ∈ s.joiners := by
    simp [joiners, hj.record]
  exact fun h => latchedId_eq_none.1 h j (Or.inr (Or.inr (Or.inr ⟨hx, hmem⟩)))

/-- **A joiner is woken exactly when** it gets a wake event that the FSM serves. -/
theorem awoken_iff {r : ℕ} (hx : (stateAt ins k).exits = true) (hj : Joined (stateAt ins k) j) :
    Awoken ins k r j ↔ WakeServed ins k r j := by
  constructor
  · intro hawoken
    classical
    -- the first write after the exit
    obtain ⟨h1, h2, h3⟩ := Nat.find_spec hawoken
    have hmin := fun l => Nat.find_min (m := l) hawoken
    generalize Nat.find hawoken = m at h1 h2 h3 hmin
    have hno (l : ℕ) (hl1 : k < l) (hl2 : l < m) : (stateAt ins l).stateWrNext (ins l) ≠ some (j, .ready) := by
      intro hw
      exact hmin l hl2 ⟨hl1, by omega, Or.inl hw⟩
    obtain ⟨hs, -, -⟩ := joined_run hx hj h1.le hno
    have hun : (stateAt ins m).fsmState = .unblockTask ∧ (stateAt ins m).wakePending = true ∧
        (stateAt ins m).wakeTargetId = j := by
      rcases h3 with h3 | h3
      · rcases pulse_of_asleep hs h3 with hc | ⟨-, hu⟩
        · exact absurd hc (by decide)
        · exact hu
      · rcases pulse_of_asleep hs h3 with hc | ⟨hc, -⟩
        · exact absurd hc (by decide)
        · exact absurd hc (by decide)
    obtain ⟨hf, hpend, htgt⟩ := hun
    obtain ⟨e, he, hl, hkept, hq⟩ := wake_source ins m hpend
    rw [htgt] at hl
    have hke : k ≤ e := by
      by_contra hlt
      exact latched_of_exit hx hj (hq k (by omega) h1).2
    have hlatched := (latched_iff (wakes_of_latchedId hl)).2 ⟨hkept, hl⟩
    exact ⟨e, m, hke, he, h2, hkept, hl, hf, not_cleared_run hlatched hq⟩
  · rintro ⟨e, m, hke, hem, hmr, hkept, hl, hf, hq⟩
    have hlatched := (latched_iff (wakes_of_latchedId hl)).2 ⟨hkept, hl⟩
    have hrun := latched_run hem hlatched fun l h1 h2 => by
      obtain ⟨hd, hu, hn⟩ := hq l h1 h2
      refine ⟨?_, hn⟩
      rintro ⟨h | h, -⟩
      · exact hd h
      · exact hu h
    exact ⟨m, by omega, hmr, Or.inl (readies_iff.2 (Or.inl ⟨hf, hrun⟩))⟩

end Run

/-- **The joiners of a task that exits are woken exactly when** each one gets a wake event that the FSM serves before it
rests. -/
theorem joiners_woken_iff (ins : ℕ → RtosIn) (k : ℕ) (J : Set TaskId) (hx : (stateAt ins k).exits = true)
    (hJ : ∀ j ∈ J, Joined (stateAt ins k) j) :
    JoinsKept ins k J ↔ ∀ r, NextRest ins k r → ∀ j ∈ J, WakeServed ins k r j := by
  constructor
  · intro h r hr j hj
    exact (awoken_iff hx (hJ j hj)).1 (h.woken r hr j hj)
  · intro h
    refine ⟨fun r hr j hj => (awoken_iff hx (hJ j hj)).2 (h r hr j hj), fun n hf hv => ?_⟩
    obtain ⟨h1, h2, -⟩ := join_invalid hf hv
    exact ⟨h1, h2⟩

/-- tasks 1 and 2 again: task 1 waits at semaphore 0, is dispatched for want of another one, and joins task 2; behind
the exit of task 2 comes a post -/
def joinPostRun (k : ℕ) : RtosIn :=
  { RtosIn.quiet with
    taskCreate := k == 0 || k == 60
    createArgs := if k < 30 then ⟨0x100, 0x800, 2⟩ else ⟨0x200, 0x900, 1⟩
    semOp := if k = 30 then 0b10 else if k = 144 then 0b11 else 0
    taskJoin := k == 90
    taskTargetId := 2
    taskExit := k == 120 }

/-- task 2 exits in cycle 121; the FSM does not rest before the post is served, and only task 1 has waited -/
theorem joinPostRun_exit : (stateAt joinPostRun 121).exits = true ∧ Joined (stateAt joinPostRun 121) 1 ∧
    (∀ l < 147, 121 < l → ¬ (stateAt joinPostRun l).Rests (joinPostRun l)) ∧
    (∀ k < 145, (stateAt joinPostRun k).semOpInt = 0b10 → (stateAt joinPostRun k).currentTaskIdR = 1) ∧
    (stateAt joinPostRun 145).semIdInt = 0 ∧ (stateAt joinPostRun 145).sem.obj.waitMask 0 1 = true ∧
    (stateAt joinPostRun 145).semOpInt = 0b11 ∧ (stateAt joinPostRun 146).fsmState = .blockTask ∧
    (stateAt joinPostRun 146).semOpPending = true := by
  decide +kernel

/-- the post behind the exit wakes the joiner before the FSM rests -/
theorem joiner_woken_post : JoinsKept joinPostRun 121 {1} := by
  obtain ⟨hexits, hjoined, hbusy, hwaits, hid, hmask, hop, hblock, hpending⟩ := joinPostRun_exit
  refine (joiners_woken_iff joinPostRun 121 {1} hexits fun j hj => ?_).2 fun r hr j hj => ?_
  · rw [hj]
    exact hjoined
  · rw [← hid] at hmask
    obtain ⟨w, hw, k, hk, hwait, hcur⟩ := post_wakes hop hmask
    have hone : w = 1 := by rw [← hcur, hwaits k hk hwait]
    rw [hone] at hw
    obtain ⟨hkept, hlatched, hnext⟩ := unblockTask_of_sem hblock rfl hpending hw
    refine ⟨146, 147, by decide, by decide, ?_, hkept, hj ▸ hlatched, hnext, fun l h1 h2 => by omega⟩
    by_contra hlt
    rcases Nat.lt_or_ge r 147 with h | h
    · exact hbusy r h hr.after hr.rests
    · have hidle := hr.rests.idle
      rw [show r = 147 by omega, hnext] at hidle
      exact SchedFsm.noConfusion hidle

/-- task 2 exits in cycle 91, and the FSM rests again in cycle 137 without a write for task 1 -/
theorem joinRun_exit : (stateAt joinRun 91).exits = true ∧ Joined (stateAt joinRun 91) 1 ∧
    (stateAt joinRun 137).Rests (joinRun 137) ∧
    ∀ l < 137, 91 < l → ¬ (stateAt joinRun l).Rests (joinRun l) ∧
      (stateAt joinRun l).stateWrNext (joinRun l) ≠ some (1, .ready) ∧
      (stateAt joinRun l).stateWrNext (joinRun l) ≠ some (1, .running) := by
  decide +kernel

/-- **The only joiner is not woken.** Task 2 exits in cycle 91; when the FSM rests again, in cycle 137, task 1 has got
no write. -/
theorem join_never_woken : (stateAt joinRun 91).exits = true ∧ Joined (stateAt joinRun 91) 1 ∧ NextRest joinRun 91 137 ∧
    ¬ JoinsKept joinRun 91 {1} := by
  obtain ⟨hexits, hjoined, hrests, hafter⟩ := joinRun_exit
  have hrest : NextRest joinRun 91 137 := ⟨by decide, hrests, fun l h1 h2 => (hafter l h2 h1).1⟩
  refine ⟨hexits, hjoined, hrest, fun h => ?_⟩
  obtain ⟨m, h1, h2, hw⟩ := h.woken 137 hrest 1 rfl
  obtain ⟨-, hready, hrunning⟩ := hafter m h2 h1
  rcases hw with hw | hw
  · exact hready hw
  · exact hrunning hw

end Vsync.HwRtos
