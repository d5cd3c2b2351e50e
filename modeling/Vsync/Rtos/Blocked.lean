/-
Blocked tasks.

A blocked task is asleep: it is not the active task, the FSM is not on the way to dispatch it, and no scan has taken it.
It stays so until `S_UNBLOCK_TASK` writes it READY for a wake of its own, unless `S_COMPARE_PRIORITY` dispatches it:
with nobody ready the scheduler falls back to the current id, and the current task may be the one that has just been
blocked.

- `Asleep`: what keeps a blocked task from running.
- `leaves_blocked`: a step of a sleeping task leaves it blocked or is the READY write of a wake.
- `blocked_run`: in a run of safe cycles every blocked task is asleep.
- `stays_blocked`: in such a run a blocked task leaves BLOCKED only by a wake addressed to it.
- `sole_task_redispatched`: a sole task that waits runs again at once.
-/
import Vsync.Rtos.CurrentTask
import Vsync.Rtos.Wakeups

namespace Vsync

/-- a valid entry in state `BLOCKED` -/
def Tcb.IsBlocked (e : Tcb) : Prop := e.valid = true ∧ e.state = .blocked

instance (e : Tcb) : Decidable e.IsBlocked := inferInstanceAs (Decidable (_ ∧ _))

namespace HwRtos

/-- the whole-entry write of a cycle, if there is one, does not change whether the entry it hits is a blocked one -/
def WriteKeepsBlocked (s : HwRtos) : Prop :=
  match s.tcbWr with
  | some (w, d) => (Tcb.stateWrite w d s.stateWr).IsBlocked ↔ (s.effective w).IsBlocked
  | none => True

def DispatchesAwake (s : HwRtos) : Prop :=
  s.fsmState = .comparePriority → s.taskActiveR = false → s.sched.nextTaskIdReg ≠ 0 →
    ¬ (s.tcb s.sched.nextTaskIdReg).IsBlocked

/-- the cycle reaches neither of the two defects -/
structure Safe (s : HwRtos) : Prop where
  write : s.WriteKeepsBlocked
  dispatch : s.DispatchesAwake

instance (s : HwRtos) : Decidable s.WriteKeepsBlocked := by
  unfold WriteKeepsBlocked
  rcases s.tcbWr with _ | ⟨w, d⟩ <;> infer_instance

instance (s : HwRtos) : Decidable s.DispatchesAwake := by unfold DispatchesAwake; infer_instance

instance (s : HwRtos) : Decidable s.Safe :=
  decidable_of_iff (s.WriteKeepsBlocked ∧ s.DispatchesAwake) ⟨fun h => ⟨h.1, h.2⟩, fun h => ⟨h.write, h.dispatch⟩⟩

/-- nothing is under way that makes task `j` run. The scheduler may have fallen back to `j` as the current task that is
no longer active. -/
structure Asleep (s : HwRtos) (j : TaskId) : Prop where
  current : s.taskActiveR = true → s.currentTaskIdR ≠ j
  ahead : s.fsmState = .preemptCheck ∨ Switching s.fsmState ∨ s.fsmState = .dispatch → s.nextTaskIdR ≠ j
  choice : s.fsmState = .comparePriority ∨ s.sched.state = .switch ∨ s.sched.state = .done → s.sched.nextTaskIdReg = j →
    s.taskActiveR = false ∧ s.currentTaskIdR = j
  found : s.sched.state = .scan ∨ s.sched.state = .preempt → s.sched.foundReady = true → s.sched.bestTaskId ≠ j

section Step

variable {s : HwRtos} {i : RtosIn} {j : TaskId}

/-! ## The entry after a cycle -/

/-- whether an entry is a blocked one survives the cycle -/
theorem tcb_step_blocked (hw : s.WriteKeepsBlocked) (j : TaskId) :
    (s.tcb.step s.tcbPorts j).IsBlocked ↔ (s.effective j).IsBlocked := by
  unfold Tcb.IsBlocked
  rw [TcbArray.step_valid, TcbArray.step_state, effective_valid, effective, tcbPorts]
  have hplain : (Tcb.stateWrite j (Tcb.delete j (Tcb.create j (s.tcb j).tick s.create) s.delete) s.stateWr).state =
      (Tcb.stateWrite j (Tcb.delete j (Tcb.create j (s.tcb j) s.create) s.delete) s.stateWr).state := by
    rcases s.stateWr with _ | ⟨x, st⟩
    · exact delete_create_tick_state (s.tcb j) j
    · simp only [Tcb.stateWrite]
      split_ifs
      · rfl
      · exact delete_create_tick_state (s.tcb j) j
  rcases hp : s.tcbWr with _ | ⟨w, d⟩
  · simp only [Tcb.write_none, delete_create_tick_valid, hplain]
  · simp only [WriteKeepsBlocked, hp] at hw
    simp only [Tcb.write]
    split_ifs with hj
    · subst hj
      unfold Tcb.IsBlocked at hw
      rw [effective_valid, Tcb.stateWrite_valid] at hw
      exact hw
    · simp only [delete_create_tick_valid, hplain]

/-- an entry is a blocked one after a cycle only if the cycle blocks it or it was one before -/
theorem blocked_of_step (hw : s.WriteKeepsBlocked) (hb : ((s.step i).effective j).IsBlocked) :
    s.stateWrNext i = some (j, .blocked) ∨ (s.effective j).IsBlocked := by
  by_cases hst : s.stateWrNext i = some (j, .blocked)
  · exact Or.inl hst
  · right
    rw [← tcb_step_blocked hw]
    unfold effective at hb
    simp only [step] at hb
    by_cases hw : ∃ st, s.stateWrNext i = some (j, st)
    · obtain ⟨st, hw⟩ := hw
      simp only [hw, Tcb.stateWrite, if_true] at hb
      exact absurd (hb.2 ▸ hw) hst
    · rw [Tcb.stateWrite_of_ne j _ fun st h => hw ⟨st, h⟩] at hb
      exact Tcb.of_create_delete j (by decide) hb.1 hb.2

theorem step_blocked (ht : (s.tcb.step s.tcbPorts j).IsBlocked)
    (hst : ∀ st, s.stateWrNext i = some (j, st) → st = .blocked)
    (hd : s.deleteNext ≠ some j) (hc : ∀ a, s.createNext i ≠ some (j, a)) : ((s.step i).effective j).IsBlocked := by
  have heff : (s.step i).effective j = Tcb.stateWrite j (s.tcb.step s.tcbPorts j) (s.stateWrNext i) := by
    simp only [effective, step]
    rw [Tcb.create_of_ne j _ hc, Tcb.delete_of_ne j _ hd]
  rw [heff]
  rcases hw : s.stateWrNext i with _ | ⟨x, st⟩
  · exact ht
  · simp only [Tcb.stateWrite]
    split_ifs with hx
    · rw [hx] at hw
      exact ⟨ht.1, hst st hw⟩
    · exact ht

/-- the boost writes its own entry or entry 0: any other entry is after the cycle what the pulses leave -/
theorem tcb_step_of_ne_zero (hp : Phased s) (hj : j ≠ 0) (hc : ∀ a, s.create ≠ some (j, a)) (hd : s.delete ≠ some j) :
    (s.tcb.step s.tcbPorts j).valid = (s.effective j).valid ∧
      (s.tcb.step s.tcbPorts j).state = (s.effective j).state := by
  have heff : s.effective j = Tcb.stateWrite j (s.tcb j) s.stateWr := by
    rw [effective, Tcb.create_of_ne j _ hc, Tcb.delete_of_ne j _ hd]
  have hwrite : (Tcb.write j (s.tcb j).tick s.tcbWr).valid = (s.tcb j).valid ∧
      (Tcb.write j (s.tcb j).tick s.tcbWr).state = (s.tcb j).state := by
    unfold tcbWr
    split_ifs
    · simp only [Tcb.write]
      split_ifs with hw
      · rw [hp.boosts, hw]
        exact ⟨rfl, rfl⟩
      · simp
    · simp [Tcb.write, hj.symm]
    · simp
  rw [heff, TcbArray.step_valid, TcbArray.step_state, tcbPorts]
  simp only [Tcb.create_of_ne j _ hc, Tcb.delete_of_ne j _ hd]
  refine ⟨by rw [hwrite.1, Tcb.stateWrite_valid], ?_⟩
  rcases s.stateWr with _ | ⟨x, st⟩
  · exact hwrite.2
  · simp only [Tcb.stateWrite]
    split_ifs
    · rfl
    · exact hwrite.2

/-! ## A sleeping task -/

/-- while the scheduler works, the array is what its pulses leave -/
theorem effective_of_quiet (hp : Phased s)
    (hq : s.sched.state ≠ .idle ∨ s.fsmState = .comparePriority ∨ s.fsmState = .taskExit) (j : TaskId) :
    s.effective j = s.tcb j := by
  obtain ⟨h1, h2, h3⟩ := hp.quiet hq
  simp [effective, h1, h2, h3]

theorem asleep_current (h : Asleep s j) (ha : (s.step i).taskActiveR = true) : (s.step i).currentTaskIdR ≠ j := by
  rcases active_of_step ha with hf | ⟨hact, -, -, hc⟩
  · have hc : (s.step i).currentTaskIdR = s.nextTaskIdR := by simp [step, currentTaskIdNext, hf]
    rw [hc]
    exact h.ahead (Or.inr (Or.inr hf))
  · rw [hc]
    exact h.current hact

theorem asleep_ahead (h : Asleep s j) (hp : Phased s)
    (hd : s.fsmState = .comparePriority → s.taskActiveR = false → s.sched.nextTaskIdReg ≠ 0 → s.sched.nextTaskIdReg ≠ j)
    (hf : s.fsmNext i = .preemptCheck ∨ Switching (s.fsmNext i) ∨ s.fsmNext i = .dispatch) :
    (s.step i).nextTaskIdR ≠ j := by
  have hold : s.nextTaskIdR ≠ j ∧ s.fsmState ≠ .scanReady := by
    rcases hf with hf | hf | hf
    · obtain ⟨hfs, ha, -⟩ := fsmNext_preemptCheck hf
      rw [hp.comparing hfs]
      refine ⟨fun hj => ?_, by simp [hfs]⟩
      simp [(h.choice (Or.inl hfs) hj).1] at ha
    · rcases fsmNext_switching hf with ⟨hfs, -⟩ | hsw
      · exact ⟨h.ahead (Or.inl hfs), by simp [hfs]⟩
      · refine ⟨h.ahead (Or.inr (Or.inl hsw)), ?_⟩
        rcases hsw with hsw | hsw | hsw <;> simp [hsw]
    · rcases fsmNext_dispatch hf with ⟨hfs, ha, h0⟩ | ⟨hfs, ha, hc⟩ | ⟨hfs, -⟩
      · rw [hp.comparing hfs]
        exact ⟨hd hfs ha h0, by simp [hfs]⟩
      · rw [hp.comparing hfs, hc]
        exact ⟨h.current ha, by simp [hfs]⟩
      · exact ⟨h.ahead (Or.inr (Or.inl (Or.inr (Or.inr hfs)))), by simp [hfs]⟩
  have hn : (s.step i).nextTaskIdR = s.nextTaskIdR := by simp [step, nextTaskIdNext, hold.2]
  rw [hn]
  exact hold.1

theorem asleep_choice (h : Asleep s j) (hp : Phased s)
    (hf : s.fsmNext i = .comparePriority ∨ (s.step i).sched.state = .switch ∨ (s.step i).sched.state = .done)
    (hj : (s.step i).sched.nextTaskIdReg = j) :
    (s.step i).taskActiveR = false ∧ (s.step i).currentTaskIdR = j := by
  have hbusy : s.sched.state ≠ .idle := by
    intro hidle
    rcases hf with hf | hf
    · simpa [TaskScheduler.done, hidle] using (fsmNext_comparePriority hf).2
    · simp only [step, TaskScheduler.step, hidle] at hf
      split_ifs at hf <;> simp_all
  have hscan := hp.scanning (Or.inl hbusy)
  have hact : (s.step i).taskActiveR = s.taskActiveR := by simp [step, taskActiveNext, hscan]
  have hcur : (s.step i).currentTaskIdR = s.currentTaskIdR := by simp [step, currentTaskIdNext, hscan]
  rw [hact, hcur]
  cases hsc : s.sched.state with
  | idle => exact absurd hsc hbusy
  | scan =>
    exfalso
    rcases hf with hf | hf
    · simpa [TaskScheduler.done, hsc] using (fsmNext_comparePriority hf).2
    · simp only [step, TaskScheduler.step, hsc] at hf
      split_ifs at hf <;> simp_all
  | preempt =>
    simp only [step, TaskScheduler.step, hsc] at hj
    split_ifs at hj with hpre
    · -- the best candidate is ready, so it is not the sleeping one
      simp only [TaskScheduler.preempts, Bool.and_eq_true] at hpre
      exact absurd hj (h.found (Or.inr hsc) hpre.1.1)
    · refine ⟨?_, hj⟩
      by_contra ha
      exact h.current (by simpa using ha) hj
  | switch =>
    simp only [step, TaskScheduler.step, hsc] at hj
    exact h.choice (Or.inr (Or.inl hsc)) hj
  | done =>
    simp only [step, TaskScheduler.step, hsc] at hj
    exact h.choice (Or.inr (Or.inr hsc)) hj

theorem asleep_found (h : Asleep s j) (hp : Phased s) (hb : (s.effective j).IsBlocked)
    (hsc : (s.step i).sched.state = .scan ∨ (s.step i).sched.state = .preempt)
    (hf : (s.step i).sched.foundReady = true) : (s.step i).sched.bestTaskId ≠ j := by
  cases hst : s.sched.state with
  | idle =>
    exfalso
    simp only [step, TaskScheduler.step, hst] at hsc hf
    split_ifs at hsc hf
    all_goals simp_all
  | scan =>
    rw [effective_of_quiet hp (Or.inl (by simp [hst]))] at hb
    have hidx : s.sched.takes s.tcb = true → s.sched.scanIdx ≠ j := by
      intro ht hj
      simp only [TaskScheduler.takes, Bool.and_eq_true, beq_iff_eq, hj] at ht
      rw [hb.2] at ht
      exact absurd ht.1.2 (by decide)
    simp only [step, TaskScheduler.step, hst] at hf ⊢
    split_ifs at hf ⊢ with h15 ht ht
    · exact hidx ht
    · exact h.found (Or.inl hst) hf
    · exact hidx ht
    · exact h.found (Or.inl hst) hf
  | preempt =>
    exfalso
    simp only [step, TaskScheduler.step, hst] at hsc
    split_ifs at hsc <;> simp_all
  | switch =>
    exfalso
    simp only [step, TaskScheduler.step, hst] at hsc
    simp_all
  | done =>
    exfalso
    simp only [step, TaskScheduler.step, hst] at hsc
    simp_all

/-- **A blocked task sleeps on** unless it is dispatched directly. -/
theorem step_asleep (i : RtosIn) (h : Asleep s j) (hp : Phased s) (hb : (s.effective j).IsBlocked)
    (hd : s.fsmState = .comparePriority → s.taskActiveR = false → s.sched.nextTaskIdReg ≠ 0 →
      s.sched.nextTaskIdReg ≠ j) :
    Asleep (s.step i) j where
  current := asleep_current h
  ahead := asleep_ahead h hp hd
  choice := asleep_choice h hp
  found := asleep_found h hp hb

/-- a task is blocked as the current one, by an operation or a join, and the scheduler starts -/
theorem blocks_cases (h : s.stateWrNext i = some (j, .blocked)) :
    j = s.currentTaskIdR ∧ (s.fsmState = .blockTask ∨ s.fsmState = .taskJoin) ∧ s.taskActiveNext i = false ∧
      s.fsmNext i = .scanReady := by
  unfold stateWrNext at h
  cases hf : s.fsmState with
  | blockTask =>
    simp only [hf] at h
    split_ifs at h with hc
    simp only [Option.some.injEq, Prod.mk.injEq, and_true] at h
    exact ⟨h.symm, Or.inl rfl, by simp [taskActiveNext, hf, hc], blocksCurrent_next hc⟩
  | taskJoin =>
    simp only [hf] at h
    split_ifs at h with hc
    simp only [Option.some.injEq, Prod.mk.injEq, and_true] at h
    exact ⟨h.symm, Or.inr rfl, by simp [taskActiveNext, hf, hc], by simp [fsmNext, hf]⟩
  | _ =>
    simp only [hf] at h
    first | (split_ifs at h; done) | simp at h

theorem not_created (hp : Phased s) (hv : (s.effective j).valid = true) (a : CreateArgs) :
    s.createNext i ≠ some (j, a) := by
  intro hc
  have hf : s.fsmState = .taskCreate := createNext_ne_none (by rw [hc]; simp)
  have hcr : s.create = none := by
    by_contra hne
    have := (hp.creates hne).1
    rw [hf] at this
    exact absurd this (by decide)
  have hde : s.delete = none := by
    by_contra hne
    have := hp.deletes hne
    rw [hf] at this
    exact absurd this (by decide)
  simp only [createNext, hf, if_true, Option.map_eq_some_iff, Prod.mk.injEq] at hc
  obtain ⟨f, hfree, rfl, -⟩ := hc
  rw [effective_valid, hcr, hde, Tcb.create_none, Tcb.delete_none, (freeTask_some hfree).2] at hv
  exact absurd hv (by decide)

theorem not_deleted (h : Asleep s j) : s.deleteNext ≠ some j := by
  intro hd
  simp only [deleteNext] at hd
  split_ifs at hd with hx
  exact h.current hx.2 (by simpa using hd)

/-- a state pulse for a sleeping task blocks it again or serves a wake of its own -/
theorem pulse_of_asleep {st : TaskState} (h : Asleep s j) (hst : s.stateWrNext i = some (j, st)) :
    st = .blocked ∨ (st = .ready ∧ s.fsmState = .unblockTask ∧ s.wakePending = true ∧ s.wakeTargetId = j) := by
  cases st with
  | blocked => exact Or.inl rfl
  | ready =>
    rcases readies_iff.1 hst with hu | ⟨hact, hcur, -⟩
    · exact Or.inr ⟨rfl, hu⟩
    · exact absurd hcur (h.current hact)
  | running =>
    obtain ⟨hf, hj⟩ := stateWrNext_running hst
    exact absurd hj.symm (h.ahead (Or.inr (Or.inr hf)))
  | dormant =>
    have hx : s.fsmState = .taskExit ∧ s.taskActiveR = true ∧ s.currentTaskIdR = j := by
      unfold stateWrNext at hst
      split at hst <;> (try split_ifs at hst) <;> simp_all
    exact absurd hx.2.2 (h.current hx.2.1)
  | suspended =>
    unfold stateWrNext at hst
    split at hst <;> (try split_ifs at hst) <;> simp at hst

/-- **What may end a block**: the READY write of `S_UNBLOCK_TASK`, with the task in the wake register. -/
theorem leaves_blocked (i : RtosIn) (h : Asleep s j) (hp : Phased s) (ht : (s.tcb.step s.tcbPorts j).IsBlocked)
    (hv : (s.effective j).valid = true) :
    ((s.step i).effective j).IsBlocked ∨
      (s.stateWrNext i = some (j, .ready) ∧ s.fsmState = .unblockTask ∧ s.wakePending = true ∧ s.wakeTargetId = j) := by
  by_cases hst : s.stateWrNext i = some (j, .ready)
  · rcases pulse_of_asleep h hst with hc | ⟨-, hu⟩
    · exact absurd hc (by decide)
    · exact Or.inr ⟨hst, hu⟩
  · refine Or.inl (step_blocked ht (fun st hw => ?_) (not_deleted h) (not_created hp hv))
    rcases pulse_of_asleep h hw with hc | ⟨hc, -⟩
    · exact hc
    · rw [hc] at hw
      exact absurd hw hst

/-- **A task that is blocked falls asleep.** -/
theorem asleep_of_blocks (hp : Phased s) (h : s.stateWrNext i = some (j, .blocked)) : Asleep (s.step i) j := by
  obtain ⟨-, hfs, hact, hnext⟩ := blocks_cases h
  have hns : s.fsmState ≠ .scanReady := by rcases hfs with hfs | hfs <;> simp [hfs]
  obtain ⟨hidle, htrig⟩ := sched_rests hp.scanning hns
  have hidle' : (s.step i).sched.state = .idle := by simp [step, TaskScheduler.step, hidle, htrig]
  have hf' : (s.step i).fsmState = .scanReady := hnext
  constructor
  · intro ha
    simp only [step, hact] at ha
    exact absurd ha (by decide)
  · intro hf
    simp [hf', Switching] at hf
  · intro hf
    simp [hf', hidle'] at hf
  · intro hf
    simp [hidle'] at hf

end Step

/-! ## Runs -/

/-- every blocked task is asleep -/
def BlockedSleep (s : HwRtos) : Prop := ∀ j, (s.effective j).IsBlocked → Asleep s j

theorem reset_blockedSleep : BlockedSleep reset := by
  intro j hb
  simp [effective, reset, TcbArray.reset, Tcb.IsBlocked] at hb

theorem step_blockedSleep {s : HwRtos} (i : RtosIn) (hp : Phased s) (hs : Safe s) (h : BlockedSleep s) :
    BlockedSleep (s.step i) := by
  intro j hb
  rcases blocked_of_step hs.write hb with hst | hj
  · exact asleep_of_blocks hp hst
  · refine step_asleep i (h j hj) hp hj fun hf ha h0 hn => ?_
    have hawake := hs.dispatch hf ha h0
    rw [hn, ← effective_of_quiet hp (Or.inr (Or.inl hf))] at hawake
    exact hawake hj

section Run

variable (ins : ℕ → RtosIn)

/-- **In a run of safe cycles every blocked task is asleep.** -/
theorem blocked_run (n : ℕ) (hs : ∀ k < n, Safe (stateAt ins k)) : BlockedSleep (stateAt ins n) := by
  induction n with
  | zero => exact reset_blockedSleep
  | succ n ih =>
    have h := ih fun k hk => hs k (Nat.lt_succ_of_lt hk)
    exact step_blockedSleep (ins n) (phased_run ins n) (hs n (Nat.lt_succ_self n)) h

/-- the READY write that reaches the array in cycle `n` serves a wake event of `j`: `S_UNBLOCK_TASK` has raised it in
the cycle before, and the wake register has held `j` since the event -/
structure Woken (n : ℕ) (j : TaskId) : Prop where
  pulse : (stateAt ins n).stateWr = some (j, .ready)
  raised : ∃ m, n = m + 1 ∧ (stateAt ins m).fsmState = .unblockTask ∧ ∃ e < m, (stateAt ins e).Wakes j ∧
    (stateAt ins e).latchedId = some j ∧ ∀ l, e < l → l < m →
      ¬ (stateAt ins l).ClearsWake ∧ (stateAt ins l).latchedId = none

def StaysBlocked (n : ℕ) : Prop :=
  ∀ j, ((stateAt ins n).tcb j).IsBlocked → ((stateAt ins (n + 1)).tcb j).IsBlocked ∨ Woken ins n j

end Run

/-- **A blocked task stays blocked** until it is woken, in every run of safe cycles. -/
theorem stays_blocked (ins : ℕ → RtosIn) (n : ℕ) (hs : ∀ k ≤ n, Safe (stateAt ins k)) : StaysBlocked ins n := by
  intro j hb
  cases n with
  | zero => simp [stateAt, reset, TcbArray.reset, Tcb.IsBlocked] at hb
  | succ m =>
    have hw := (hs m (Nat.le_succ m)).write
    have hbm : ((stateAt ins m).effective j).IsBlocked := (tcb_step_blocked hw j).1 hb
    have hasleep := blocked_run ins m (fun k hk => hs k (by omega)) j hbm
    rcases leaves_blocked (ins m) hasleep (phased_run ins m) hb hbm.1 with h | ⟨hst, hf, hpend, htgt⟩
    · exact Or.inl ((tcb_step_blocked (hs (m + 1) (le_refl _)).write j).2 h)
    · right
      obtain ⟨e, he, hl, -, hq⟩ := wake_source ins m hpend
      rw [htgt] at hl
      exact ⟨hst, m, rfl, hf, e, he, wakes_of_latchedId hl, hl, hq⟩

theorem joinRun_safe : ((stateAt joinRun 90).tcb 1).IsBlocked ∧ ∀ k < 91, Safe (stateAt joinRun k) := by decide +kernel

theorem stays_blocked_join : ((stateAt joinRun 90).tcb 1).IsBlocked ∧ StaysBlocked joinRun 90 :=
  ⟨joinRun_safe.1, stays_blocked joinRun 90 fun k hk => joinRun_safe.2 k (by omega)⟩

def soleRun (k : ℕ) : RtosIn := { oneTaskRun none k with semOp := if k = 26 then 0b10 else 0 }

theorem soleRun_redispatched : ((stateAt soleRun 50).tcb 1).IsBlocked ∧ (stateAt soleRun 50).stateWr = some
    (1, .running) ∧
    ((stateAt soleRun 51).tcb 1).state = .running ∧ ¬ ((stateAt soleRun 51).tcb 1).IsBlocked := by
  decide +kernel

/-- **A blocked task runs again without a wake.** With nobody ready the scheduler falls back to the task that waits;
`S_COMPARE_PRIORITY` dispatches it in cycle 48. -/
theorem sole_task_redispatched : ((stateAt soleRun 50).tcb 1).IsBlocked ∧
    ((stateAt soleRun 51).tcb 1).state = .running ∧
    ¬ StaysBlocked soleRun 50 := by
  obtain ⟨hb, hw, hstate, hr⟩ := soleRun_redispatched
  refine ⟨hb, hstate, fun h => ?_⟩
  rcases h 1 hb with h | h
  · exact hr h
  · have hp := h.pulse
    rw [hw] at hp
    exact absurd hp (by decide)

end HwRtos

end Vsync
