/-
The current task and the `RUNNING` entries of the task control blocks.

A registered pulse reaches `tcb_array` one cycle after the FSM raised it, so the invariant `CurrentInv` speaks of the
`effective` entries: those that the outstanding create, delete and state pulses leave.

Two things in the source break it, and `Sound` excludes both, cycle by cycle:
- `S_COMPARE_PRIORITY` without an active task dispatches whatever id the scheduler fell back to, a deleted one included;
- the registered boost write comes one cycle after the flag that selects its id has been cleared, and then copies the
  boosted entry over entry 0.

- `step_inv`, `run_inv`: `CurrentInv` holds in every run of sound cycles.
- `current_running`: in such a run an idle FSM with no outstanding pulse has the current task as the only `RUNNING` one.
- `exit_dispatches_dead`: after the last task has exited, its invalid entry is the current task.
-/
import Vsync.Rtos.Phases

namespace Vsync

/-- a valid entry in state `RUNNING` -/
def Tcb.IsRunning (e : Tcb) : Prop := e.valid = true ∧ e.state = .running

instance (e : Tcb) : Decidable e.IsRunning := inferInstanceAs (Decidable (_ ∧ _))

namespace HwRtos

/-- the entry as the outstanding create, delete and state pulses leave it -/
def effective (s : HwRtos) (j : TaskId) : Tcb :=
  Tcb.stateWrite j (Tcb.delete j (Tcb.create j (s.tcb j) s.create) s.delete) s.stateWr

/-- no registered write pulse towards the array is outstanding -/
def NoPulse (s : HwRtos) : Prop :=
  s.create = none ∧ s.delete = none ∧ s.stateWr = none ∧ s.tcbWrEn = false ∧ s.tsReload = none

theorem effective_of_noPulse {s : HwRtos} (h : s.NoPulse) (j : TaskId) : s.effective j = s.tcb j := by
  obtain ⟨h1, h2, h3, -, -⟩ := h
  simp [effective, h1, h2, h3]

/-- the whole-entry write of a cycle, if there is one, neither invalidates the entry it hits nor changes whether that
entry is a running one -/
def WriteKeeps (s : HwRtos) : Prop :=
  match s.tcbWr with
  | some (w, d) =>
    ((Tcb.delete w (Tcb.create w (s.tcb w) s.create) s.delete).valid = true → d.valid = true) ∧
      (d.IsRunning ↔ (Tcb.delete w (Tcb.create w (s.tcb w) s.create) s.delete).IsRunning)
  | none => True

def DispatchesValid (s : HwRtos) : Prop :=
  s.fsmState = .comparePriority → s.taskActiveR = false → s.sched.nextTaskIdReg ≠ 0 →
    (s.tcb s.sched.nextTaskIdReg).valid = true

/-- the cycle reaches neither of the two defects -/
structure Sound (s : HwRtos) : Prop where
  write : s.WriteKeeps
  dispatch : s.DispatchesValid

instance (s : HwRtos) : Decidable s.WriteKeeps := by
  unfold WriteKeeps; rcases s.tcbWr with _ | ⟨w, d⟩ <;> infer_instance

instance (s : HwRtos) : Decidable s.DispatchesValid := by unfold DispatchesValid; infer_instance

instance (s : HwRtos) : Decidable s.Sound :=
  decidable_of_iff (s.WriteKeeps ∧ s.DispatchesValid) ⟨fun h => ⟨h.1, h.2⟩, fun h => ⟨h.write, h.dispatch⟩⟩

instance (s : HwRtos) : Decidable s.NoPulse := by unfold NoPulse; infer_instance

/-- the FSM has no scheduling decision ahead before it is idle again -/
def Settled (f : SchedFsm) : Prop := f = .idle ∨ f = .blockTask

/-- the current-task invariant, with what carries it through a scan and a switch -/
structure CurrentInv (s : HwRtos) : Prop where
  current : s.taskActiveR = true → (s.effective s.currentTaskIdR).valid = true
  unique : ∀ j, (s.effective j).IsRunning → s.taskActiveR = true ∧ j = s.currentTaskIdR
  running : s.taskActiveR = true → Settled s.fsmState → (s.effective s.currentTaskIdR).IsRunning
  switching : Switching s.fsmState → ∀ j, ¬ (s.effective j).IsRunning
  dispatching : s.fsmState = .dispatch →
    (s.effective s.nextTaskIdR).valid = true ∧ ∀ j, (s.effective j).IsRunning → j = s.nextTaskIdR
  next : s.fsmState = .preemptCheck ∨ Switching s.fsmState → (s.effective s.nextTaskIdR).valid = true
  preempting : s.fsmState = .preemptCheck → s.taskActiveR = true
  comparing : s.fsmState = .comparePriority → s.nextTaskIdR = s.sched.nextTaskIdReg
  choice : s.taskActiveR = true → s.fsmState = .comparePriority ∨ s.sched.state = .switch ∨ s.sched.state = .done →
    (s.effective s.sched.nextTaskIdReg).valid = true
  found : s.sched.state = .scan ∨ s.sched.state = .preempt → s.sched.foundReady = true →
    (s.effective s.sched.bestTaskId).valid = true
  scanning : s.sched.state ≠ .idle ∨ s.schedTrigger = true → s.fsmState = .scanReady
  creates : s.create ≠ none → s.fsmState = .scanReady
  deletes : s.delete ≠ none → s.fsmState = .exitSettle
  runs : ∀ j, s.stateWr = some (j, .running) → s.taskActiveR = true ∧ j = s.currentTaskIdR

theorem reset_inv : CurrentInv reset := by
  constructor <;> simp [reset, effective, Tcb.IsRunning, TcbArray.reset, Settled, Switching, TaskScheduler.reset]

/-! ## The array after a cycle -/

section Array

variable {s : HwRtos}

theorem effective_valid (j : TaskId) :
    (s.effective j).valid = (Tcb.delete j (Tcb.create j (s.tcb j) s.create) s.delete).valid := by
  simp [effective]

theorem delete_create_tick_valid (e : Tcb) (j : TaskId) :
    (Tcb.delete j (Tcb.create j e.tick s.create) s.delete).valid =
      (Tcb.delete j (Tcb.create j e s.create) s.delete).valid :=
  Tcb.delete_valid_congr _ _ (Tcb.create_valid_congr _ _ e.tick_valid)

theorem delete_create_tick_state (e : Tcb) (j : TaskId) :
    (Tcb.delete j (Tcb.create j e.tick s.create) s.delete).state =
      (Tcb.delete j (Tcb.create j e s.create) s.delete).state :=
  Tcb.delete_state_congr _ _ (Tcb.create_state_congr _ _ e.tick_state)

theorem tcb_step_valid (hw : s.WriteKeeps) (j : TaskId) (h : (s.effective j).valid = true) :
    (s.tcb.step s.tcbPorts j).valid = true := by
  rw [effective_valid] at h
  rw [TcbArray.step_valid, tcbPorts]
  rcases hp : s.tcbWr with _ | ⟨w, d⟩
  · simpa [delete_create_tick_valid] using h
  · simp only [WriteKeeps, hp] at hw
    simp only [Tcb.write]
    split_ifs with hj
    · subst hj; exact hw.1 h
    · rwa [delete_create_tick_valid]

/-- whether an entry runs survives the cycle -/
theorem tcb_step_running (hw : s.WriteKeeps) (hc : s.taskActiveR = true → (s.effective s.currentTaskIdR).valid = true)
    (hr : ∀ j, s.stateWr = some (j, .running) → s.taskActiveR = true ∧ j = s.currentTaskIdR) (j : TaskId) :
    (s.tcb.step s.tcbPorts j).IsRunning ↔ (s.effective j).IsRunning := by
  have hvalid : ∀ st, s.stateWr = some (j, st) → st = .running → (s.effective j).valid = true := by
    rintro st h rfl
    obtain ⟨ha, rfl⟩ := hr j h
    exact hc ha
  rw [effective_valid] at hvalid
  unfold Tcb.IsRunning
  rw [TcbArray.step_valid, TcbArray.step_state, effective_valid, effective, tcbPorts]
  rcases hp : s.tcbWr with _ | ⟨w, d⟩
  · simp only [Tcb.write_none, delete_create_tick_valid]
    rcases hst : s.stateWr with _ | ⟨x, st⟩
    · simp [delete_create_tick_state]
    · simp only [Tcb.stateWrite]
      split_ifs
      · rfl
      · simp [delete_create_tick_state]
  · simp only [WriteKeeps, hp] at hw
    simp only [Tcb.write]
    split_ifs with hj
    · subst hj
      rcases hst : s.stateWr with _ | ⟨x, st⟩
      · simpa [Tcb.IsRunning] using hw.2
      · simp only [Tcb.stateWrite]
        split_ifs with hx
        · subst hx
          constructor
          · rintro ⟨-, rfl⟩
            exact ⟨hvalid _ hst rfl, rfl⟩
          · rintro ⟨hv, rfl⟩
            exact ⟨hw.1 hv, rfl⟩
        · simpa [Tcb.IsRunning] using hw.2
    · simp only [delete_create_tick_valid]
      rcases hst : s.stateWr with _ | ⟨x, st⟩
      · simp [delete_create_tick_state]
      · simp only [Tcb.stateWrite]
        split_ifs
        · rfl
        · simp [delete_create_tick_state]

/-- an entry that is not being deleted stays valid -/
theorem step_effective_valid {i : RtosIn} {j : TaskId} (hw : s.WriteKeeps) (hd : s.deleteNext ≠ some j)
    (h : (s.effective j).valid = true) : ((s.step i).effective j).valid = true := by
  have ht := tcb_step_valid hw j h
  rw [effective_valid]
  simp only [step]
  exact (Tcb.delete_valid_iff j _ _).2 ⟨hd, (Tcb.create_valid_iff j _ _).2 (.inl ht)⟩

/-- an entry runs after a cycle only if the cycle says so, or if it ran before and the cycle does not say otherwise -/
theorem running_of_step {i : RtosIn} {j : TaskId} (hw : s.WriteKeeps) (h : CurrentInv s)
    (hr : ((s.step i).effective j).IsRunning) :
    s.stateWrNext i = some (j, .running) ∨ ((s.effective j).IsRunning ∧ ∀ st, s.stateWrNext i ≠ some (j, st)) := by
  have ht := tcb_step_running hw h.current h.runs j
  unfold effective at hr
  simp only [step] at hr
  rcases hst : s.stateWrNext i with _ | ⟨x, st⟩
  · right
    refine ⟨ht.1 ?_, by simp⟩
    simp only [hst, Tcb.stateWrite_none] at hr
    exact Tcb.of_create_delete j (by decide) hr.1 hr.2
  · simp only [hst, Tcb.stateWrite] at hr
    split_ifs at hr with hx
    · left
      have hrun : st = .running := hr.2
      rw [hx, hrun]
    · right
      exact ⟨ht.1 (Tcb.of_create_delete j (by decide) hr.1 hr.2), by simp [hx]⟩

/-- an entry that runs goes on running if no pulse is raised for it -/
theorem step_running {i : RtosIn} {j : TaskId} (hw : s.WriteKeeps) (h : CurrentInv s)
    (hst : ∀ st, s.stateWrNext i ≠ some (j, st)) (hd : s.deleteNext ≠ some j) (hc : ∀ a, s.createNext i ≠ some (j, a))
    (hr : (s.effective j).IsRunning) : ((s.step i).effective j).IsRunning := by
  have ht := (tcb_step_running hw h.current h.runs j).2 hr
  unfold effective
  simp only [step]
  rw [Tcb.create_of_ne j _ hc, Tcb.delete_of_ne j _ hd, Tcb.stateWrite_of_ne j _ hst]
  exact ht

/-! ## The invariant after a cycle -/

/-- a cycle that ends with an active task began with one or dispatched -/
theorem active_of_step {i : RtosIn} (ha : (s.step i).taskActiveR = true) :
    s.fsmState = .dispatch ∨ s.taskActiveR = true ∧ s.fsmState ≠ .taskExit ∧ s.deleteNext = none ∧
      (s.step i).currentTaskIdR = s.currentTaskIdR := by
  simp only [step, taskActiveNext] at ha
  cases hf : s.fsmState with
  | dispatch => exact .inl rfl
  | taskExit => simp [hf] at ha
  | _ =>
    right
    simp_all [deleteNext, step, currentTaskIdNext]

theorem step_current {i : RtosIn} (h : CurrentInv s) (hs : Sound s) (ha : (s.step i).taskActiveR = true) :
    ((s.step i).effective (s.step i).currentTaskIdR).valid = true := by
  rcases active_of_step ha with hf | ⟨ha, -, hd, hc⟩
  · have hc : (s.step i).currentTaskIdR = s.nextTaskIdR := by simp [step, currentTaskIdNext, hf]
    rw [hc]
    exact step_effective_valid hs.write (by simp [deleteNext, hf]) (h.dispatching hf).1
  · rw [hc]
    exact step_effective_valid hs.write (by simp [hd]) (h.current ha)

/-- a running pulse is raised in `S_DISPATCH` only, for the task that becomes the current one -/
theorem stateWrNext_running {i : RtosIn} {j : TaskId} (hr : s.stateWrNext i = some (j, .running)) :
    s.fsmState = .dispatch ∧ j = s.nextTaskIdR := by
  unfold stateWrNext at hr
  split at hr <;> (try split_ifs at hr) <;> simp_all

theorem step_runs {i : RtosIn} (j : TaskId) (hr : (s.step i).stateWr = some (j, .running)) :
    (s.step i).taskActiveR = true ∧ j = (s.step i).currentTaskIdR := by
  obtain ⟨hf, rfl⟩ := stateWrNext_running hr
  simp [step, taskActiveNext, currentTaskIdNext, hf]

/-- the current task stops being active only with a pulse for it -/
theorem stateWr_of_inactive {i : RtosIn} (ha : s.taskActiveR = true) (ha' : (s.step i).taskActiveR = false) :
    ∃ st, s.stateWrNext i = some (s.currentTaskIdR, st) := by
  simp only [step, taskActiveNext] at ha'
  cases hf : s.fsmState with
  | taskExit => exact ⟨.dormant, by simp [stateWrNext, hf, ha]⟩
  | blockTask =>
    have hb : s.blocksCurrent i = true := by simpa [hf, ha] using ha'
    exact ⟨.blocked, by simp [stateWrNext, hf, hb]⟩
  | taskJoin =>
    have hb : s.joinBlocks i = true := by simpa [hf, ha] using ha'
    exact ⟨.blocked, by simp [stateWrNext, hf, hb]⟩
  | dispatch => simp [hf] at ha'
  | _ => simp [hf, ha] at ha'

theorem step_unique {i : RtosIn} (h : CurrentInv s) (hs : Sound s) (j : TaskId)
    (hr : ((s.step i).effective j).IsRunning) :
    (s.step i).taskActiveR = true ∧ j = (s.step i).currentTaskIdR := by
  rcases running_of_step hs.write h hr with hst | ⟨hj, hst⟩
  · exact step_runs j hst
  · obtain ⟨ha, rfl⟩ := h.unique j hj
    have ha' : (s.step i).taskActiveR = true := by
      by_contra hc
      obtain ⟨st, hst'⟩ := stateWr_of_inactive ha (by simpa using hc)
      exact hst st hst'
    refine ⟨ha', ?_⟩
    rcases active_of_step ha' with hf | ⟨-, -, -, hc⟩
    · simp [step, currentTaskIdNext, hf, (h.dispatching hf).2 _ hj]
    · exact hc.symm

/-- a cycle that ends settled without a dispatch began settled and raised no state pulse, unless nothing is active -/
theorem settled_of_step {i : RtosIn} (hf : Settled (s.fsmNext i)) (hd : s.fsmState ≠ .dispatch)
    (ha : s.taskActiveR = true) : Settled s.fsmState ∧ s.stateWrNext i = none := by
  have hb : s.blocksCurrent i = false := by
    by_contra hc
    have := blocksCurrent_next (i := i) (by simpa using hc)
    simp [this, Settled] at hf
  cases hfs : s.fsmState with
  | idle =>
    refine ⟨.inl rfl, ?_⟩
    by_contra hw
    simp only [stateWrNext, hfs] at hw
    have hy : i.schedulerEn = true ∧ i.taskCreate = false ∧ i.taskExit = false ∧ i.taskJoin = false ∧
        i.taskYield = true ∧ s.taskActiveR = true := by
      by_contra hc
      exact hw (if_neg hc)
    -- a yield goes to `S_SCAN_READY`, or to `S_TASK_CREATE` when a creation is latched
    obtain ⟨hen, hc, hx, hj, hy, -⟩ := hy
    simp only [fsmNext, hfs, hen, hc, hx, hj, hy] at hf
    cases hp : s.taskCreatePending <;> simp [hp, Settled] at hf
  | blockTask => exact ⟨.inr rfl, by simp [stateWrNext, hfs, hb]⟩
  | dispatch => exact absurd hfs hd
  | scanReady | comparePriority | waitCtxAck | contextSave | contextLoad =>
    simp only [fsmNext, hfs, ha] at hf
    split_ifs at hf <;> simp_all [Settled]
  | _ => simp [fsmNext, hfs, Settled] at hf

theorem step_isRunning {i : RtosIn} (h : CurrentInv s) (hs : Sound s) (ha : (s.step i).taskActiveR = true)
    (hf : Settled (s.fsmNext i)) : ((s.step i).effective (s.step i).currentTaskIdR).IsRunning := by
  by_cases hd : s.fsmState = .dispatch
  · have hc : (s.step i).currentTaskIdR = s.nextTaskIdR := by simp [step, currentTaskIdNext, hd]
    have hst : (s.step i).stateWr = some ((s.step i).currentTaskIdR, .running) := by
      rw [hc]; simp [step, stateWrNext, hd]
    refine ⟨step_current h hs ha, ?_⟩
    simp only [effective, hst, Tcb.stateWrite, if_true]
  · rcases active_of_step ha with hd' | ⟨ha, he, hdel, hc⟩
    · exact absurd hd' hd
    · obtain ⟨hset, hst⟩ := settled_of_step hf hd ha
      have hcr : s.createNext i = none := by
        rcases hset with hset | hset <;> simp [createNext, hset]
      rw [hc]
      exact step_running hs.write h (by simp [hst]) (by simp [hdel]) (by simp [hcr]) (h.running ha hset)

theorem step_switching {i : RtosIn} (h : CurrentInv s) (hs : Sound s) (hf : Switching (s.fsmNext i)) (j : TaskId) :
    ¬ ((s.step i).effective j).IsRunning := by
  intro hr
  rcases running_of_step hs.write h hr with hst | ⟨hj, hst⟩
  · simp [fsmNext, (stateWrNext_running hst).1, Switching] at hf
  · rcases fsmNext_switching hf with ⟨hfs, -⟩ | hsw
    · obtain ⟨ha, rfl⟩ := h.unique j hj
      simp [stateWrNext, hfs, ha] at hst
    · exact h.switching hsw j hj

theorem step_next {i : RtosIn} (h : CurrentInv s) (hs : Sound s)
    (hf : s.fsmNext i = .preemptCheck ∨ Switching (s.fsmNext i)) :
    ((s.step i).effective (s.step i).nextTaskIdR).valid = true := by
  have hv : (s.effective s.nextTaskIdR).valid = true ∧ s.fsmState ≠ .scanReady ∧ s.fsmState ≠ .taskExit := by
    rcases hf with hf | hf
    · obtain ⟨hfs, ha, -⟩ := fsmNext_preemptCheck hf
      rw [h.comparing hfs]
      exact ⟨h.choice ha (Or.inl hfs), by simp [hfs], by simp [hfs]⟩
    · rcases fsmNext_switching hf with ⟨hfs, -⟩ | hsw
      · exact ⟨h.next (Or.inl hfs), by simp [hfs], by simp [hfs]⟩
      · refine ⟨h.next (Or.inr hsw), ?_, ?_⟩ <;> rcases hsw with hsw | hsw | hsw <;> simp [hsw]
  have hn : (s.step i).nextTaskIdR = s.nextTaskIdR := by simp [step, nextTaskIdNext, hv.2.1]
  rw [hn]
  exact step_effective_valid hs.write (by simp [deleteNext, hv.2.2]) hv.1

theorem step_dispatching {i : RtosIn} (h : CurrentInv s) (hs : Sound s) (hf : s.fsmNext i = .dispatch) :
    ((s.step i).effective (s.step i).nextTaskIdR).valid = true ∧
      ∀ j, ((s.step i).effective j).IsRunning → j = (s.step i).nextTaskIdR := by
  have hold : (s.effective s.nextTaskIdR).valid = true ∧ (∀ j, (s.effective j).IsRunning → j = s.nextTaskIdR) ∧
      s.fsmState ≠ .scanReady ∧ s.fsmState ≠ .taskExit ∧ s.fsmState ≠ .dispatch := by
    rcases fsmNext_dispatch hf with ⟨hfs, ha, h0⟩ | ⟨hfs, ha, hc⟩ | ⟨hfs, -⟩
    · refine ⟨?_, fun j hj => ?_, by simp [hfs], by simp [hfs], by simp [hfs]⟩
      · have hcr : s.create = none := by
          by_contra hc; simpa [hfs] using h.creates hc
        have hde : s.delete = none := by
          by_contra hc; simpa [hfs] using h.deletes hc
        rw [h.comparing hfs, effective_valid, hcr, hde]
        exact hs.dispatch hfs ha h0
      · simp [(h.unique j hj).1] at ha
    · rw [h.comparing hfs, hc]
      exact ⟨h.current ha, fun j hj => (h.unique j hj).2, by simp [hfs], by simp [hfs], by simp [hfs]⟩
    · exact ⟨h.next (Or.inr (Or.inr (Or.inr hfs))), fun j hj => absurd hj (h.switching (Or.inr (Or.inr hfs)) j),
        by simp [hfs], by simp [hfs], by simp [hfs]⟩
  obtain ⟨hv, hu, h1, h2, h3⟩ := hold
  have hn : (s.step i).nextTaskIdR = s.nextTaskIdR := by simp [step, nextTaskIdNext, h1]
  rw [hn]
  refine ⟨step_effective_valid hs.write (by simp [deleteNext, h2]) hv, fun j hr => ?_⟩
  rcases running_of_step hs.write h hr with hst | ⟨hj, -⟩
  · exact absurd (stateWrNext_running hst).1 h3
  · exact hu j hj

/-! The scheduler side of the invariant. -/

/-- in `S_SCAN_READY` validity is not lost, and the active task stays what it was -/
theorem scanReady_keeps {i : RtosIn} (hs : Sound s) (hf : s.fsmState = .scanReady) :
    (∀ j, (s.effective j).valid = true → ((s.step i).effective j).valid = true) ∧
      (s.step i).taskActiveR = s.taskActiveR ∧ (s.step i).currentTaskIdR = s.currentTaskIdR :=
  ⟨fun j hj => step_effective_valid hs.write (by simp [deleteNext, hf]) hj, by simp [step, taskActiveNext, hf],
    by simp [step, currentTaskIdNext, hf]⟩

theorem step_choice {i : RtosIn} (h : CurrentInv s) (hs : Sound s) (ha : (s.step i).taskActiveR = true)
    (hf : s.fsmNext i = .comparePriority ∨ (s.step i).sched.state = .switch ∨ (s.step i).sched.state = .done) :
    ((s.step i).effective (s.step i).sched.nextTaskIdReg).valid = true := by
  have hscan : s.fsmState = .scanReady := by
    rcases hf with hf | hf
    · exact (fsmNext_comparePriority hf).1
    · refine h.scanning (Or.inl fun hi => ?_)
      simp only [step, TaskScheduler.step, hi] at hf
      split_ifs at hf <;> simp_all
  obtain ⟨hk, hact, -⟩ := scanReady_keeps (i := i) hs hscan
  rw [hact] at ha
  apply hk
  cases hsc : s.sched.state with
  | idle =>
    -- the scheduler rests: nothing is decided in this cycle
    exfalso
    rcases hf with hf | hf
    · simpa [TaskScheduler.done, hsc] using (fsmNext_comparePriority hf).2
    · simp only [step, TaskScheduler.step, hsc] at hf
      split_ifs at hf <;> simp_all
  | scan =>
    exfalso
    rcases hf with hf | hf
    · simpa [TaskScheduler.done, hsc] using (fsmNext_comparePriority hf).2
    · simp only [step, TaskScheduler.step, hsc] at hf
      split_ifs at hf <;> simp_all
  | preempt =>
    simp only [step, TaskScheduler.step, hsc]
    split_ifs with hp
    · refine h.found (Or.inr hsc) ?_
      simp only [TaskScheduler.preempts, Bool.and_eq_true] at hp
      exact hp.1.1
    · exact h.current ha
  | switch =>
    simp only [step, TaskScheduler.step, hsc]
    exact h.choice ha (Or.inr (Or.inl hsc))
  | done =>
    simp only [step, TaskScheduler.step, hsc]
    exact h.choice ha (Or.inr (Or.inr hsc))

theorem step_found {i : RtosIn} (h : CurrentInv s) (hs : Sound s)
    (hsc : (s.step i).sched.state = .scan ∨ (s.step i).sched.state = .preempt)
    (hf : (s.step i).sched.foundReady = true) : ((s.step i).effective (s.step i).sched.bestTaskId).valid = true := by
  cases hst : s.sched.state with
  | idle =>
    simp only [step, TaskScheduler.step, hst] at hsc hf
    split_ifs at hsc hf
    all_goals simp_all
  | scan =>
    have hscan := h.scanning (Or.inl (by simp [hst]))
    apply (scanReady_keeps hs hscan).1
    have hde : s.delete = none := by
      by_contra hc; simpa [hscan] using h.deletes hc
    rcases ht : s.sched.takes s.tcb with _ | _
    · simp only [step, TaskScheduler.step, hst, ht, Bool.false_eq_true, if_false] at hf ⊢
      split_ifs at hf ⊢ <;> exact h.found (Or.inl hst) hf
    · have hv : (s.effective s.sched.scanIdx).valid = true := by
        rw [effective_valid, hde, Tcb.delete_none]
        have : (s.tcb s.sched.scanIdx).valid = true := by
          simp only [TaskScheduler.takes, Bool.and_eq_true] at ht; exact ht.1.1
        rcases hc : s.create with _ | ⟨c, a⟩
        · exact this
        · simp only [Tcb.create]; split_ifs <;> [rfl; exact this]
      simp only [step, TaskScheduler.step, hst, ht, if_true]
      split_ifs <;> exact hv
  | preempt =>
    simp only [step, TaskScheduler.step, hst] at hsc
    split_ifs at hsc <;> simp_all
  | switch =>
    simp only [step, TaskScheduler.step, hst] at hsc
    simp_all
  | done =>
    simp only [step, TaskScheduler.step, hst] at hsc
    simp_all

/-- **One sound cycle keeps the invariant.** -/
theorem step_inv (i : RtosIn) (h : CurrentInv s) (hs : Sound s) : CurrentInv (s.step i) where
  current := step_current h hs
  unique := step_unique h hs
  running := step_isRunning h hs
  switching := step_switching h hs
  dispatching := step_dispatching h hs
  next := step_next h hs
  preempting hf := by
    obtain ⟨hfs, ha, -⟩ := fsmNext_preemptCheck hf
    simp [step, taskActiveNext, hfs, ha]
  comparing := comparing_of_step
  choice := step_choice h hs
  found := step_found h hs
  scanning := scanning_of_step h.scanning
  creates hc := by
    have : s.fsmState = .taskCreate := by
      by_contra hf; simp [step, createNext, hf] at hc
    simp [step, fsmNext, this]
  deletes hd := by
    have : s.fsmState = .taskExit := by
      by_contra hf; simp [step, deleteNext, hf] at hd
    simp [step, fsmNext, this]
  runs := step_runs

end Array

/-! ## Runs -/

/-- **The invariant holds in every state that sound cycles reach.** -/
theorem run_inv (ins : ℕ → RtosIn) (n : ℕ) (hs : ∀ k < n, Sound (Machine.trace step reset ins k)) :
    CurrentInv (Machine.trace step reset ins n) :=
  Machine.trace_inv_of step reset ins (C := fun s _ => Sound s) reset_inv (fun _ i h hs => step_inv i h hs) n hs

/-- the current-task property of an idle state: with an active task, that task is the only `RUNNING` one; without,
nobody is -/
def CurrentRunning (s : HwRtos) : Prop :=
  if s.taskActiveR = true then
    (s.tcb s.currentTaskIdR).IsRunning ∧ ∀ j, (s.tcb j).IsRunning → j = s.currentTaskIdR
  else ∀ j, ¬ (s.tcb j).IsRunning

instance (s : HwRtos) : Decidable s.CurrentRunning := by unfold CurrentRunning; infer_instance

/-- **The current task is the running one.** In a run of sound cycles, whenever the FSM is idle with no pulse
outstanding. -/
theorem current_running (ins : ℕ → RtosIn) (n : ℕ) (hs : ∀ k < n, Sound (Machine.trace step reset ins k))
    (hf : (Machine.trace step reset ins n).fsmState = .idle) (hp : (Machine.trace step reset ins n).NoPulse) :
    (Machine.trace step reset ins n).CurrentRunning := by
  have h := run_inv ins n hs
  unfold CurrentRunning
  split_ifs with ha
  · rw [← effective_of_noPulse hp]
    refine ⟨h.running ha (Or.inl hf), fun j hj => ?_⟩
    rw [← effective_of_noPulse hp] at hj
    exact (h.unique j hj).2
  · intro j hj
    rw [← effective_of_noPulse hp] at hj
    exact ha (h.unique j hj).1

def oneTaskRun (exitAt : Option ℕ) (k : ℕ) : RtosIn :=
  { RtosIn.quiet with taskCreate := k == 0, createArgs := ⟨0x100, 0x800, 3⟩, taskExit := exitAt == some k }

/-- the created task runs after 25 cycles -/
theorem current_running_created : (Machine.trace step reset (oneTaskRun none) 25).CurrentRunning ∧
    (Machine.trace step reset (oneTaskRun none) 25).taskActiveR = true :=
  ⟨current_running (oneTaskRun none) 25 (by decide +kernel) (by decide +kernel) (by decide +kernel), by decide +kernel⟩

/-- **A deleted task is dispatched.** The only task exits in cycle 26. The scheduler finds nobody and falls back to the
current id; in cycle 51 the FSM is idle, no pulse is outstanding, and the active task is the invalid entry 1. -/
theorem exit_dispatches_dead :
    (Machine.trace step reset (oneTaskRun (some 26)) 51).fsmState = .idle ∧
      (Machine.trace step reset (oneTaskRun (some 26)) 51).NoPulse ∧
      (Machine.trace step reset (oneTaskRun (some 26)) 51).taskActiveR = true ∧
      ((Machine.trace step reset (oneTaskRun (some 26)) 51).tcb 1).valid = false ∧
      ¬ (Machine.trace step reset (oneTaskRun (some 26)) 51).CurrentRunning := by
  decide +kernel

end HwRtos

end Vsync
