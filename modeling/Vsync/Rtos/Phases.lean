/-
What the scheduler FSM and the scheduler do in each reachable state of `hw_rtos`, whatever the requests.

A pulse is outstanding only in the phase behind the one that raised it, the scheduler works only while the FSM waits for
it in `S_SCAN_READY`, and the two registers of the priority boost name the same entry.

- `stateAt`: the state before a cycle of a run from reset.
- `Phased`, `phased_run`: the phases, and that every run keeps them.
- `scanning_of_step`, `comparing_of_step`: their steps.
-/
import Vsync.Machine
import Vsync.Rtos.HwRtos

namespace Vsync.HwRtos

def stateAt (ins : ℕ → RtosIn) (n : ℕ) : HwRtos := Machine.trace step reset ins n

theorem stateAt_succ (ins : ℕ → RtosIn) (n : ℕ) : stateAt ins (n + 1) = (stateAt ins n).step (ins n) := rfl

/-- the phases of the FSM, the scheduler and the pulses -/
structure Phased (s : HwRtos) : Prop where
  scanning : s.sched.state ≠ .idle ∨ s.schedTrigger = true → s.fsmState = .scanReady
  quiet : s.sched.state ≠ .idle ∨ s.fsmState = .comparePriority ∨ s.fsmState = .taskExit →
    s.stateWr = none ∧ s.create = none ∧ s.delete = none
  comparing : s.fsmState = .comparePriority → s.nextTaskIdR = s.sched.nextTaskIdReg
  creates : s.create ≠ none → s.fsmState = .scanReady ∧ s.stateWr = none
  deletes : s.delete ≠ none → s.fsmState = .exitSettle
  boosts : s.tcbRdId = s.prioBoostIdR

theorem reset_phased : Phased reset := by
  constructor <;> simp [reset, TaskScheduler.reset]

section Step

variable {s : HwRtos} {i : RtosIn}

/-- the scheduler rests unless the FSM waits for it -/
theorem sched_rests (h : s.sched.state ≠ .idle ∨ s.schedTrigger = true → s.fsmState = .scanReady)
    (hf : s.fsmState ≠ .scanReady) : s.sched.state = .idle ∧ s.schedTrigger = false := by
  by_contra hc
  refine hf (h ?_)
  by_cases hi : s.sched.state = .idle
  · exact Or.inr (by simpa [hi] using hc)
  · exact Or.inl hi

/-- the units that the served one comes after are not pending -/
theorem served_iff_pending {u : Unit3} : s.served i = some u ↔ (s.fsmState = .blockTask ∧ i.taskExit = false) ∧
    match u with
    | .sem => s.semOpPending = true
    | .mutex => s.semOpPending = false ∧ s.mutexOpPending = true
    | .msgq => s.semOpPending = false ∧ s.mutexOpPending = false ∧ s.msgqOpPending = true := by
  unfold served
  by_cases hf : s.fsmState = .blockTask ∧ i.taskExit = false
  · rw [if_pos hf]
    cases u <;> cases s.semOpPending <;> cases s.mutexOpPending <;> cases s.msgqOpPending <;> simp [hf]
  · simp [hf]

/-- **The answer of the served unit decides** where `S_BLOCK_TASK` goes. -/
theorem fsmNext_of_served {u : Unit3} (hs : s.served i = some u)
    (ha : ((s.answerOf u).success || (s.answerOf u).block) = true) :
    s.fsmNext i = if (s.answerOf u).block then .scanReady else s.afterSuccess := by
  obtain ⟨⟨hf, hx⟩, hpend⟩ := served_iff_pending.1 hs
  cases u with
  | sem =>
    change (s.sem.ans.success || s.sem.ans.block) = true at ha
    simp only [fsmNext, hf, hx, hpend, ha, Bool.true_or, Bool.true_and, Bool.false_eq_true, if_false, if_true]
    rfl
  | mutex =>
    change (s.mutex.ans.success || s.mutex.ans.block) = true at ha
    simp only [fsmNext, hf, hx, hpend.1, hpend.2, ha, Bool.true_or, Bool.or_true, Bool.true_and, Bool.false_and,
      Bool.false_eq_true, if_false, if_true]
    rfl
  | msgq =>
    change (s.msgq.ans.success || s.msgq.ans.block) = true at ha
    simp only [fsmNext, hf, hx, hpend.1, hpend.2.1, hpend.2.2, ha, Bool.or_true, Bool.true_and, Bool.false_and,
      Bool.false_eq_true, if_false, if_true]
    rfl

theorem blocksCurrent_next (h : s.blocksCurrent i = true) : s.fsmNext i = .scanReady := by
  have hu : ∃ u, s.servedBlock i u = true := by
    simp only [blocksCurrent, Bool.or_eq_true] at h
    rcases h with (h | h) | h
    exacts [⟨.sem, h⟩, ⟨.mutex, h⟩, ⟨.msgq, h⟩]
  obtain ⟨u, hu⟩ := hu
  simp only [servedBlock, Bool.and_eq_true, beq_iff_eq] at hu
  rw [fsmNext_of_served hu.1.1 (by simp [hu.2]), if_pos hu.2]

theorem scanning_of_step (h : s.sched.state ≠ .idle ∨ s.schedTrigger = true → s.fsmState = .scanReady)
    (hb : (s.step i).sched.state ≠ .idle ∨ (s.step i).schedTrigger = true) : s.fsmNext i = .scanReady := by
  by_cases hf : s.fsmState = .scanReady
  · simp only [step, schedTriggerNext, hf, fsmNext] at hb ⊢
    cases hsc : s.sched.state <;> simp_all [TaskScheduler.done, TaskScheduler.busy, TaskScheduler.step]
  · obtain ⟨hi, ht⟩ := sched_rests h hf
    have hb' : s.schedTriggerNext i = true := by
      simpa [step, TaskScheduler.step, hi, ht] using hb
    unfold schedTriggerNext at hb'
    split at hb' <;> simp_all [fsmNext]
    exact by simpa [fsmNext, *] using blocksCurrent_next hb'

theorem comparing_of_step (hf : s.fsmNext i = .comparePriority) :
    (s.step i).nextTaskIdR = (s.step i).sched.nextTaskIdReg := by
  obtain ⟨hfs, hd⟩ := fsmNext_comparePriority hf
  have hst : s.sched.state = .done := by simpa [TaskScheduler.done] using hd
  simp [step, nextTaskIdNext, hfs, hd, TaskScheduler.step, hst]

/-- a scheduler that works after a cycle was started or working before it -/
theorem busy_of_step (hb : (s.step i).sched.state ≠ .idle) : s.sched.state ≠ .idle ∨ s.schedTrigger = true := by
  by_contra hc
  simp only [not_or, not_not, Bool.not_eq_true] at hc
  simp [step, TaskScheduler.step, hc.1, hc.2] at hb

theorem createNext_ne_none (h : s.createNext i ≠ none) : s.fsmState = .taskCreate := by
  by_contra hf
  simp [createNext, hf] at h

theorem deleteNext_ne_none (h : s.deleteNext ≠ none) : s.fsmState = .taskExit := by
  by_contra hf
  simp [deleteNext, hf] at h

/-- `S_SCAN_READY` raises no pulse -/
theorem scanReady_quiet (hf : s.fsmState = .scanReady) :
    s.stateWrNext i = none ∧ s.createNext i = none ∧ s.deleteNext = none := by
  simp [stateWrNext, createNext, deleteNext, hf]

/-- so does the cycle that accepts an exit -/
theorem exit_quiet (hf : s.fsmNext i = .taskExit) :
    s.stateWrNext i = none ∧ s.createNext i = none ∧ s.deleteNext = none := by
  cases hfs : s.fsmState with
  | idle =>
    simp only [fsmNext, hfs] at hf
    split_ifs at hf
    simp_all [stateWrNext, createNext, deleteNext]
  | blockTask =>
    have hx : i.taskExit = true := by
      by_contra hc
      simp only [fsmNext, hfs, hc, afterSuccess, if_false] at hf
      split_ifs at hf
    simp [stateWrNext, createNext, deleteNext, hfs, blocksCurrent, servedBlock, served, hx]
  | _ =>
    simp only [fsmNext, hfs] at hf
    first | exact absurd hf (by decide) | (split_ifs at hf)

theorem step_phased (i : RtosIn) (h : Phased s) : Phased (s.step i) where
  scanning := scanning_of_step h.scanning
  quiet hb := by
    rcases hb with hb | hb | hb
    · exact scanReady_quiet (h.scanning (busy_of_step hb))
    · exact scanReady_quiet (fsmNext_comparePriority hb).1
    · exact exit_quiet hb
  comparing := comparing_of_step
  creates hc := by
    have hf : s.fsmState = .taskCreate := createNext_ne_none hc
    constructor
    · simp [step, fsmNext, hf]
    · simp [step, stateWrNext, hf]
  deletes hd := by
    have hf : s.fsmState = .taskExit := deleteNext_ne_none hd
    simp [step, fsmNext, hf]
  boosts := by
    simp only [step]
    rw [h.boosts]

end Step

/-- **Every run keeps the phases.** -/
theorem phased_run (ins : ℕ → RtosIn) (n : ℕ) : Phased (stateAt ins n) :=
  Machine.trace_inv step reset ins reset_phased (fun _ i h => step_phased i h) n

end Vsync.HwRtos
