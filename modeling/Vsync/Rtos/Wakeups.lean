/-
Wake-ups.

One register holds the id of a woken task until `S_UNBLOCK_TASK` writes it READY. The three units and a task exit share
it; `S_DISPATCH` clears its pending flag without a write.

- `Wakes`, `latchedId`: the wake events of a cycle, and the one that the register takes.
- `latched_run`: the register keeps an id until the FSM clears it or another event comes.
- `readies_iff`: what sets a task READY.
- `served_iff`: a wake event is served exactly when the register takes it and the FSM unblocks before it dispatches.
- `served_of_success`: the wake that comes with the success of an operation is served at once.
- `join_loses_wake`: a joining task is never woken.
-/
import Vsync.Rtos.Phases

namespace Vsync.HwRtos

section Names

variable (s : HwRtos) (i : RtosIn)

/-- `t` is woken in this cycle: by a unit, or as a joiner of the task that exits -/
def Wakes (t : TaskId) : Prop :=
  s.sem.ans.wake = some t ∨ s.mutex.ans.wake = some t ∨ s.msgq.ans.wake = some t ∨ (s.exits = true ∧ t ∈ s.joiners)

/-- the id that `wake_target_id` takes in this cycle: the last joiner, or that of the first unit that wakes -/
def latchedId : Option TaskId :=
  (if s.exits then s.joiners.getLast? else none).or ((s.sem.ans.wake.or s.mutex.ans.wake).or s.msgq.ans.wake)

def ClearsWake : Prop := (s.fsmState = .dispatch ∨ s.fsmState = .unblockTask) ∧ s.wakePending = true

/-- the current task `t` goes back to READY: it yields, its time slice has expired, or it is preempted -/
def Requeues (t : TaskId) : Prop :=
  s.taskActiveR = true ∧ s.currentTaskIdR = t ∧
    ((s.fsmState = .idle ∧ i.schedulerEn = true ∧ i.taskCreate = false ∧ i.taskExit = false ∧ i.taskJoin = false ∧
        i.taskYield = true) ∨
      (s.fsmState = .timerUpdate ∧ s.sliceExpired = true) ∨ s.fsmState = .preemptCheck)

instance (t : TaskId) : Decidable (s.Wakes t) := by unfold Wakes; infer_instance

instance : Decidable s.ClearsWake := by unfold ClearsWake; infer_instance

instance (t : TaskId) : Decidable (s.Requeues i t) := by unfold Requeues; infer_instance

end Names

section Cycle

variable {s : HwRtos} {i : RtosIn} {t : TaskId}

theorem wakes_iff_latchedId : (∃ t, s.Wakes t) ↔ s.latchedId.isSome = true := by
  have hlast : (if s.exits = true then s.joiners.getLast? else none).isSome = true ↔
      s.exits = true ∧ ∃ t, t ∈ s.joiners := by
    cases hx : s.exits with
    | false => simp
    | true =>
      rcases hj : s.joiners with _ | ⟨a, l⟩
      · simp
      · simp only [if_true, true_and]
        exact ⟨fun _ => ⟨a, by simp⟩, fun _ => by simp⟩
  rw [latchedId, Option.isSome_or, Option.isSome_or, Option.isSome_or, Bool.or_eq_true, Bool.or_eq_true,
    Bool.or_eq_true, hlast, Option.isSome_iff_exists, Option.isSome_iff_exists, Option.isSome_iff_exists]
  unfold Wakes
  constructor
  · rintro ⟨t, h | h | h | ⟨h1, h2⟩⟩
    · exact Or.inr (Or.inl (Or.inl ⟨t, h⟩))
    · exact Or.inr (Or.inl (Or.inr ⟨t, h⟩))
    · exact Or.inr (Or.inr ⟨t, h⟩)
    · exact Or.inl ⟨h1, t, h2⟩
  · rintro (⟨h1, t, h2⟩ | (⟨t, h⟩ | ⟨t, h⟩) | ⟨t, h⟩)
    · exact ⟨t, Or.inr (Or.inr (Or.inr ⟨h1, h2⟩))⟩
    · exact ⟨t, Or.inl h⟩
    · exact ⟨t, Or.inr (Or.inl h)⟩
    · exact ⟨t, Or.inr (Or.inr (Or.inl h))⟩

theorem latchedId_eq_none : s.latchedId = none ↔ ∀ t, ¬ s.Wakes t := by
  rw [← Option.not_isSome_iff_eq_none, ← wakes_iff_latchedId, not_exists]

theorem wakes_of_latchedId (h : s.latchedId = some t) : s.Wakes t := by
  unfold latchedId at h
  rcases Option.or_eq_some_iff.1 h with h | ⟨-, h⟩
  · cases hx : s.exits with
    | false => simp [hx] at h
    | true =>
      rw [hx, if_pos rfl] at h
      exact Or.inr (Or.inr (Or.inr ⟨hx, List.mem_of_getLast? h⟩))
  · rcases Option.or_eq_some_iff.1 h with h | ⟨-, h⟩
    · rcases Option.or_eq_some_iff.1 h with h | ⟨-, h⟩
      · exact Or.inl h
      · exact Or.inr (Or.inl h)
    · exact Or.inr (Or.inr (Or.inl h))

theorem step_wake (s : HwRtos) (i : RtosIn) :
    (s.step i).wakeTargetId = s.latchedId.getD s.wakeTargetId ∧
      ((s.step i).wakePending = true ↔ ¬ s.ClearsWake ∧ (s.wakePending = true ∨ s.latchedId ≠ none)) := by
  constructor
  · change s.wakeTargetIdNext = _
    unfold wakeTargetIdNext latchedId
    cases (if s.exits = true then s.joiners.getLast? else none) <;> rfl
  · change s.wakePendingNext = true ↔ _
    have hlatched : s.latchedId ≠ none ↔ (s.exits = true ∧ s.joiners ≠ []) ∨ s.anyWake = true := by
      unfold latchedId anyWake
      cases hx : s.exits <;> rcases hj : s.joiners with _ | ⟨a, l⟩ <;> cases s.sem.ans.wake <;>
        cases s.mutex.ans.wake <;> cases s.msgq.ans.wake <;> simp
    unfold wakePendingNext ClearsWake
    rw [hlatched]
    split_ifs with h1 h2
    · simp [h1]
    · simp only [Bool.and_eq_true, Bool.not_eq_true', List.isEmpty_eq_false_iff] at h2
      simp [h1, h2]
    · simp only [Bool.and_eq_true, Bool.not_eq_true', List.isEmpty_eq_false_iff] at h2
      simp [h1, h2]

/-- **What sets a task READY**: the wake register in `S_UNBLOCK_TASK`, or that the current task goes back. -/
theorem readies_iff : s.stateWrNext i = some (t, .ready) ↔
    (s.fsmState = .unblockTask ∧ s.wakePending = true ∧ s.wakeTargetId = t) ∨ s.Requeues i t := by
  unfold stateWrNext Requeues
  cases hf : s.fsmState with
  | unblockTask => simp
  | preemptCheck => simp
  | timerUpdate =>
    have hactive (h : s.sliceExpired = true) : s.taskActiveR = true := by
      simp only [sliceExpired, Bool.and_eq_true] at h
      exact h.1
    simp only [Option.ite_none_right_eq_some, Option.some.injEq, Prod.mk.injEq, and_true, reduceCtorEq, false_and,
      true_and, or_false, false_or]
    exact ⟨fun h => ⟨hactive h.1, h.2, h.1⟩, fun h => ⟨h.2.2, h.2.1⟩⟩
  | idle =>
    simp only [Option.ite_none_right_eq_some, Option.some.injEq, Prod.mk.injEq, and_true, reduceCtorEq, false_and,
      true_and, or_false, false_or]
    constructor
    · rintro ⟨⟨hen, hc, hx, hj, hy, hactive⟩, ht⟩
      exact ⟨hactive, ht, hen, hc, hx, hj, hy⟩
    · rintro ⟨hactive, ht, hen, hc, hx, hj, hy⟩
      exact ⟨⟨hen, hc, hx, hj, hy, hactive⟩, ht⟩
  | _ => simp

end Cycle

/-! ## Runs -/

section Run

variable (ins : ℕ → RtosIn)

/-- the wake of `t` in cycle `k` is served: the register takes it, and a later cycle writes `t` READY before the pending
flag is cleared or another event comes -/
structure Served (k : ℕ) (t : TaskId) : Prop where
  latched : (stateAt ins (k + 1)).wakePending = true ∧ (stateAt ins (k + 1)).wakeTargetId = t
  written : ∃ m > k, (stateAt ins m).stateWrNext (ins m) = some (t, .ready) ∧
    ∀ j, k < j → j < m → ¬ (stateAt ins j).ClearsWake ∧ ∀ u, ¬ (stateAt ins j).Wakes u

/-- the register takes the wake of `t` in cycle `k`, and the FSM comes to `S_UNBLOCK_TASK`, or puts `t` back, before it
dispatches and before another event comes -/
structure Unblocks (k : ℕ) (t : TaskId) : Prop where
  kept : ¬ (stateAt ins k).ClearsWake
  latched : (stateAt ins k).latchedId = some t
  reached : ∃ m > k, ((stateAt ins m).fsmState = .unblockTask ∨ (stateAt ins m).Requeues (ins m) t) ∧
    ∀ j, k < j → j < m → (stateAt ins j).fsmState ≠ .dispatch ∧ (stateAt ins j).fsmState ≠ .unblockTask ∧
      (stateAt ins j).latchedId = none

variable {ins} {k : ℕ} {t : TaskId}

/-- **The register keeps an id** until the flag is cleared or another event comes. -/
theorem latched_run {m : ℕ} (hkm : k < m)
    (h : (stateAt ins (k + 1)).wakePending = true ∧ (stateAt ins (k + 1)).wakeTargetId = t)
    (hq : ∀ j, k < j → j < m → ¬ (stateAt ins j).ClearsWake ∧ (stateAt ins j).latchedId = none) :
    (stateAt ins m).wakePending = true ∧ (stateAt ins m).wakeTargetId = t := by
  induction m, hkm using Nat.le_induction with
  | base => exact h
  | succ m hkm ih =>
    obtain ⟨h1, h2⟩ := ih fun j hj1 hj2 => hq j hj1 (by omega)
    obtain ⟨h3, h4⟩ := hq m hkm (Nat.lt_succ_self m)
    obtain ⟨htgt, hpend⟩ := step_wake (stateAt ins m) (ins m)
    rw [stateAt_succ]
    refine ⟨hpend.2 ⟨h3, Or.inl h1⟩, ?_⟩
    rw [htgt, h4]
    exact h2

/-- while the register keeps an id, the FSM does not pass a state that clears the flag -/
theorem not_cleared_run {m : ℕ} (h : (stateAt ins (k + 1)).wakePending = true ∧ (stateAt ins (k + 1)).wakeTargetId = t)
    (hq : ∀ j, k < j → j < m → ¬ (stateAt ins j).ClearsWake ∧ (stateAt ins j).latchedId = none) (j : ℕ) (hj1 : k < j)
    (hj2 : j < m) : (stateAt ins j).fsmState ≠ .dispatch ∧ (stateAt ins j).fsmState ≠ .unblockTask ∧
      (stateAt ins j).latchedId = none := by
  have hpend := (latched_run hj1 h fun l hl1 hl2 => hq l hl1 (by omega)).1
  obtain ⟨hno, hnone⟩ := hq j hj1 hj2
  exact ⟨fun h => hno ⟨Or.inl h, hpend⟩, fun h => hno ⟨Or.inr h, hpend⟩, hnone⟩

theorem latched_iff (hw : (stateAt ins k).Wakes t) :
    ((stateAt ins (k + 1)).wakePending = true ∧ (stateAt ins (k + 1)).wakeTargetId = t) ↔
      ¬ (stateAt ins k).ClearsWake ∧ (stateAt ins k).latchedId = some t := by
  obtain ⟨htgt, hpend⟩ := step_wake (stateAt ins k) (ins k)
  have hsome : (stateAt ins k).latchedId.isSome = true := wakes_iff_latchedId.1 ⟨t, hw⟩
  obtain ⟨u, hu⟩ := Option.isSome_iff_exists.1 hsome
  rw [stateAt_succ, hpend, htgt, hu]
  simp

/-- the success of an operation, with a wake, takes the FSM to `S_UNBLOCK_TASK` -/
theorem fsmNext_of_success {s : HwRtos} {i : RtosIn} {u : Unit3} (hok : s.servedOk i u = true)
    (hb : (s.answerOf u).block = false) (hl : s.latchedId ≠ none) :
    s.fsmState = .blockTask ∧ s.fsmNext i = .unblockTask := by
  simp only [servedOk, Bool.and_eq_true, beq_iff_eq] at hok
  obtain ⟨hs, hsucc⟩ := hok
  have hf : s.fsmState = .blockTask := (served_iff_pending.1 hs).1.1
  have hwake : s.afterSuccess = .unblockTask := by
    have hany : s.anyWake = true := by
      by_contra hno
      apply hl
      simp only [anyWake, Bool.or_eq_true, not_or, Option.not_isSome_iff_eq_none] at hno
      have hx : s.exits = false := by simp [exits, hf]
      simp [latchedId, hx, hno.1.1, hno.1.2, hno.2]
    simp [afterSuccess, hany]
  refine ⟨hf, ?_⟩
  rw [fsmNext_of_served hs (by simp [hsucc]), hb, hwake]
  rfl

theorem not_clearsWake_of_blockTask {s : HwRtos} (hf : s.fsmState = .blockTask) : ¬ s.ClearsWake := by
  rintro ⟨h | h, -⟩ <;> rw [hf] at h <;> exact absurd h (by decide)

/-- **The wake that comes with a success is served at once.** -/
theorem served_of_success {u : Unit3} (hok : (stateAt ins k).servedOk (ins k) u = true)
    (hb : ((stateAt ins k).answerOf u).block = false) (hl : (stateAt ins k).latchedId = some t) : Served ins k t := by
  obtain ⟨hf, hnext⟩ := fsmNext_of_success hok hb (by rw [hl]; simp)
  have hkept := not_clearsWake_of_blockTask hf
  have hlatched := (latched_iff (wakes_of_latchedId hl)).2 ⟨hkept, hl⟩
  exact ⟨hlatched, k + 1, Nat.lt_succ_self k, readies_iff.2 (Or.inl ⟨hnext, hlatched⟩), fun j h1 h2 => by omega⟩

end Run

/-- **A wake is served exactly when** the FSM unblocks. -/
theorem served_iff (ins : ℕ → RtosIn) (k : ℕ) (t : TaskId) (hw : (stateAt ins k).Wakes t) :
    Served ins k t ↔ Unblocks ins k t := by
  constructor
  · rintro ⟨hl, m, hm, hwr, hq⟩
    obtain ⟨h1, h2⟩ := (latched_iff hw).1 hl
    have hkeep (j : ℕ) (hj1 : k < j) (hj2 : j < m) : ¬ (stateAt ins j).ClearsWake ∧ (stateAt ins j).latchedId = none :=
      ⟨(hq j hj1 hj2).1, latchedId_eq_none.2 (hq j hj1 hj2).2⟩
    refine ⟨h1, h2, m, hm, ?_, not_cleared_run hl hkeep⟩
    rcases readies_iff.1 hwr with h | h
    · exact Or.inl h.1
    · exact Or.inr h
  · rintro ⟨h1, h2, m, hm, hreach, hq⟩
    have hl := (latched_iff hw).2 ⟨h1, h2⟩
    have hclear (j : ℕ) (hj1 : k < j) (hj2 : j < m) : ¬ (stateAt ins j).ClearsWake := by
      rintro ⟨h | h, -⟩
      · exact (hq j hj1 hj2).1 h
      · exact (hq j hj1 hj2).2.1 h
    refine ⟨hl, m, hm, ?_, fun j hj1 hj2 => ⟨hclear j hj1 hj2, latchedId_eq_none.1 (hq j hj1 hj2).2.2⟩⟩
    have hkeep := latched_run hm hl fun j hj1 hj2 => ⟨hclear j hj1 hj2, (hq j hj1 hj2).2.2⟩
    rcases hreach with h | h
    · exact readies_iff.2 (Or.inl ⟨h, hkeep⟩)
    · exact readies_iff.2 (Or.inr h)

/-- a task waits at a semaphore only if it has been the current one in a wait -/
theorem waited_of_waitMask {n : ℕ} {q : SemId} (h : (stateAt ins n).sem.obj.waitMask q t = true) :
    ∃ m < n, (stateAt ins m).semOpInt = 0b10 ∧ (stateAt ins m).currentTaskIdR = t := by
  induction n with
  | zero => simp [stateAt, reset, HwSemaphore.reset, noWaiters] at h
  | succ n ih =>
    rcases waitMask_of_semExec h with h | ⟨hop, ht⟩
    · obtain ⟨m, hm, hw⟩ := ih h
      exact ⟨m, Nat.lt_succ_of_lt hm, hw⟩
    · exact ⟨n, Nat.lt_succ_self n, SemOp.ofCode_wait hop, ht⟩

/-- a post that finds a waiter wakes a task that has waited -/
theorem post_wakes {n : ℕ} (hop : (stateAt ins n).semOpInt = 0b11)
    (hm : (stateAt ins n).sem.obj.waitMask (stateAt ins n).semIdInt t = true) :
    ∃ w, (stateAt ins (n + 1)).sem.ans = ⟨true, false, some w⟩ ∧
      ∃ m < n, (stateAt ins m).semOpInt = 0b10 ∧ (stateAt ins m).currentTaskIdR = w := by
  have hstep : (stateAt ins (n + 1)).sem.ans =
      semAnswer (stateAt ins n).sem.obj (SemOp.ofCode (stateAt ins n).semOpInt) ((stateAt ins n).semArgs (ins n)) := rfl
  rcases hb : bestWake ((stateAt ins n).sem.obj.waitMask (stateAt ins n).semIdInt) (stateAt ins n).prio with _ | w
  · rw [bestWake_eq_none.1 hb t] at hm
    exact absurd hm (by decide)
  · refine ⟨w, ?_, waited_of_waitMask (bestWake_mem hb)⟩
    rw [hstep, hop]
    simp [SemOp.ofCode, semAnswer, semArgs, hb]

/-- the wake register names the task of the last wake event, which is not yet served -/
theorem wake_source (ins : ℕ → RtosIn) (n : ℕ) (h : (stateAt ins n).wakePending = true) :
    ∃ e < n, (stateAt ins e).latchedId = some (stateAt ins n).wakeTargetId ∧ ¬ (stateAt ins e).ClearsWake ∧
      ∀ l, e < l → l < n → ¬ (stateAt ins l).ClearsWake ∧ (stateAt ins l).latchedId = none := by
  induction n with
  | zero => simp [stateAt, reset] at h
  | succ n ih =>
    obtain ⟨htgt, hpend⟩ := step_wake (stateAt ins n) (ins n)
    rw [stateAt_succ] at h ⊢
    obtain ⟨hkept, hor⟩ := hpend.1 h
    rw [htgt]
    cases hl : (stateAt ins n).latchedId with
    | some t => exact ⟨n, Nat.lt_succ_self n, hl, hkept, fun l h1 h2 => by omega⟩
    | none =>
      have hold := hor.resolve_right (by simp [hl])
      obtain ⟨e, he, hle, hke, hq⟩ := ih hold
      refine ⟨e, Nat.lt_succ_of_lt he, hle, hke, fun l h1 h2 => ?_⟩
      rcases Nat.lt_succ_iff_lt_or_eq.1 h2 with h2 | rfl
      · exact hq l h1 h2
      · exact ⟨hkept, hl⟩

/-- a successful semaphore operation takes the FSM to `S_UNBLOCK_TASK` with the task that it wakes -/
theorem unblockTask_of_sem (hf : (stateAt ins k).fsmState = .blockTask) (hx : (ins k).taskExit = false)
    (hp : (stateAt ins k).semOpPending = true) (ha : (stateAt ins k).sem.ans = ⟨true, false, some t⟩) :
    ¬ (stateAt ins k).ClearsWake ∧ (stateAt ins k).latchedId = some t ∧
      (stateAt ins (k + 1)).fsmState = .unblockTask := by
  have hl : (stateAt ins k).latchedId = some t := by simp [latchedId, exits, hf, ha]
  have hok : (stateAt ins k).servedOk (ins k) .sem = true := by simp [servedOk, served, hf, hx, hp, answerOf, ha]
  obtain ⟨-, hnext⟩ := fsmNext_of_success hok (by simp [answerOf, ha]) (by simp [hl])
  exact ⟨not_clearsWake_of_blockTask hf, hl, hnext⟩

theorem unblocks_of_sem (hf : (stateAt ins k).fsmState = .blockTask) (hx : (ins k).taskExit = false)
    (hp : (stateAt ins k).semOpPending = true) (ha : (stateAt ins k).sem.ans = ⟨true, false, some t⟩) :
    Unblocks ins k t := by
  obtain ⟨hkept, hl, hnext⟩ := unblockTask_of_sem hf hx hp ha
  exact ⟨hkept, hl, k + 1, Nat.lt_succ_self k, Or.inl hnext, fun j h1 h2 => by omega⟩

/-! ## Two runs -/

/-- tasks 1 and 2 are created, task 1 with the higher priority -/
def twoTasks (k : ℕ) : RtosIn :=
  { RtosIn.quiet with
    taskCreate := k == 0 || k == 30
    createArgs := if k < 30 then ⟨0x100, 0x800, 2⟩ else ⟨0x200, 0x900, 1⟩ }

def postRun (k : ℕ) : RtosIn := { twoTasks k with semOp := if k = 60 then 0b10 else if k = 90 then 0b11 else 0 }

def joinRun (k : ℕ) : RtosIn :=
  { twoTasks k with taskJoin := k == 60, taskTargetId := 2, taskExit := k == 90 }

/-- up to cycle 92 only task 1 waits; the post of cycle 91 finds it, and the FSM is in `S_BLOCK_TASK` with the answer -/
theorem postRun_facts : (∀ k < 92, (stateAt postRun k).semOpInt = 0b10 → (stateAt postRun k).currentTaskIdR = 1) ∧
    (stateAt postRun 91).semIdInt = 0 ∧ (stateAt postRun 91).sem.obj.waitMask 0 1 = true ∧
    (stateAt postRun 91).semOpInt = 0b11 ∧ (stateAt postRun 92).fsmState = .blockTask ∧
    (stateAt postRun 92).semOpPending = true := by
  decide +kernel

/-- only task 1 has waited, so the post of cycle 91 wakes it -/
theorem post_answer : (stateAt postRun 92).sem.ans = ⟨true, false, some 1⟩ := by
  obtain ⟨hwaits, hid, hmask, hop, -, -⟩ := postRun_facts
  rw [← hid] at hmask
  obtain ⟨w, hw, k, hk, hwait, hcur⟩ := post_wakes hop hmask
  have hone : (stateAt postRun k).currentTaskIdR = 1 := hwaits k (by omega) hwait
  rw [hone] at hcur
  rw [hcur]
  exact hw

/-- `S_UNBLOCK_TASK` follows that wake -/
theorem served_post : Served postRun 92 1 := by
  obtain ⟨-, -, -, -, hblock, hpending⟩ := postRun_facts
  have hu : Unblocks postRun 92 1 := unblocks_of_sem hblock rfl hpending post_answer
  exact (served_iff postRun 92 1 (wakes_of_latchedId hu.latched)).2 hu

/-- task 2 exits in cycle 91, the flag is cleared in cycle 113, and no cycle between them readies task 1 -/
theorem joinRun_facts : (∀ k < 114, 91 < k → (stateAt joinRun k).stateWrNext (joinRun k) ≠ some (1, .ready)) ∧
    (stateAt joinRun 91).Wakes 1 ∧ (stateAt joinRun 92).wakePending = true ∧ (stateAt joinRun 113).ClearsWake ∧
    (stateAt joinRun 114).wakePending = false ∧ ((stateAt joinRun 115).tcb 1).state = .blocked := by
  decide +kernel

theorem not_served_join : ¬ Served joinRun 91 1 := by
  intro hserved
  obtain ⟨hnever, -, -, hclear, -, -⟩ := joinRun_facts
  obtain ⟨m, hm, hwr, hq⟩ := hserved.written
  by_cases h : 113 < m
  · exact (hq 113 (by decide) h).1 hclear
  · exact hnever m (by omega) hm hwr

/-- **A join is never woken.** Task 2 exits in cycle 91; the scheduler scans, and `S_DISPATCH` clears the flag. -/
theorem join_loses_wake : (stateAt joinRun 91).Wakes 1 ∧ ¬ Served joinRun 91 1 ∧
    (stateAt joinRun 92).wakePending = true ∧ (stateAt joinRun 114).wakePending = false ∧
    ((stateAt joinRun 115).tcb 1).state = .blocked := by
  obtain ⟨-, hwakes, hpending, -, hcleared, hblocked⟩ := joinRun_facts
  exact ⟨hwakes, not_served_join, hpending, hcleared, hblocked⟩

end Vsync.HwRtos
