/-
The context transfer behind a change of the running task.

`S_DISPATCH` is reached by two routes. Behind `S_PREEMPT_CHECK` the context-switch unit has saved the bank of the task
that ran and loaded that of the next one. From `S_COMPARE_PRIORITY` with no task active, the route after a block, a join
and an exit, the unit has done nothing.

- `Loads`, `Saves`: what a transaction does, port by port.
- `moves_of_request`: every request is a transaction that does both.
- `request_of_switch`: the transaction behind a dispatch of the first route.
- `stays_inactive`: nothing is switched on the second route.
- `context_moved_iff`: the context is moved exactly on the first route.
- `join_moves_nothing`: a join hands the CPU over as it is.
-/
import Vsync.Rtos.Transaction
import Vsync.Rtos.Progress
import Vsync.Rtos.Joins

namespace Vsync.HwRtos

def MidSwitch (f : SchedFsm) : Prop := f = .preemptCheck ∨ Switching f ∨ f = .dispatch

instance (f : SchedFsm) : Decidable (MidSwitch f) := by unfold MidSwitch Switching; infer_instance

def RunsTask (s : HwRtos) (A : TaskId) : Prop :=
  s.taskActiveR = true ∧ s.currentTaskIdR = A ∧ ¬ MidSwitch s.fsmState

instance (s : HwRtos) (A : TaskId) : Decidable (s.RunsTask A) := by unfold RunsTask; infer_instance

section Names

variable (ins : ℕ → RtosIn)

def unit (n : ℕ) : ContextSwitch := (stateAt ins n).cs

/-- the transaction requested in cycle `a` loads the bank of `B` into the CPU, as it was then -/
structure Loads (a : ℕ) (B : TaskId) : Prop where
  done : (unit ins (a + 63)).switchDone = true
  regs : ∀ r : RegAddr, r ≠ 0#5 → (unit ins (a + 31 + r.toNat)).cpuRegWe = true ∧
    (unit ins (a + 31 + r.toNat)).cpuRegAddr = r ∧ (unit ins (a + 31 + r.toNat)).cpuRegWdata = (unit ins a).regBanks B r
  pc : (unit ins (a + 63)).restorePcReg = (unit ins a).savedPc B

/-- the transaction requested in cycle `a` saves what the CPU shows in the bank of `A` -/
structure Saves (a : ℕ) (A : TaskId) : Prop where
  regs : ∀ r : RegAddr, r ≠ 0#5 → (unit ins (a + r.toNat)).cpuRegAddr = r ∧
    (unit ins (a + 63)).regBanks A r = (ins (a + r.toNat)).ctxSaveRegData
  pc : (unit ins (a + 63)).savedPc A = (ins a).ctxSavePc

/-- task `A` runs for the last time in cycle `n`, seen from cycle `m` -/
structure Stops (A : TaskId) (n m : ℕ) : Prop where
  before : n < m
  runs : (stateAt ins n).RunsTask A
  stopped : ∀ l, n < l → l ≤ m → ∀ T, ¬ (stateAt ins l).RunsTask T

/-- between the cycle in which `A` stopped and the dispatch of `B` a transaction has loaded `B`, and has saved `A` if
the entry of `A` is still valid -/
def Moved (A B : TaskId) (n m : ℕ) : Prop :=
  ∃ a, n < a ∧ a + 63 < m ∧ Loads ins a B ∧ (((stateAt ins m).tcb A).valid = true → Saves ins a A)

end Names

section Run

variable {ins : ℕ → RtosIn}

theorem runs_unit (ins : ℕ → RtosIn) : ContextSwitch.Runs (unit ins) (fun n => (stateAt ins n).csSwitchReq)
    (fun n => (ins n).ctxSaveRegData) fun n => (ins n).ctxSavePc := fun _ => rfl

/-- **Every request is a transaction** that saves the old task and loads the new one. -/
theorem moves_of_request {a : ℕ} {A B : TaskId} (hr : (stateAt ins a).csSwitchReq = some (A, B)) (hAB : A ≠ B) :
    Loads ins a B ∧ Saves ins a A := by
  have hu := runs_unit ins
  have hidle : (unit ins a).state = .idle := (switchPhased_run ins a).request (by rw [hr]; simp)
  obtain ⟨hdone, -⟩ := ContextSwitch.done_of_request hu hidle hr
  obtain ⟨hbanks, hpc⟩ := ContextSwitch.done_frame hu hidle hr
  have hpos (r : RegAddr) (hr0 : r ≠ 0#5) : ∃ n, r.toNat = n + 1 ∧ n < 31 := by
    have : r.toNat ≠ 0 := fun hc => hr0 (BitVec.eq_of_toNat_eq hc)
    have := r.isLt
    exact ⟨r.toNat - 1, by omega, by omega⟩
  constructor
  · refine ⟨by simp [ContextSwitch.switchDone, hdone], fun r hr0 => ?_,
      ContextSwitch.restore_of_request hu hidle hr hAB.symm⟩
    obtain ⟨hwe, haddr, hdata⟩ := ContextSwitch.load_port hu hidle hr r hr0
    obtain ⟨n, hn, hlt⟩ := hpos r hr0
    obtain ⟨-, -, -, hkeep⟩ := ContextSwitch.load_frame hu hidle hr n hlt
    refine ⟨hwe, haddr, hdata.trans ?_⟩
    rw [show a + 31 + r.toNat = a + 32 + n by omega, hkeep B hAB.symm]
  · constructor
    · intro r hr0
      obtain ⟨n, hn, hlt⟩ := hpos r hr0
      obtain ⟨hst, hidx, -⟩ := ContextSwitch.save_run hu hidle hr n hlt
      constructor
      · rw [show a + r.toNat = a + 1 + n by omega]
        simp only [ContextSwitch.cpuRegAddr, hst, hidx]
        rw [← hn, BitVec.ofNat_toNat, BitVec.setWidth_eq]
      · rw [hbanks]
        exact (ContextSwitch.load_begins hu hidle hr).2.2 r hr0
    · rw [hpc, Function.update_self]

/-! ## The route of the FSM -/

/-- inside a switch the tasks of it stay -/
theorem switching_keeps {s : HwRtos} (i : RtosIn) (hf : s.fsmState = .preemptCheck ∨ Switching s.fsmState) :
    (s.step i).currentTaskIdR = s.currentTaskIdR ∧ (s.step i).nextTaskIdR = s.nextTaskIdR ∧
      (s.step i).taskActiveR = s.taskActiveR := by
  rcases hf with hf | hf | hf | hf <;> simp [step, currentTaskIdNext, nextTaskIdNext, taskActiveNext, hf]

theorem switch_source (ins : ℕ → RtosIn) (l : ℕ) (hsw : Switching (stateAt ins l).fsmState) :
    ∃ p < l, (stateAt ins p).fsmState = .preemptCheck ∧ (∀ j, p < j → j ≤ l → Switching (stateAt ins j).fsmState) ∧
      (stateAt ins p).currentTaskIdR = (stateAt ins l).currentTaskIdR ∧
      (stateAt ins p).nextTaskIdR = (stateAt ins l).nextTaskIdR := by
  induction l with
  | zero => simp [stateAt, reset, Switching] at hsw
  | succ l ih =>
    have hkeeps := switching_keeps (s := stateAt ins l) (ins l)
    rcases fsmNext_switching (s := stateAt ins l) (i := ins l) hsw with ⟨hf, -⟩ | hold
    · obtain ⟨hc, hn, -⟩ := hkeeps (Or.inl hf)
      refine ⟨l, Nat.lt_succ_self l, hf, fun j h1 h2 => ?_, hc.symm, hn.symm⟩
      rw [show j = l + 1 by omega]
      exact hsw
    · obtain ⟨hc, hn, -⟩ := hkeeps (Or.inr hold)
      obtain ⟨p, hp, hf, hall, hcp, hnp⟩ := ih hold
      refine ⟨p, Nat.lt_succ_of_lt hp, hf, fun j h1 h2 => ?_, hcp.trans hc.symm, hnp.trans hn.symm⟩
      rcases Nat.lt_or_ge l j with h | h
      · rw [show j = l + 1 by omega]
        exact hsw
      · exact hall j h1 h

/-- the request of a switch, in the cycle behind `S_PREEMPT_CHECK` -/
theorem request_of_preempt {p : ℕ} (hf : (stateAt ins p).fsmState = .preemptCheck) :
    (stateAt ins (p + 1)).csSwitchReq = some ((stateAt ins p).currentTaskIdR, (stateAt ins p).nextTaskIdR) := by
  have hact := (switchPhased_run ins p).active (Or.inl hf)
  change (stateAt ins p).csSwitchReqNext = _
  simp [csSwitchReqNext, hf, hact]

/-- before its transaction is done, a switch does not come to `S_CONTEXT_LOAD` -/
theorem not_loading {p : ℕ} (hf : (stateAt ins p).fsmState = .preemptCheck) (n : ℕ) (hn : n < 64) :
    (stateAt ins (p + 1 + n)).fsmState ≠ .contextLoad := by
  have hu := runs_unit ins
  have hreq := request_of_preempt hf
  have hidle : (unit ins (p + 1)).state = .idle := (switchPhased_run ins (p + 1)).request (by rw [hreq]; simp)
  have hbusy (j : ℕ) (hj : j < 63) : (stateAt ins (p + 1 + j)).cs.switchDone = false := by
    have hne : (unit ins (p + 1 + j)).state ≠ .done := by
      rcases Nat.eq_zero_or_pos j with rfl | hpos
      · rw [Nat.add_zero, hidle]
        decide
      · rcases Nat.lt_or_ge j 32 with hlt | hge
        · have := (ContextSwitch.save_run hu hidle hreq (j - 1) (by omega)).1
          rw [show p + 1 + 1 + (j - 1) = p + 1 + j by omega] at this
          rw [this]
          decide
        · have := (ContextSwitch.load_run hu hidle hreq (j - 32) (by omega)).1
          rw [show p + 1 + 32 + (j - 32) = p + 1 + j by omega] at this
          rw [this]
          decide
    simpa [ContextSwitch.switchDone, unit] using hne
  induction n with
  | zero =>
    change (stateAt ins p).fsmNext (ins p) ≠ _
    simp [fsmNext, hf]
  | succ n ih =>
    intro hload
    have hold := ih (by omega)
    have hact := (switchPhased_run ins (p + 1 + n)).active
    have hdone := hbusy n (by omega)
    rw [← Nat.add_assoc, stateAt_succ] at hload
    rcases fsmNext_switching (Or.inr (Or.inr hload)) with ⟨hfs, hw⟩ | hsw
    · change (stateAt ins (p + 1 + n)).fsmNext _ = _ at hload
      rw [hw] at hload
      exact absurd hload (by decide)
    · have ha := hact (Or.inr hsw)
      change (stateAt ins (p + 1 + n)).fsmNext _ = _ at hload
      rcases hsw with h | h | h
      · simp only [fsmNext, h, ha, if_true] at hload
        split_ifs at hload
      · simp only [fsmNext, h, hdone, Bool.false_eq_true, if_false] at hload
        exact absurd hload (by decide)
      · exact hold h

/-- **The transaction behind a dispatch** of the first route: it was requested for the two tasks and is over. -/
theorem request_of_switch {m : ℕ} (hd : (stateAt ins m).fsmState = .dispatch) (ha : (stateAt ins m).taskActiveR = true)
    (hne : (stateAt ins m).currentTaskIdR ≠ (stateAt ins m).nextTaskIdR) :
    ∃ p, p + 1 + 63 < m ∧ (stateAt ins p).fsmState = .preemptCheck ∧
      (∀ j, p < j → j < m → Switching (stateAt ins j).fsmState) ∧
      (stateAt ins (p + 1)).csSwitchReq = some ((stateAt ins m).currentTaskIdR, (stateAt ins m).nextTaskIdR) := by
  obtain ⟨l, rfl⟩ : ∃ l, m = l + 1 := by
    cases m with
    | zero => simp [stateAt, reset] at hd
    | succ l => exact ⟨l, rfl⟩
  rw [stateAt_succ] at hd ha hne ⊢
  have hload : (stateAt ins l).fsmState = .contextLoad := by
    rcases fsmNext_dispatch (s := stateAt ins l) (i := ins l) hd with ⟨hfs, hin, -⟩ | ⟨hfs, -, hc⟩ | ⟨hfs, -⟩
    · simp [step, taskActiveNext, hfs, hin] at ha
    · have hcmp := (phased_run ins l).comparing hfs
      rw [hc] at hcmp
      simp [step, currentTaskIdNext, nextTaskIdNext, hfs, hcmp] at hne
    · exact hfs
  obtain ⟨hcur, hnext, -⟩ := switching_keeps (ins l) (Or.inr (Or.inr (Or.inr hload)))
  obtain ⟨p, hp, hf, hall, hcp, hnp⟩ := switch_source ins l (Or.inr (Or.inr hload))
  have hlate : p + 1 + 63 < l + 1 := by
    by_contra hc
    obtain ⟨n, hn, hlt⟩ : ∃ n, l = p + 1 + n ∧ n < 64 := ⟨l - (p + 1), by omega, by omega⟩
    rw [hn] at hload
    exact not_loading hf n hlt hload
  refine ⟨p, hlate, hf, fun j h1 h2 => hall j h1 (by omega), ?_⟩
  rw [request_of_preempt hf, hcp, hnp, hcur, hnext]

/-- **Nothing is switched on the second route**: a dispatch without an active task finds none since the task has
stopped. -/
theorem stays_inactive {A : TaskId} {n m : ℕ} (hs : Stops ins A n m) (ha : (stateAt ins m).taskActiveR = false) (l : ℕ)
    (h1 : n < l) (h2 : l ≤ m) : (stateAt ins l).taskActiveR = false := by
  by_contra hc
  rw [Bool.not_eq_false] at hc
  -- an active task that does not run is in the middle of a switch, and stays so up to the dispatch
  have hrun : ∀ j, l ≤ j → j ≤ m → (stateAt ins j).taskActiveR = true := by
    intro j hlj
    induction j, hlj using Nat.le_induction with
    | base => exact fun _ => hc
    | succ j hlj ih =>
      intro hj
      have hact := ih (by omega)
      have hmid : MidSwitch (stateAt ins j).fsmState := by
        by_contra hno
        exact hs.stopped j (by omega) (by omega) _ ⟨hact, rfl, hno⟩
      rw [stateAt_succ]
      rcases hmid with hf | hf | hf
      · rw [(switching_keeps (ins j) (Or.inl hf)).2.2]
        exact hact
      · rw [(switching_keeps (ins j) (Or.inr hf)).2.2]
        exact hact
      · simp [step, taskActiveNext, hf]
  rw [hrun m h2 (le_refl m)] at ha
  exact absurd ha (by decide)

/-- the task that ran is the current one until the dispatch -/
theorem current_of_stops {A : TaskId} {n m : ℕ} (hs : Stops ins A n m) : (stateAt ins m).currentTaskIdR = A := by
  have hrun : ∀ j, n ≤ j → j ≤ m → (stateAt ins j).currentTaskIdR = A := by
    intro j hnj
    induction j, hnj using Nat.le_induction with
    | base => exact fun _ => hs.runs.2.1
    | succ j hnj ih =>
      intro hj
      have hcur := ih (by omega)
      have hnd : (stateAt ins j).fsmState ≠ .dispatch := by
        intro hd
        refine hs.stopped (j + 1) (by omega) hj _ ⟨?_, rfl, ?_⟩
        · simp [stateAt_succ, step, taskActiveNext, hd]
        · simp [stateAt_succ, step, fsmNext, hd, MidSwitch, Switching]
      rw [stateAt_succ]
      simp [step, currentTaskIdNext, hnd, hcur]
  exact hrun m hs.before.le (le_refl m)

end Run

/-- **The context is moved exactly on the first route**: the task that ran is still active when the next one is
dispatched. -/
theorem context_moved_iff (ins : ℕ → RtosIn) (A B : TaskId) (n m : ℕ) (hs : Stops ins A n m)
    (hd : (stateAt ins m).fsmState = .dispatch) (hB : (stateAt ins m).nextTaskIdR = B) (hAB : A ≠ B) :
    Moved ins A B n m ↔ (stateAt ins m).taskActiveR = true := by
  constructor
  · rintro ⟨a, hna, ham, hl, -⟩
    by_contra hc
    rw [Bool.not_eq_true] at hc
    have hwe : (stateAt ins (a + 32)).cs.cpuRegWe = true := (hl.regs 1#5 (by decide)).1
    have hsw : Switching (stateAt ins (a + 32)).fsmState := by
      by_contra hno
      have hidle := ((switchPhased_run ins (a + 32)).rest hno).1
      rw [ContextSwitch.cpuRegWe, hidle] at hwe
      exact absurd hwe (by decide)
    have hin := stays_inactive hs hc (a + 32) (by omega) (by omega)
    rw [(switchPhased_run ins _).active (Or.inr hsw)] at hin
    exact absurd hin (by decide)
  · intro ha
    have hcur := current_of_stops hs
    obtain ⟨p, hp, hf, hall, hreq⟩ := request_of_switch hd ha (by rw [hcur, hB]; exact hAB)
    rw [hcur, hB] at hreq
    obtain ⟨hload, hsave⟩ := moves_of_request hreq hAB
    have hnp : n ≤ p := by
      by_contra hlt
      exact hs.runs.2.2 (Or.inr (Or.inl (hall n (by omega) hs.before)))
    exact ⟨p + 1, by omega, hp, hload, fun _ => hsave⟩

/-- task 1 runs in cycle 61, and its join blocks it: up to the dispatch of task 2 in cycle 83 no task is active, or the
FSM is in the middle of a switch -/
theorem joinRun_handover : (stateAt joinRun 61).RunsTask 1 ∧
    (∀ l < 84, 61 < l → (stateAt joinRun l).taskActiveR = false ∨ MidSwitch (stateAt joinRun l).fsmState) ∧
    (stateAt joinRun 83).fsmState = .dispatch ∧ (stateAt joinRun 83).nextTaskIdR = 2 ∧
    ((stateAt joinRun 83).tcb 1).valid = true := by
  decide +kernel

theorem joinRun_stops : Stops joinRun 1 61 83 := by
  obtain ⟨hruns, hidle, -⟩ := joinRun_handover
  refine ⟨by decide, hruns, fun l h1 h2 T hT => ?_⟩
  rcases hidle l (by omega) h1 with h | h
  · rw [RunsTask, h] at hT
    exact absurd hT.1 (by decide)
  · exact hT.2.2 h

/-- what that says of the dispatch of task 2 behind the join of task 1 -/
theorem context_moved_iff_joinRun : Moved joinRun 1 2 61 83 ↔ (stateAt joinRun 83).taskActiveR = true :=
  context_moved_iff joinRun 1 2 61 83 joinRun_stops joinRun_handover.2.2.1 joinRun_handover.2.2.2.1 (by decide)

/-- **A join hands the CPU over as it is.** Task 1 runs up to cycle 61 and is blocked; task 2 is dispatched in cycle 83,
and the unit has not moved since. -/
theorem join_moves_nothing : Stops joinRun 1 61 83 ∧ (stateAt joinRun 83).fsmState = .dispatch ∧
    (stateAt joinRun 83).nextTaskIdR = 2 ∧ ((stateAt joinRun 83).tcb 1).valid = true ∧ ¬ Moved joinRun 1 2 61 83 := by
  obtain ⟨-, -, hdispatch, hnext, hvalid⟩ := joinRun_handover
  refine ⟨joinRun_stops, hdispatch, hnext, hvalid, ?_⟩
  rintro ⟨a, h1, h2, -⟩
  omega

end Vsync.HwRtos
