/-
Progress of the scheduler FSM.

With no further request and an acknowledge for each switch, the FSM comes back to `S_IDLE`, and the rank of a state says
how many cycles that may take. Two kinds of states are stuck for good:
- in `S_BLOCK_TASK`, when no pending operation is ever answered: the code `11`, which the mutex and the queue take for
  no operation, or a post on a full semaphore where nobody waits;
- behind a late acknowledge: the transaction is over before `S_CONTEXT_SAVE` begins to wait for its end.

- `Stuck`: these states; `step_stuck`: nothing leads out of them.
- `SwitchPhased`, `switchPhased_run`: the phases of the context switch unit in every run.
- `step_lower`: a quiet cycle lowers the rank of a state that is not stuck.
- `reaches_idle_iff`: from a reachable state the FSM comes back to `S_IDLE` exactly when the state is not stuck.
- `unlock_sticks`: the code that the POSIX layer sends for an unlock is never answered.
-/
import Vsync.Rtos.Phases

namespace Vsync.HwRtos

/-! ## Stuck states -/

def pendingOf (s : HwRtos) : Unit3 → Bool
  | .sem => s.semOpPending
  | .mutex => s.mutexOpPending
  | .msgq => s.msgqOpPending

def answered (s : HwRtos) (u : Unit3) : Bool := (s.answerOf u).success || (s.answerOf u).block

/-- the unit executes what it never answers -/
def Mute (s : HwRtos) : Unit3 → Prop
  | .sem =>
    SemOp.ofCode s.semOpInt = .nop ∨ (SemOp.ofCode s.semOpInt = .post ∧
      (∀ t, s.sem.obj.waitMask s.semIdInt t = false) ∧ ¬ s.sem.obj.count s.semIdInt < s.sem.obj.maxCount s.semIdInt)
  | .mutex => MutexOp.ofCode s.mutexOpInt = .nop
  | .msgq => MsgqOp.ofCode s.msgqOpInt = .nop

/-- an operation is pending, and no pending one has been or will be answered -/
structure Unanswered (s : HwRtos) : Prop where
  waits : s.fsmState = .blockTask
  pending : ∃ u, s.pendingOf u = true
  mute : ∀ u, s.pendingOf u = true → s.answered u = false ∧ s.Mute u

/-- the FSM waits for the end of a transaction that is over -/
def Missed (s : HwRtos) : Prop :=
  s.cs.state = .idle ∧ s.csSwitchReq = none ∧ (s.fsmState = .waitCtxAck ∨ s.fsmState = .contextSave) ∨
    s.cs.state = .done ∧ s.fsmState = .waitCtxAck

def Stuck (s : HwRtos) : Prop := s.Unanswered ∨ s.Missed

/-- no request, no tick, and the switch is acknowledged as soon as the FSM waits for it -/
structure Quieted (s : HwRtos) (i : RtosIn) : Prop where
  task : i.taskCreate = false ∧ i.taskExit = false ∧ i.taskJoin = false ∧ i.taskYield = false
  object : i.semOp = 0 ∧ i.mutexOp = 0 ∧ i.msgqOp = 0
  tick : i.timerTick = false ∧ i.axiWrReschedule = false
  ack : s.fsmState = .waitCtxAck → i.ctxSwitchAck = true

/-! ## The context switch unit in every run -/

/-- the phases of a switch: the unit rests outside it, and `S_CONTEXT_LOAD` waits for a transaction that goes on -/
structure SwitchPhased (s : HwRtos) : Prop where
  rest : ¬ Switching s.fsmState → s.cs.state = .idle ∧ s.csSwitchReq = none
  request : s.csSwitchReq ≠ none → s.cs.state = .idle
  load : s.fsmState = .contextLoad → s.csSwitchReq ≠ none ∨ s.cs.state ≠ .idle
  active : s.fsmState = .preemptCheck ∨ Switching s.fsmState → s.taskActiveR = true

theorem reset_switchPhased : SwitchPhased reset := by
  constructor <;> simp [reset, ContextSwitch.reset, Switching]

section Step

variable {s : HwRtos} {i : RtosIn}

theorem step_cs (s : HwRtos) (i : RtosIn) :
    (s.step i).cs = s.cs.step s.csSwitchReq i.ctxSaveRegData i.ctxSavePc := rfl

/-- a transaction that goes on does not end in rest -/
theorem cs_goes_on {c : ContextSwitch} {req : Option (TaskId × TaskId)} {d pc : Word} (h : req ≠ none ∨ c.state ≠ .idle)
    (hd : c.state ≠ .done) : (c.step req d pc).state ≠ .idle := by
  unfold ContextSwitch.step
  cases hc : c.state with
  | idle =>
    rcases req with _ | ⟨o, n⟩
    · simp [hc] at h
    · simp
  | save => simp only; split_ifs <;> simp
  | load => simp only; split_ifs <;> simp
  | done => exact absurd hc hd

theorem step_switchPhased (i : RtosIn) (h : SwitchPhased s) : SwitchPhased (s.step i) where
  rest hf := by
    by_cases hsw : Switching s.fsmState
    · have hl : s.fsmState = .contextLoad ∧ s.cs.switchDone = true := fsmNext_not_switching hsw hf
      have hd : s.cs.state = .done := by simpa [ContextSwitch.switchDone] using hl.2
      simp [step, csSwitchReqNext, hl.1, ContextSwitch.step, hd]
    · obtain ⟨hidle, hreq⟩ := h.rest hsw
      have hp : s.fsmState ≠ .preemptCheck := by
        intro hp
        simp [step, fsmNext, hp, Switching] at hf
      have hc : s.fsmState ≠ .contextSave := fun hc => hsw (Or.inr (Or.inl hc))
      refine ⟨by simp [step, ContextSwitch.step, hidle, hreq], ?_⟩
      cases hfs : s.fsmState <;> simp_all [step, csSwitchReqNext]
  request hreq := by
    simp only [step, csSwitchReqNext] at hreq
    split at hreq
    · rename_i hf
      have hsw : ¬ Switching s.fsmState := by simp [hf, Switching]
      obtain ⟨hidle, hno⟩ := h.rest hsw
      simp [step, ContextSwitch.step, hidle, hno]
    · split_ifs at hreq with hd
      · have hdone : s.cs.state = .done := by simpa [ContextSwitch.switchDone] using hd
        simp [step, ContextSwitch.step, hdone]
      · exact absurd rfl hreq
    · exact absurd rfl hreq
  load hf := by
    have hpre : (s.fsmState = .contextSave ∧ s.cs.switchDone = true) ∨
        (s.fsmState = .contextLoad ∧ s.cs.switchDone = false) := by
      rcases fsmNext_switching (Or.inr (Or.inr hf)) with ⟨hfs, hw⟩ | hsw
      · simp only [step] at hf
        rw [hf] at hw
        exact absurd hw (by decide)
      · have hact := h.active (Or.inr hsw)
        change s.fsmNext i = .contextLoad at hf
        rcases hsw with hsw | hsw | hsw
        · simp only [fsmNext, hsw, hact] at hf
          split_ifs at hf
        · refine .inl ⟨hsw, ?_⟩
          by_contra hd
          simp [fsmNext, hsw, hd] at hf
        · refine .inr ⟨hsw, ?_⟩
          by_contra hd
          simp [fsmNext, hsw, hd] at hf
    rcases hpre with ⟨hfs, hd⟩ | ⟨hfs, hd⟩
    · left
      simp [step, csSwitchReqNext, hfs, hd]
    · right
      rw [step_cs]
      exact cs_goes_on (h.load hfs) (by simpa [ContextSwitch.switchDone] using hd)
  active hf := by
    have hold : s.taskActiveR = true ∧ s.fsmState ≠ .taskExit ∧ s.fsmState ≠ .blockTask ∧ s.fsmState ≠ .taskJoin := by
      rcases hf with hf | hf
      · obtain ⟨hfs, ha, -⟩ := fsmNext_preemptCheck hf
        simp [hfs, ha]
      · rcases fsmNext_switching hf with ⟨hfs, -⟩ | hsw
        · refine ⟨h.active (Or.inl hfs), ?_⟩
          simp [hfs]
        · refine ⟨h.active (Or.inr hsw), ?_⟩
          rcases hsw with hsw | hsw | hsw <;> simp [hsw]
    simp only [step, taskActiveNext]
    split <;> simp_all

end Step

theorem switchPhased_run (ins : ℕ → RtosIn) (n : ℕ) : SwitchPhased (stateAt ins n) :=
  Machine.trace_inv step reset ins reset_switchPhased (fun _ i h => step_switchPhased i h) n

/-! ## Answers -/

section Answers

variable {s : HwRtos} {i : RtosIn}

theorem semAnswer_silent (o : SemObj) (op : SemOp) (a : SemArgs) :
    ((semAnswer o op a).success || (semAnswer o op a).block) = false ↔
      op = .nop ∨ (op = .post ∧ (∀ t, o.waitMask a.semId t = false) ∧ ¬ o.count a.semId < o.maxCount a.semId) := by
  cases op with
  | nop => simp [Answer.idle]
  | init => simp [semAnswer]
  | wait =>
    simp only [semAnswer]
    split_ifs <;> simp
  | post =>
    rw [← @bestWake_eq_none _ a.prio]
    simp only [semAnswer]
    cases bestWake (o.waitMask a.semId) a.prio with
    | some w => simp
    | none =>
      simp only
      split_ifs with h <;> simp [Answer.idle, h]

theorem mutexAnswer_silent (o : MutexObj) (op : MutexOp) (a : MutexArgs) :
    ((mutexAnswer o op a).success || (mutexAnswer o op a).block) = false ↔ op = .nop := by
  cases op with
  | nop => simp [Answer.idle]
  | lock =>
    simp only [mutexAnswer]
    split_ifs <;> simp
  | unlock =>
    simp only [mutexAnswer]
    split_ifs <;> simp

theorem msgqAnswer_silent (o : MsgqObj) (op : MsgqOp) (a : MsgqArgs) :
    ((msgqAnswer o op a).success || (msgqAnswer o op a).block) = false ↔ op = .nop := by
  cases op with
  | nop => simp [msgqAnswer, Answer.idle]
  | send =>
    simp only [msgqAnswer]
    split_ifs <;> simp
  | recv =>
    simp only [msgqAnswer]
    split_ifs <;> simp

/-- **What a unit executes decides whether it answers in the next cycle.** -/
theorem step_answered (s : HwRtos) (i : RtosIn) (u : Unit3) : (s.step i).answered u = false ↔ s.Mute u := by
  cases u with
  | sem => exact semAnswer_silent s.sem.obj (SemOp.ofCode s.semOpInt) (s.semArgs i)
  | mutex => exact mutexAnswer_silent s.mutex.obj (MutexOp.ofCode s.mutexOpInt) s.mutexArgs
  | msgq => exact msgqAnswer_silent s.msgq.obj (MsgqOp.ofCode s.msgqOpInt) s.msgqArgs

/-- `S_BLOCK_TASK` waits exactly while an operation is pending and none has been answered -/
theorem fsmNext_blockTask (hf : s.fsmState = .blockTask) (hx : i.taskExit = false) :
    s.fsmNext i = .blockTask ↔ (∃ u, s.pendingOf u = true) ∧ ∀ u, s.pendingOf u = true → s.answered u = false := by
  have hex : (∃ u, s.pendingOf u = true) ↔ (s.semOpPending || s.mutexOpPending || s.msgqOpPending) = true := by
    constructor
    · rintro ⟨u, hu⟩
      cases u <;> simp only [pendingOf] at hu <;> simp [hu]
    · intro h
      simp only [Bool.or_eq_true] at h
      rcases h with (h | h) | h
      · exact ⟨.sem, h⟩
      · exact ⟨.mutex, h⟩
      · exact ⟨.msgq, h⟩
  have hall : (∀ u, s.pendingOf u = true → s.answered u = false) ↔
      (s.semOpPending = true → (s.sem.ans.success || s.sem.ans.block) = false) ∧
        (s.mutexOpPending = true → (s.mutex.ans.success || s.mutex.ans.block) = false) ∧
        (s.msgqOpPending = true → (s.msgq.ans.success || s.msgq.ans.block) = false) := by
    constructor
    · intro h
      exact ⟨h .sem, h .mutex, h .msgq⟩
    · rintro ⟨h1, h2, h3⟩ u
      cases u with
      | sem => exact h1
      | mutex => exact h2
      | msgq => exact h3
  rw [hex, hall]
  simp only [fsmNext, hf, hx, afterSuccess, Bool.false_eq_true, if_false]
  split_ifs <;> simp_all

/-- while it waits, the flags, the codes and the ids of the pending operations stay -/
theorem block_keeps (hf : s.fsmState = .blockTask) (hx : i.taskExit = false)
    (hno : ∀ u, s.pendingOf u = true → s.answered u = false) (u : Unit3) :
    (s.step i).pendingOf u = s.pendingOf u := by
  have hserved (v : Unit3) : s.servedOk i v = false ∧ s.servedBlock i v = false := by
    by_cases hv : s.served i = some v
    · have hp : s.pendingOf v = true := by
        have hpend := (served_iff_pending.1 hv).2
        cases v with
        | sem => exact hpend
        | mutex => exact hpend.2
        | msgq => exact hpend.2.2
      have ha := hno v hp
      simp only [answered, Bool.or_eq_false_iff] at ha
      simp [servedOk, servedBlock, ha]
    · simp [servedOk, servedBlock, hv]
  have hissue (v : Unit3) : s.issues i ≠ some v := by simp [issues, hf]
  cases u <;> simp only [pendingOf, step, opPendingNext, hissue, hx, (hserved _).1, (hserved _).2] <;> simp

theorem step_mute (hf : s.fsmState = .blockTask) (hx : i.taskExit = false) {u : Unit3} (ha : s.answered u = false)
    (hm : s.Mute u) : (s.step i).Mute u := by
  have hissue (v : Unit3) : s.issues i ≠ some v := by simp [issues, hf]
  have hcode (c o : BitVec 2) : s.opIntNext i u c o = c := by
    simp only [answered, Bool.or_eq_false_iff] at ha
    simp [opIntNext, hissue, hx, ha]
  cases u with
  | sem =>
    have hid : (s.step i).semIdInt = s.semIdInt := by simp [step, hissue]
    have hop : (s.step i).semOpInt = s.semOpInt := hcode _ _
    have hobj : (s.step i).sem.obj = semExec s.sem.obj (SemOp.ofCode s.semOpInt) (s.semArgs i) := rfl
    unfold Mute at hm ⊢
    simp only [hid, hop]
    rcases hm with hn | ⟨hp, hmask, hc⟩
    · exact Or.inl hn
    · have hkeep : semExec s.sem.obj (SemOp.ofCode s.semOpInt) (s.semArgs i) = s.sem.obj := by
        have hbest : bestWake (s.sem.obj.waitMask s.semIdInt) s.prio = none := bestWake_eq_none.2 hmask
        simp [hp, semExec, semArgs, hbest, hc]
      rw [hobj, hkeep]
      exact Or.inr ⟨hp, hmask, hc⟩
  | mutex =>
    have hop : (s.step i).mutexOpInt = s.mutexOpInt := hcode _ _
    unfold Mute at hm ⊢
    rw [hop]
    exact hm
  | msgq =>
    have hop : (s.step i).msgqOpInt = s.msgqOpInt := hcode _ _
    unfold Mute at hm ⊢
    rw [hop]
    exact hm

end Answers

/-! ## The rank -/

def csLeft (c : ContextSwitch) : ℕ :=
  match c.state with
  | .idle => 66
  | .save => 65 - c.regIdx.toNat
  | .load => 32 - c.regIdx.toNat
  | .done => 0

def schedLeft (s : HwRtos) : ℕ :=
  match s.sched.state with
  | .idle => if s.schedTrigger then 19 else 20
  | .scan => 18 - s.sched.scanIdx
  | .preempt => 2
  | .switch => 1
  | .done => 0

/-- how many cycles the way back to `S_IDLE` may take -/
def rank (s : HwRtos) : ℕ :=
  match s.fsmState with
  | .idle => 0
  | .dispatch => 1
  | .contextLoad => 2 + csLeft s.cs
  | .contextSave => 70 + csLeft s.cs
  | .waitCtxAck => 140 + csLeft s.cs
  | .preemptCheck => 220
  | .comparePriority => 221
  | .scanReady => 222 + s.schedLeft
  | .taskExit => 251
  | .blockTask =>
    if [Unit3.sem, .mutex, .msgq].any fun u => s.pendingOf u && s.answered u then 252 else 253
  | _ => 250

theorem csLeft_le (c : ContextSwitch) : csLeft c ≤ 66 := by
  unfold csLeft
  cases c.state <;> simp only <;> omega

theorem schedLeft_le (s : HwRtos) : s.schedLeft ≤ 20 := by
  unfold schedLeft
  cases s.sched.state <;> simp only <;> first | omega | (split_ifs <;> omega)

theorem cs_lower {c : ContextSwitch} {req : Option (TaskId × TaskId)} {d pc : Word} (h : req ≠ none ∨ c.state ≠ .idle)
    (hd : c.state ≠ .done) : csLeft (c.step req d pc) < csLeft c := by
  have hnext : c.regIdx ≠ 31#5 → (c.regIdx + 1).toNat = c.regIdx.toNat + 1 := by
    intro h31
    bv_omega
  unfold ContextSwitch.step csLeft
  cases hc : c.state with
  | idle =>
    rcases req with _ | ⟨o, n⟩
    · simp [hc] at h
    · simp
  | save =>
    simp only
    split_ifs with h31
    · simp [h31]
    · simp only [hnext h31]
      have := c.regIdx.isLt
      omega
  | load =>
    simp only
    split_ifs with h31
    · simp [h31]
    · have := hnext h31
      simp only [this]
      have hlt : c.regIdx.toNat < 31 := by bv_omega
      omega
  | done => exact absurd hc hd

theorem sched_lower {s : HwRtos} {i : RtosIn} (hf : s.fsmState = .scanReady) (hd : s.sched.done = false) :
    (s.step i).schedLeft < s.schedLeft := by
  unfold schedLeft
  cases hsc : s.sched.state with
  | idle =>
    cases ht : s.schedTrigger with
    | false => simp [step, schedTriggerNext, hf, TaskScheduler.step, hsc, ht, TaskScheduler.busy, TaskScheduler.done]
    | true => simp [step, TaskScheduler.step, hsc, ht]
  | scan =>
    by_cases h15 : s.sched.scanIdx = 15
    · by_cases ht : s.sched.takes s.tcb = true <;> simp [step, TaskScheduler.step, hsc, h15, ht]
    · have hidx : (s.sched.scanIdx + 1 : Fin 16).val = s.sched.scanIdx.val + 1 := by
        rw [Fin.val_add_one]
        exact if_neg h15
      have hlt : s.sched.scanIdx.val < 16 := s.sched.scanIdx.isLt
      by_cases ht : s.sched.takes s.tcb = true
      · simp only [step, TaskScheduler.step, hsc, h15, ht, if_true, if_false, hidx]
        omega
      · rw [Bool.not_eq_true] at ht
        simp only [step, TaskScheduler.step, hsc, h15, ht, Bool.false_eq_true, if_false, hidx]
        omega
  | preempt =>
    simp only [step, TaskScheduler.step, hsc]
    split_ifs <;> simp
  | switch => simp [step, TaskScheduler.step, hsc]
  | done => simp [TaskScheduler.done, hsc] at hd

section Lower

variable {s : HwRtos} {i : RtosIn}

theorem not_stuck_of (h : s.fsmState ≠ .blockTask ∧ s.fsmState ≠ .waitCtxAck ∧ s.fsmState ≠ .contextSave) :
    ¬ s.Stuck := by
  rintro (hu | ⟨-, -, hf | hf⟩ | ⟨-, hf⟩)
  · exact h.1 hu.waits
  · exact h.2.1 hf
  · exact h.2.2 hf
  · exact h.2.1 hf

theorem missed_of_goes_on (h : s.cs.state ≠ .idle) (hf : s.fsmState ≠ .waitCtxAck) (hb : s.fsmState ≠ .blockTask) :
    ¬ s.Stuck := by
  rintro (hu | ⟨hi, -⟩ | ⟨-, hw⟩)
  · exact hb hu.waits
  · exact h hi
  · exact hf hw

theorem rank_block (hf : s.fsmState = .blockTask) :
    rank s = if [Unit3.sem, .mutex, .msgq].any (fun u => s.pendingOf u && s.answered u) then 252 else 253 := by
  simp only [rank, hf]

/-- some unit answers in the next cycle -/
theorem block_stays_lower (hf : s.fsmState = .blockTask) (hx : i.taskExit = false) (hns : ¬ s.Stuck)
    (hstay : s.fsmNext i = .blockTask) : ¬ (s.step i).Stuck ∧ rank (s.step i) < rank s := by
  obtain ⟨⟨u, hu⟩, hno⟩ := (fsmNext_blockTask hf hx).1 hstay
  obtain ⟨v, hv, hm⟩ : ∃ v, s.pendingOf v = true ∧ ¬ s.Mute v := by
    by_contra hc
    push Not at hc
    exact hns (Or.inl ⟨hf, ⟨u, hu⟩, fun v hv => ⟨hno v hv, hc v hv⟩⟩)
  have hans : (s.step i).answered v = true := by
    rw [← Bool.not_eq_false, step_answered]
    exact hm
  have hpend : (s.step i).pendingOf v = true := by
    rw [block_keeps hf hx hno]
    exact hv
  have hf' : (s.step i).fsmState = .blockTask := hstay
  constructor
  · rintro (h | ⟨-, -, h | h⟩ | ⟨-, h⟩)
    · rw [(h.mute v hpend).1] at hans
      exact absurd hans (by decide)
    · rw [hf'] at h
      exact absurd h (by decide)
    · rw [hf'] at h
      exact absurd h (by decide)
    · rw [hf'] at h
      exact absurd h (by decide)
  · have hnow : [Unit3.sem, .mutex, .msgq].any (fun u => s.pendingOf u && s.answered u) = false := by
      rw [List.any_eq_false]
      intro w _
      cases hw : s.pendingOf w with
      | false => simp
      | true => simp [hno w hw]
    have hthen : [Unit3.sem, .mutex, .msgq].any (fun u => (s.step i).pendingOf u && (s.step i).answered u) = true := by
      rw [List.any_eq_true]
      refine ⟨v, ?_, by simp [hpend, hans]⟩
      cases v <;> simp
    rw [rank_block hf, rank_block hf', hnow, hthen]
    decide

/-- the pending operation has been answered -/
theorem block_leaves_lower (hf : s.fsmState = .blockTask) (hx : i.taskExit = false)
    (hleave : s.fsmNext i ≠ .blockTask) :
    ¬ (s.step i).Stuck ∧ rank (s.step i) < rank s := by
  have hmem := fsmNext_of_blockTask (i := i) hf
  have hexit : s.fsmNext i ≠ .taskExit := by
    intro h
    simp only [fsmNext, hf, hx, afterSuccess, Bool.false_eq_true, if_false] at h
    split_ifs at h
  have hcases : s.fsmNext i = .scanReady ∨ s.fsmNext i = .unblockTask ∨ s.fsmNext i = .idle := by
    simp only [List.mem_cons, List.not_mem_nil, or_false] at hmem
    tauto
  have hge : 252 ≤ rank s := by
    rw [rank_block hf]
    split_ifs <;> decide
  have hs := schedLeft_le (s.step i)
  rcases hcases with h | h | h
  · refine ⟨not_stuck_of (by simp [step, h]), ?_⟩
    have : rank (s.step i) = 222 + (s.step i).schedLeft := by simp only [rank, step, h]
    omega
  · refine ⟨not_stuck_of (by simp [step, h]), ?_⟩
    have : rank (s.step i) = 250 := by simp only [rank, step, h]
    omega
  · refine ⟨not_stuck_of (by simp [step, h]), ?_⟩
    have : rank (s.step i) = 0 := by simp only [rank, step, h]
    omega

/-- `S_BLOCK_TASK`: the FSM leaves at once, or in the next cycle, in which some unit answers -/
theorem block_lower (hf : s.fsmState = .blockTask) (hx : i.taskExit = false) (hns : ¬ s.Stuck) :
    ¬ (s.step i).Stuck ∧ rank (s.step i) < rank s := by
  by_cases hstay : s.fsmNext i = .blockTask
  · exact block_stays_lower hf hx hns hstay
  · exact block_leaves_lower hf hx hstay

/-- a state that waits for the transaction is not stuck only while the transaction goes on -/
theorem goes_on_of_not_stuck (hf : s.fsmState = .waitCtxAck ∨ s.fsmState = .contextSave) (hns : ¬ s.Stuck) :
    s.csSwitchReq ≠ none ∨ s.cs.state ≠ .idle := by
  by_contra hc
  push Not at hc
  exact hns (Or.inr (Or.inl ⟨hc.2, hc.1, hf⟩))

theorem ack_lower (hp : SwitchPhased s) (hf : s.fsmState = .waitCtxAck) (hack : i.ctxSwitchAck = true)
    (hns : ¬ s.Stuck) :
    ¬ (s.step i).Stuck ∧ rank (s.step i) < rank s := by
  have hact := hp.active (Or.inr (Or.inl hf))
  have hle := csLeft_le (s.step i).cs
  have hf' : (s.step i).fsmState = .contextSave := by simp [step, fsmNext, hf, hack, hact]
  have hnd : s.cs.state ≠ .done := fun hd => hns (Or.inr (Or.inr ⟨hd, hf⟩))
  have hgo : (s.step i).cs.state ≠ .idle := by
    rw [step_cs]
    exact cs_goes_on (goes_on_of_not_stuck (Or.inl hf) hns) hnd
  refine ⟨missed_of_goes_on hgo (by simp [hf']) (by simp [hf']), ?_⟩
  have h1 : rank (s.step i) = 70 + csLeft (s.step i).cs := by simp only [rank, hf']
  have h2 : rank s = 140 + csLeft s.cs := by simp only [rank, hf]
  omega

theorem save_lower (hf : s.fsmState = .contextSave) (hns : ¬ s.Stuck) :
    ¬ (s.step i).Stuck ∧ rank (s.step i) < rank s := by
  have hle := csLeft_le (s.step i).cs
  have hon := goes_on_of_not_stuck (Or.inr hf) hns
  have h2 : rank s = 70 + csLeft s.cs := by simp only [rank, hf]
  by_cases hd : s.cs.state = .done
  · have hf' : (s.step i).fsmState = .contextLoad := by simp [step, fsmNext, hf, ContextSwitch.switchDone, hd]
    refine ⟨not_stuck_of (by simp [hf']), ?_⟩
    have h1 : rank (s.step i) = 2 + csLeft (s.step i).cs := by simp only [rank, hf']
    omega
  · have hf' : (s.step i).fsmState = .contextSave := by simp [step, fsmNext, hf, ContextSwitch.switchDone, hd]
    have hgo : (s.step i).cs.state ≠ .idle := by
      rw [step_cs]
      exact cs_goes_on hon hd
    refine ⟨missed_of_goes_on hgo (by simp [hf']) (by simp [hf']), ?_⟩
    have h1 : rank (s.step i) = 70 + csLeft (s.step i).cs := by simp only [rank, hf']
    have hlow : csLeft (s.step i).cs < csLeft s.cs := cs_lower hon hd
    omega

theorem load_lower (hp : SwitchPhased s) (hf : s.fsmState = .contextLoad) :
    ¬ (s.step i).Stuck ∧ rank (s.step i) < rank s := by
  have h2 : rank s = 2 + csLeft s.cs := by simp only [rank, hf]
  by_cases hd : s.cs.state = .done
  · have hf' : (s.step i).fsmState = .dispatch := by simp [step, fsmNext, hf, ContextSwitch.switchDone, hd]
    refine ⟨not_stuck_of (by simp [hf']), ?_⟩
    have h1 : rank (s.step i) = 1 := by simp only [rank, hf']
    omega
  · have hf' : (s.step i).fsmState = .contextLoad := by simp [step, fsmNext, hf, ContextSwitch.switchDone, hd]
    refine ⟨not_stuck_of (by simp [hf']), ?_⟩
    have h1 : rank (s.step i) = 2 + csLeft (s.step i).cs := by simp only [rank, hf']
    have hlow : csLeft (s.step i).cs < csLeft s.cs := cs_lower (hp.load hf) hd
    omega

/-- `S_PREEMPT_CHECK`: the request is on its way to the context switch unit -/
theorem preempt_lower (hp : SwitchPhased s) (hf : s.fsmState = .preemptCheck) :
    ¬ (s.step i).Stuck ∧ rank (s.step i) < rank s := by
  have hcs := csLeft_le (s.step i).cs
  have hf' : (s.step i).fsmState = .waitCtxAck := by simp [step, fsmNext, hf]
  obtain ⟨hcidle, hreq⟩ := hp.rest (by simp [hf, Switching])
  have hidle' : (s.step i).cs.state = .idle := by simp [step, ContextSwitch.step, hcidle, hreq]
  have hreq' : (s.step i).csSwitchReq ≠ none := by simp [step, csSwitchReqNext, hf]
  constructor
  · rintro (h | ⟨-, hno, -⟩ | ⟨hd, -⟩)
    · rw [h.waits] at hf'
      exact absurd hf' (by decide)
    · exact hreq' hno
    · rw [hidle'] at hd
      exact absurd hd (by decide)
  · have h1 : rank (s.step i) = 140 + csLeft (s.step i).cs := by simp only [rank, hf']
    have h2 : rank s = 220 := by simp only [rank, hf]
    omega

theorem scan_lower (hf : s.fsmState = .scanReady) : ¬ (s.step i).Stuck ∧ rank (s.step i) < rank s := by
  have h2 : rank s = 222 + s.schedLeft := by simp only [rank, hf]
  cases hd : s.sched.done with
  | true =>
    have hf' : (s.step i).fsmState = .comparePriority := by simp [step, fsmNext, hf, hd]
    refine ⟨not_stuck_of (by simp [hf']), ?_⟩
    have h1 : rank (s.step i) = 221 := by simp only [rank, hf']
    omega
  | false =>
    have hf' : (s.step i).fsmState = .scanReady := by simp [step, fsmNext, hf, hd]
    refine ⟨not_stuck_of (by simp [hf']), ?_⟩
    have h1 : rank (s.step i) = 222 + (s.step i).schedLeft := by simp only [rank, hf']
    have hlow : (s.step i).schedLeft < s.schedLeft := sched_lower hf hd
    omega

theorem compare_lower (hf : s.fsmState = .comparePriority) : ¬ (s.step i).Stuck ∧ rank (s.step i) < rank s := by
  have hf' : (s.step i).fsmState = .dispatch ∨ (s.step i).fsmState = .idle ∨ (s.step i).fsmState = .preemptCheck := by
    simp only [step, fsmNext, hf]
    split_ifs <;> simp
  have h2 : rank s = 221 := by simp only [rank, hf]
  rcases hf' with hf' | hf' | hf'
  · refine ⟨not_stuck_of (by simp [hf']), ?_⟩
    have h1 : rank (s.step i) = 1 := by simp only [rank, hf']
    omega
  · refine ⟨not_stuck_of (by simp [hf']), ?_⟩
    have h1 : rank (s.step i) = 0 := by simp only [rank, hf']
    omega
  · refine ⟨not_stuck_of (by simp [hf']), ?_⟩
    have h1 : rank (s.step i) = 220 := by simp only [rank, hf']
    omega

/-- **A quiet cycle comes closer to `S_IDLE`** from a state that is not stuck. -/
theorem step_lower (hp : SwitchPhased s) (hq : Quieted s i) (hns : ¬ s.Stuck) :
    s.fsmState = .idle ∨ (¬ (s.step i).Stuck ∧ rank (s.step i) < rank s) := by
  have hsl := schedLeft_le (s.step i)
  cases hf : s.fsmState with
  | idle => exact Or.inl rfl
  | waitCtxAck => exact Or.inr (ack_lower hp hf (hq.ack hf) hns)
  | contextSave => exact Or.inr (save_lower hf hns)
  | contextLoad => exact Or.inr (load_lower hp hf)
  | blockTask => exact Or.inr (block_lower hf hq.task.2.1 hns)
  | preemptCheck => exact Or.inr (preempt_lower hp hf)
  | scanReady => exact Or.inr (scan_lower hf)
  | comparePriority => exact Or.inr (compare_lower hf)
  | dispatch =>
    have hf' : (s.step i).fsmState = .idle := by simp [step, fsmNext, hf]
    refine Or.inr ⟨not_stuck_of (by simp [hf']), ?_⟩
    simp [rank, hf', hf]
  | taskExit =>
    have hf' : (s.step i).fsmState = .exitSettle := by simp [step, fsmNext, hf]
    refine Or.inr ⟨not_stuck_of (by simp [hf']), ?_⟩
    simp [rank, hf', hf]
  | _ =>
    have hf' : (s.step i).fsmState = .scanReady := by simp [step, fsmNext, hf]
    refine Or.inr ⟨not_stuck_of (by simp [hf']), ?_⟩
    have h1 : rank (s.step i) = 222 + (s.step i).schedLeft := by simp only [rank, hf']
    have h2 : rank s = 250 := by simp only [rank, hf]
    omega

/-- **Nothing leads out of a stuck state.** -/
theorem step_stuck (hp : SwitchPhased s) (hq : Quieted s i) (h : s.Stuck) : (s.step i).Stuck := by
  rcases h with hu | hm
  · have hx := hq.task.2.1
    have hno : ∀ u, s.pendingOf u = true → s.answered u = false := fun u hu' => (hu.mute u hu').1
    have hstay : s.fsmNext i = .blockTask := (fsmNext_blockTask hu.waits hx).2 ⟨hu.pending, hno⟩
    obtain ⟨u, hpend⟩ := hu.pending
    refine Or.inl ⟨hstay, ⟨u, by rw [block_keeps hu.waits hx hno]; exact hpend⟩, fun v hv => ?_⟩
    rw [block_keeps hu.waits hx hno] at hv
    obtain ⟨ha, hmute⟩ := hu.mute v hv
    exact ⟨(step_answered s i v).2 hmute, step_mute hu.waits hx ha hmute⟩
  · right
    rcases hm with ⟨hi, hr, hf | hf⟩ | ⟨hd, hf⟩
    · have hact := hp.active (Or.inr (Or.inl hf))
      exact Or.inl ⟨by simp [step, ContextSwitch.step, hi, hr], by simp [step, csSwitchReqNext, hf],
        Or.inr (by simp [step, fsmNext, hf, hq.ack hf, hact])⟩
    · exact Or.inl ⟨by simp [step, ContextSwitch.step, hi, hr],
        by simp [step, csSwitchReqNext, hf, ContextSwitch.switchDone, hi],
        Or.inr (by simp [step, fsmNext, hf, ContextSwitch.switchDone, hi])⟩
    · have hact := hp.active (Or.inr (Or.inl hf))
      exact Or.inl ⟨by simp [step, ContextSwitch.step, hd], by simp [step, csSwitchReqNext, hf],
        Or.inr (by simp [step, fsmNext, hf, hq.ack hf, hact])⟩

theorem not_idle_of_stuck (h : s.Stuck) : s.fsmState ≠ .idle := by
  rcases h with hu | ⟨-, -, hf | hf⟩ | ⟨-, hf⟩
  · rw [hu.waits]
    decide
  · rw [hf]
    decide
  · rw [hf]
    decide
  · rw [hf]
    decide

end Lower

theorem stuck_run {ins : ℕ → RtosIn} {n m : ℕ} (hq : ∀ m ≥ n, Quieted (stateAt ins m) (ins m)) (hnm : n ≤ m)
    (h : (stateAt ins n).Stuck) : (stateAt ins m).Stuck := by
  induction m, hnm using Nat.le_induction with
  | base => exact h
  | succ m hm ih => exact step_stuck (switchPhased_run ins m) (hq m hm) ih

/-- **The FSM comes back to `S_IDLE` exactly when it is not stuck**: from a state of any run, with quiet cycles from
there on. -/
theorem reaches_idle_iff (ins : ℕ → RtosIn) (n : ℕ) (hq : ∀ m ≥ n, Quieted (stateAt ins m) (ins m)) :
    (∃ m ≥ n, (stateAt ins m).fsmState = .idle) ↔ ¬ (stateAt ins n).Stuck := by
  constructor
  · rintro ⟨m, hm, hf⟩ hs
    exact not_idle_of_stuck (stuck_run hq hm hs) hf
  · intro hns
    have hshift (k : ℕ) : Machine.trace step (stateAt ins n) (fun k => ins (n + k)) k = stateAt ins (n + k) :=
      (Machine.trace_add step reset ins n k).symm
    obtain ⟨k, hk⟩ := Machine.trace_reaches_of step (stateAt ins n) (fun k => ins (n + k))
      (P := fun s => SwitchPhased s ∧ ¬ s.Stuck) (G := fun s => s.fsmState = .idle) (C := Quieted) rank
      (fun t i ht hi => (step_lower ht.1 hi ht.2).imp_right fun h => ⟨⟨step_switchPhased i ht.1, h.1⟩, h.2⟩)
      ⟨switchPhased_run ins n, hns⟩ (fun k => by rw [hshift]; exact hq (n + k) (by omega))
    rw [hshift] at hk
    exact ⟨n + k, by omega, hk⟩

/-- one task is created; in cycle 26 it unlocks mutex 0, which the POSIX layer sends as `11` -/
def unlockRun (k : ℕ) : RtosIn :=
  { RtosIn.quiet with
    taskCreate := k == 0
    createArgs := ⟨0x100, 0x800, 3⟩
    mutexOp := if k = 26 then 0b11 else 0
    ctxSwitchAck := true }

theorem unlockRun_quiet (m : ℕ) (hm : m ≥ 27) : Quieted (stateAt unlockRun m) (unlockRun m) := by
  have h0 : (m == 0) = false := by
    rw [beq_eq_false_iff_ne]
    omega
  have h26 : m ≠ 26 := by omega
  exact ⟨by simp [unlockRun, RtosIn.quiet, h0], by simp [unlockRun, RtosIn.quiet, h26],
    by simp [unlockRun, RtosIn.quiet], fun _ => rfl⟩

theorem unlockRun_stuck : (stateAt unlockRun 27).Stuck := by
  refine Or.inl ⟨by decide +kernel, ⟨.mutex, by decide +kernel⟩, fun u hu => ?_⟩
  cases u with
  | mutex =>
    have hcode : (stateAt unlockRun 27).mutexOpInt = 0b11 := by decide +kernel
    exact ⟨by decide +kernel, by simp [Mute, hcode, MutexOp.ofCode]⟩
  | sem =>
    have hno : (stateAt unlockRun 27).semOpPending = false := by decide +kernel
    simp [pendingOf, hno] at hu
  | msgq =>
    have hno : (stateAt unlockRun 27).msgqOpPending = false := by decide +kernel
    simp [pendingOf, hno] at hu

/-- what `reaches_idle_iff` says of that run -/
theorem reaches_idle_iff_unlockRun :
    (∃ m ≥ 27, (stateAt unlockRun m).fsmState = .idle) ↔ ¬ (stateAt unlockRun 27).Stuck :=
  reaches_idle_iff unlockRun 27 unlockRun_quiet

/-- **An unlock hangs the scheduler**: the request of cycle 26 is never answered. -/
theorem unlock_sticks : (stateAt unlockRun 26).fsmState = .idle ∧ (stateAt unlockRun 27).fsmState = .blockTask ∧
    (∀ m ≥ 27, Quieted (stateAt unlockRun m) (unlockRun m)) ∧ ¬ ∃ m ≥ 27, (stateAt unlockRun m).fsmState = .idle := by
  refine ⟨by decide +kernel, by decide +kernel, unlockRun_quiet, ?_⟩
  rintro ⟨m, hm, hf⟩
  exact not_idle_of_stuck (stuck_run unlockRun_quiet hm unlockRun_stuck) hf

end Vsync.HwRtos
