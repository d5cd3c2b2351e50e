/-
Preemption with an ideal CPU: what a task finds when it is switched back to.

The CPU answers the register index of the context-switch unit at once, applies its writes, holds its pc, and is frozen
while the FSM is switching; the acknowledge comes in any cycle in which the request is up. `S_CONTEXT_SAVE` and
`S_CONTEXT_LOAD` each wait for a whole save-and-load transaction, so the second one saves what the first one loaded into
the bank of the preempted task; and a dispatch without an active task loads nothing.

- `SwitchInv`, `run_inv`: what the registers and the banks hold in each phase of a switch.
- `held_run`: from a preemption of `A` on, the bank of `A` will hold, or holds, what the bank of its successor held.
- `delivered_of_transferred`, `not_delivered_of_direct`: which switches write the registers of the CPU.
- `restored_iff`: when `A` is switched back to, its own registers and pc are delivered exactly when the switch back is
  from an active task, and the bank of the successor of `A` held just these registers.
- `kept_restored`, `registers_lost`: a run in which a preempted task gets its registers back, and one in which it comes
  back with another task's registers.
-/
import Vsync.Machine
import Vsync.Rtos.HwRtos

namespace Vsync

/-- the ideal CPU: its register file and its pc -/
structure Cpu where
  regs : RegAddr → Word
  pc : Word

/-- the design beside the ideal CPU -/
structure Switched where
  rtos : HwRtos
  cpu : Cpu

/-- one cycle: the inputs of the design, and what the CPU would come to hold if it is free to run -/
structure SwitchIn where
  rtos : RtosIn
  cpu : Cpu

namespace Switched

def Frozen (f : SchedFsm) : Prop := f = .preemptCheck ∨ HwRtos.Switching f ∨ f = .dispatch

instance (f : SchedFsm) : Decidable (Frozen f) := by unfold Frozen HwRtos.Switching; infer_instance

/-- what the CPU feeds the design in this cycle -/
def feed (s : Switched) (i : SwitchIn) : RtosIn :=
  { i.rtos with
    ctxSwitchAck := i.rtos.ctxSwitchAck && s.rtos.ctxSwitchReq
    ctxSaveRegData := s.cpu.regs s.rtos.cs.cpuRegAddr
    ctxSavePc := s.cpu.pc }

def cpuNext (s : Switched) (i : SwitchIn) : Cpu :=
  if Frozen s.rtos.fsmState then
    (if s.rtos.cs.cpuRegWe then
      { s.cpu with regs := Function.update s.cpu.regs s.rtos.cs.cpuRegAddr s.rtos.cs.cpuRegWdata }
    else s.cpu)
  else i.cpu

def step (s : Switched) (i : SwitchIn) : Switched := ⟨s.rtos.step (s.feed i), s.cpuNext i⟩

def init (cpu : Cpu) : Switched := ⟨HwRtos.reset, cpu⟩

section Names

variable (s : Switched)

def fsm : SchedFsm := s.rtos.fsmState
def cur : TaskId := s.rtos.currentTaskIdR
def next : TaskId := s.rtos.nextTaskIdR
def active : Bool := s.rtos.taskActiveR
def bank (t : TaskId) (r : RegAddr) : Word := s.rtos.cs.regBanks t r
def savedPc (t : TaskId) : Word := s.rtos.cs.savedPc t

def restorePc : Word := s.rtos.cs.restorePcReg

end Names

/-- a switch has transferred contexts: the dispatch follows a transaction -/
def Transferred (s : Switched) : Prop := s.fsm = .dispatch ∧ s.active = true ∧ s.cur ≠ s.next

/-- the phases of a switch -/
structure SwitchInv (s : Switched) : Prop where
  rest : ¬ HwRtos.Switching s.fsm → s.rtos.cs.state = .idle ∧ s.rtos.csSwitchReq = none
  req : ∀ o n, s.rtos.csSwitchReq = some (o, n) → o = s.cur ∧ n = s.next ∧ s.rtos.cs.state = .idle
  ids : s.rtos.cs.state = .save ∨ s.rtos.cs.state = .load →
    s.rtos.cs.oldIdLatched = s.cur ∧ s.rtos.cs.newIdLatched = s.next ∧ s.rtos.cs.regIdx ≠ 0
  pair : s.fsm = .preemptCheck ∨ HwRtos.Switching s.fsm → s.active = true ∧ s.cur ≠ s.next
  comparing : s.fsm = .comparePriority → s.next = s.rtos.sched.nextTaskIdReg
  loading : s.rtos.cs.state = .load → s.fsm ≠ .contextLoad →
    ∀ r, r ≠ 0 → r < s.rtos.cs.regIdx → s.cpu.regs r = s.bank s.next r
  loaded : s.rtos.cs.state = .done ∨ s.fsm = .contextLoad ∨ s.Transferred →
    (∀ r, r ≠ 0 → s.cpu.regs r = s.bank s.next r) ∧ s.restorePc = s.savedPc s.next
  copying : s.fsm = .contextLoad → s.rtos.cs.state = .save →
    ∀ r, r ≠ 0 → r < s.rtos.cs.regIdx → s.bank s.cur r = s.bank s.next r
  copied : s.fsm = .contextLoad ∧ (s.rtos.cs.state = .load ∨ s.rtos.cs.state = .done) ∨ s.Transferred →
    ∀ r, r ≠ 0 → s.bank s.cur r = s.bank s.next r
  pcSaved : s.rtos.cs.state ≠ .idle ∨ s.fsm = .contextLoad ∨ s.Transferred → s.savedPc s.cur = s.cpu.pc

theorem init_inv (cpu : Cpu) : SwitchInv (init cpu) := by
  constructor <;> simp [init, HwRtos.reset, ContextSwitch.reset, HwRtos.Switching, fsm, active, Transferred]

/-! ## What a cycle leaves -/

section Step

variable {s : Switched} {i : SwitchIn}

theorem step_fsm : (s.step i).fsm = s.rtos.fsmNext (s.feed i) := rfl

theorem step_cs : (s.step i).rtos.cs = s.rtos.cs.step s.rtos.csSwitchReq
    (s.cpu.regs s.rtos.cs.cpuRegAddr) s.cpu.pc := rfl

theorem step_csSwitchReq : (s.step i).rtos.csSwitchReq = s.rtos.csSwitchReqNext := rfl

theorem switching_keeps (hf : s.fsm = .preemptCheck ∨ HwRtos.Switching s.fsm) :
    (s.step i).cur = s.cur ∧ (s.step i).next = s.next ∧ (s.step i).active = s.active := by
  have h : s.rtos.fsmState ≠ .dispatch ∧ s.rtos.fsmState ≠ .scanReady := by
    unfold HwRtos.Switching fsm at hf; grind
  refine ⟨?_, ?_, ?_⟩
  · simp [cur, step, HwRtos.step, HwRtos.currentTaskIdNext, h.1]
  · simp [next, step, HwRtos.step, HwRtos.nextTaskIdNext, h.2]
  · rcases hf with hf | hf | hf | hf <;> unfold fsm at hf <;>
      simp [active, step, HwRtos.step, HwRtos.taskActiveNext, hf]

/-- a dispatch after a transfer comes from `S_CONTEXT_LOAD`, when the second transaction is done -/
theorem transferred_of_step (h : SwitchInv s) (ht : (s.step i).Transferred) :
    s.fsm = .contextLoad ∧ s.rtos.cs.state = .done := by
  obtain ⟨hf, ha, hne⟩ := ht
  rcases HwRtos.fsmNext_dispatch hf with ⟨hfs, ha', -⟩ | ⟨hfs, -, hc⟩ | ⟨hfs, hd⟩
  · simp [active, step, HwRtos.step, HwRtos.taskActiveNext, hfs, ha'] at ha
  · exfalso
    apply hne
    have := h.comparing hfs
    simp [cur, next, step, HwRtos.step, HwRtos.currentTaskIdNext, HwRtos.nextTaskIdNext, hfs] at this ⊢
    rw [this, hc]
  · exact ⟨hfs, by simpa [ContextSwitch.switchDone] using hd⟩

theorem switching_moves (h : SwitchInv s) (hf : HwRtos.Switching s.fsm) :
    (s.step i).fsm = s.fsm ∧ (s.step i).rtos.csSwitchReq = none ∧ (s.fsm = .waitCtxAck ∨ s.rtos.cs.state ≠ .done) ∨
      s.fsm = .waitCtxAck ∧ (s.step i).fsm = .contextSave ∧ (s.step i).rtos.csSwitchReq = none ∧
        (s.rtos.cs.state = .save ∨ s.rtos.cs.state = .load) ∨
      s.fsm = .contextSave ∧ (s.step i).fsm = .contextLoad ∧ s.rtos.cs.state = .done ∧
        (s.step i).rtos.csSwitchReq = some (s.cur, s.next) ∨
      s.fsm = .contextLoad ∧ (s.step i).fsm = .dispatch ∧ s.rtos.cs.state = .done ∧
        (s.step i).rtos.csSwitchReq = none := by
  have ha : s.rtos.taskActiveR = true := (h.pair (Or.inr hf)).1
  rw [step_fsm, step_csSwitchReq]
  rcases hf with hf | hf | hf <;> unfold fsm at hf ⊢ <;>
    simp only [HwRtos.fsmNext, HwRtos.csSwitchReqNext, hf, feed, ha, ContextSwitch.switchDone]
  · by_cases hack : (i.rtos.ctxSwitchAck && s.rtos.ctxSwitchReq) = true
    · have : s.rtos.cs.state = .save ∨ s.rtos.cs.state = .load := by
        simp only [Bool.and_eq_true, HwRtos.ctxSwitchReq, ContextSwitch.stallPipeline] at hack
        simpa using hack.2
      simp [hack, this]
    · simp [hack]
  · by_cases hd : s.rtos.cs.state = .done <;> simp [hd, cur, next]
  · by_cases hd : s.rtos.cs.state = .done <;> simp [hd]

/-- outside a switch the context-switch unit does not move, and only `S_PREEMPT_CHECK` raises a request -/
theorem resting_cs (h : SwitchInv s) (hf : ¬ HwRtos.Switching s.fsm) :
    (s.step i).rtos.cs = s.rtos.cs ∧ (s.fsm = .preemptCheck ∨ (s.step i).rtos.csSwitchReq = none) := by
  obtain ⟨hi, hr⟩ := h.rest hf
  refine ⟨by rw [step_cs, hr]; simp [ContextSwitch.step, hi], ?_⟩
  unfold HwRtos.Switching fsm at hf
  unfold fsm
  rw [step_csSwitchReq, HwRtos.csSwitchReqNext]
  cases hfs : s.rtos.fsmState <;> simp_all

theorem step_rest (h : SwitchInv s) (hf : ¬ HwRtos.Switching (s.step i).fsm) :
    (s.step i).rtos.cs.state = .idle ∧ (s.step i).rtos.csSwitchReq = none := by
  by_cases hs : HwRtos.Switching s.fsm
  · rcases switching_moves (i := i) h hs with ⟨he, -⟩ | ⟨-, he, -⟩ | ⟨-, he, -⟩ | ⟨-, he, hd, hr⟩
    · exact absurd (he ▸ hs) hf
    · exact absurd (Or.inr (Or.inl he)) hf
    · exact absurd (Or.inr (Or.inr he)) hf
    · exact ⟨by rw [step_cs]; simp [ContextSwitch.step, hd], hr⟩
  · obtain ⟨hcs, hr⟩ := resting_cs (i := i) h hs
    refine ⟨by rw [hcs]; exact (h.rest hs).1, hr.resolve_left fun hp => hf ?_⟩
    rw [step_fsm]
    exact Or.inl (by unfold fsm at hp; simp [HwRtos.fsmNext, hp])

theorem step_req (h : SwitchInv s) (o n : TaskId) (hr : (s.step i).rtos.csSwitchReq = some (o, n)) :
    o = (s.step i).cur ∧ n = (s.step i).next ∧ (s.step i).rtos.cs.state = .idle := by
  by_cases hs : HwRtos.Switching s.fsm
  · obtain ⟨hc, hn, -⟩ := switching_keeps (i := i) (Or.inr hs)
    rcases switching_moves (i := i) h hs with ⟨-, he, -⟩ | ⟨-, -, he, -⟩ | ⟨-, -, hd, he⟩ | ⟨-, -, -, he⟩
    · simp [he] at hr
    · simp [he] at hr
    · rw [he] at hr
      simp only [Option.some.injEq, Prod.mk.injEq] at hr
      rw [hc, hn, step_cs]
      exact ⟨hr.1.symm, hr.2.symm, by simp [ContextSwitch.step, hd]⟩
    · simp [he] at hr
  · obtain ⟨hcs, hr'⟩ := resting_cs (i := i) h hs
    rcases hr' with hp | hr'
    · obtain ⟨hc, hn, -⟩ := switching_keeps (i := i) (Or.inl hp)
      have ha : s.rtos.taskActiveR = true := (h.pair (Or.inl hp)).1
      rw [hc, hn, hcs]
      unfold fsm at hp
      rw [step_csSwitchReq] at hr
      simp [HwRtos.csSwitchReqNext, hp, ha] at hr
      exact ⟨hr.1.symm, hr.2.symm, (h.rest hs).1⟩
    · simp [hr'] at hr

theorem step_pair (h : SwitchInv s) (hf : (s.step i).fsm = .preemptCheck ∨ HwRtos.Switching (s.step i).fsm) :
    (s.step i).active = true ∧ (s.step i).cur ≠ (s.step i).next := by
  rw [step_fsm] at hf
  rcases hf with hf | hf
  · obtain ⟨hfs, ha, hne⟩ := HwRtos.fsmNext_preemptCheck hf
    have hn := h.comparing hfs
    simp [active, cur, next, step, HwRtos.step, HwRtos.taskActiveNext, HwRtos.currentTaskIdNext,
      HwRtos.nextTaskIdNext, hfs, ha]
    unfold next at hn
    rw [hn]; exact hne.symm
  · have hp : s.fsm = .preemptCheck ∨ HwRtos.Switching s.fsm :=
      (HwRtos.fsmNext_switching hf).imp (fun h => h.1) id
    obtain ⟨hc, hn, ha⟩ := switching_keeps (i := i) hp
    rw [hc, hn, ha]
    exact h.pair hp

theorem step_comparing (hf : (s.step i).fsm = .comparePriority) :
    (s.step i).next = (s.step i).rtos.sched.nextTaskIdReg := by
  rw [step_fsm] at hf
  obtain ⟨hfs, hd⟩ := HwRtos.fsmNext_comparePriority hf
  have hst : s.rtos.sched.state = .done := by simpa [TaskScheduler.done] using hd
  simp [next, step, HwRtos.step, HwRtos.nextTaskIdNext, hfs, hd, TaskScheduler.step, hst]

theorem step_ids (h : SwitchInv s) (hs' : (s.step i).rtos.cs.state = .save ∨ (s.step i).rtos.cs.state = .load) :
    (s.step i).rtos.cs.oldIdLatched = (s.step i).cur ∧ (s.step i).rtos.cs.newIdLatched = (s.step i).next ∧
      (s.step i).rtos.cs.regIdx ≠ 0 := by
  have hs : HwRtos.Switching s.fsm := by
    by_contra hc
    rw [(resting_cs (i := i) h hc).1, (h.rest hc).1] at hs'
    simp at hs'
  obtain ⟨hc, hn, -⟩ := switching_keeps (i := i) (Or.inr hs)
  rw [hc, hn]
  rw [step_cs] at hs' ⊢
  cases hst : s.rtos.cs.state with
  | idle =>
    rcases hr : s.rtos.csSwitchReq with _ | ⟨o, n⟩
    · simp [ContextSwitch.step, hst, hr] at hs'
    · obtain ⟨rfl, rfl, -⟩ := h.req o n hr
      simp [ContextSwitch.step, hst]
  | save =>
    obtain ⟨ho, hn, hi⟩ := h.ids (Or.inl hst)
    simp only [ContextSwitch.step, hst]
    split_ifs with h31
    · exact ⟨ho, hn, by simp⟩
    · exact ⟨ho, hn, by simp only; bv_omega⟩
  | load =>
    obtain ⟨ho, hn, hi⟩ := h.ids (Or.inr hst)
    simp only [ContextSwitch.step, hst] at hs' ⊢
    split_ifs at hs' ⊢ with h31
    · simp at hs'
    · exact ⟨ho, hn, by simp only; bv_omega⟩
  | done => simp [ContextSwitch.step, hst] at hs'

/-! The data a cycle moves. -/

theorem step_cpu_pc (hf : Frozen s.fsm) : (s.step i).cpu.pc = s.cpu.pc := by
  unfold fsm at hf
  simp only [step, cpuNext, hf, if_true]
  split_ifs <;> rfl

theorem step_cpu_regs (h : SwitchInv s) (hf : Frozen s.fsm) (r : RegAddr) :
    (s.step i).cpu.regs r =
      if s.rtos.cs.state = .load ∧ r = s.rtos.cs.regIdx then s.bank s.next r else s.cpu.regs r := by
  unfold fsm at hf
  simp only [step, cpuNext, hf, if_true]
  by_cases hl : s.rtos.cs.state = .load
  · have hn := (h.ids (Or.inr hl)).2.1
    simp only [ContextSwitch.cpuRegWe, ContextSwitch.cpuRegAddr, ContextSwitch.cpuRegWdata, hl, hn, beq_self_eq_true,
      if_true, true_and, Function.update_apply]
    split_ifs with hr
    · rw [hr]; rfl
    · rfl
  · simp [ContextSwitch.cpuRegWe, hl]

theorem step_bank (h : SwitchInv s) (t : TaskId) (r : RegAddr) :
    (s.step i).bank t r =
      if s.rtos.cs.state = .save ∧ t = s.cur ∧ r = s.rtos.cs.regIdx then s.cpu.regs r else s.bank t r := by
  unfold bank
  rw [step_cs]
  cases hst : s.rtos.cs.state with
  | idle => rcases hr : s.rtos.csSwitchReq with _ | ⟨o, n⟩ <;> simp [ContextSwitch.step, hst]
  | save =>
    obtain ⟨ho, -, -⟩ := h.ids (Or.inl hst)
    have hb : (s.rtos.cs.step s.rtos.csSwitchReq (s.cpu.regs s.rtos.cs.cpuRegAddr) s.cpu.pc).regBanks =
        Function.update s.rtos.cs.regBanks s.cur
          (Function.update (s.rtos.cs.regBanks s.cur) s.rtos.cs.regIdx (s.cpu.regs s.rtos.cs.regIdx)) := by
      simp only [ContextSwitch.step, hst, ContextSwitch.cpuRegAddr, ho]
      split_ifs <;> rfl
    rw [hb]
    by_cases ht : t = s.cur
    · subst ht
      by_cases hr : r = s.rtos.cs.regIdx
      · subst hr; simp
      · simp [hr]
    · simp [ht]
  | load =>
    simp only [ContextSwitch.step, hst]
    split_ifs <;> simp_all
  | done => simp [ContextSwitch.step, hst]

theorem step_savedPc (h : SwitchInv s) (t : TaskId) :
    (s.step i).savedPc t = if s.rtos.csSwitchReq ≠ none ∧ t = s.cur then s.cpu.pc else s.savedPc t := by
  unfold savedPc
  rw [step_cs]
  rcases hr : s.rtos.csSwitchReq with _ | ⟨o, n⟩
  · have : ∀ d p, (s.rtos.cs.step none d p).savedPc = s.rtos.cs.savedPc := by
      intro d p; unfold ContextSwitch.step; split <;> (try split_ifs) <;> rfl
    simp [this]
  · obtain ⟨rfl, rfl, hst⟩ := h.req o n hr
    simp [ContextSwitch.step, hst, Function.update_apply]

theorem step_restorePc (h : SwitchInv s) :
    (s.step i).restorePc =
      if s.rtos.cs.state = .load ∧ s.rtos.cs.regIdx = 31 then s.savedPc s.next else s.restorePc := by
  unfold restorePc
  rw [step_cs]
  cases hst : s.rtos.cs.state with
  | idle => rcases hr : s.rtos.csSwitchReq with _ | ⟨o, n⟩ <;> simp [ContextSwitch.step, hst]
  | save => simp only [ContextSwitch.step, hst]; split_ifs <;> simp_all
  | load =>
    have hn := (h.ids (Or.inr hst)).2.1
    simp only [ContextSwitch.step, hst, true_and]
    split_ifs
    · simp only [hn]; rfl
    · rfl
  | done => simp [ContextSwitch.step, hst]

theorem cs_moves (s : Switched) (i : SwitchIn) :
    ((s.step i).rtos.cs.state = .save →
      s.rtos.csSwitchReq ≠ none ∧ (s.step i).rtos.cs.regIdx = 1 ∨
        s.rtos.cs.state = .save ∧ s.rtos.cs.regIdx ≠ 31 ∧ (s.step i).rtos.cs.regIdx = s.rtos.cs.regIdx + 1) ∧
      ((s.step i).rtos.cs.state = .load →
        s.rtos.cs.state = .save ∧ s.rtos.cs.regIdx = 31 ∧ (s.step i).rtos.cs.regIdx = 1 ∨
          s.rtos.cs.state = .load ∧ s.rtos.cs.regIdx ≠ 31 ∧ (s.step i).rtos.cs.regIdx = s.rtos.cs.regIdx + 1) ∧
      ((s.step i).rtos.cs.state = .done → s.rtos.cs.state = .load ∧ s.rtos.cs.regIdx = 31) := by
  rw [step_cs]
  cases hst : s.rtos.cs.state with
  | idle => rcases hr : s.rtos.csSwitchReq with _ | ⟨o, n⟩ <;> simp [ContextSwitch.step, hst]
  | save => simp only [ContextSwitch.step, hst]; split_ifs <;> simp_all
  | load => simp only [ContextSwitch.step, hst]; split_ifs <;> simp_all
  | done => simp [ContextSwitch.step, hst]

/-- the unit moves only inside a switch -/
theorem switching_of_cs (h : SwitchInv s) (hs' : (s.step i).rtos.cs.state ≠ .idle) : HwRtos.Switching s.fsm := by
  by_contra hc
  rw [(resting_cs (i := i) h hc).1] at hs'
  exact hs' (h.rest hc).1

/-- `S_CONTEXT_LOAD` is entered when a transaction is done -/
theorem contextLoad_of_step (h : SwitchInv s) (hf : (s.step i).fsm = .contextLoad) :
    s.fsm = .contextLoad ∨ s.fsm = .contextSave ∧ s.rtos.cs.state = .done := by
  have hsw : HwRtos.Switching s.fsm := by
    rcases HwRtos.fsmNext_switching (s := s.rtos) (i := s.feed i) (Or.inr (Or.inr hf)) with ⟨-, hw⟩ | hw
    · rw [step_fsm] at hf; simp [hf] at hw
    · exact hw
  rcases switching_moves (i := i) h hsw with ⟨he, -⟩ | ⟨-, he, -⟩ | ⟨hs, -, hd, -⟩ | ⟨-, he, -⟩
  · exact Or.inl (he ▸ hf)
  · simp [he] at hf
  · exact Or.inr ⟨hs, hd⟩
  · simp [he] at hf

/-- once in `S_CONTEXT_LOAD`, the FSM stays there until the transaction is done -/
theorem contextLoad_stays (h : SwitchInv s) (hf : s.fsm = .contextLoad) (hd : s.rtos.cs.state ≠ .done) :
    (s.step i).fsm = .contextLoad := by
  rcases switching_moves (i := i) h (Or.inr (Or.inr hf)) with ⟨he, -⟩ | ⟨he, -⟩ | ⟨he, -⟩ | ⟨-, -, hd', -⟩
  · rw [he, hf]
  · simp [hf] at he
  · simp [hf] at he
  · exact absurd hd' hd

theorem frozen_of_switching (hf : HwRtos.Switching s.fsm) : Frozen s.fsm := Or.inr (Or.inl hf)

theorem step_loading (h : SwitchInv s) (hl : (s.step i).rtos.cs.state = .load) (hf : (s.step i).fsm ≠ .contextLoad)
    (r : RegAddr) (h0 : r ≠ 0) (hr : r < (s.step i).rtos.cs.regIdx) :
    (s.step i).cpu.regs r = (s.step i).bank (s.step i).next r := by
  have hsw := switching_of_cs (i := i) h (by simp [hl])
  rw [(switching_keeps (Or.inr hsw)).2.1, step_cpu_regs h (frozen_of_switching hsw), step_bank h]
  rcases (cs_moves s i).2.1 hl with ⟨-, -, h1⟩ | ⟨hst, h31, h1⟩
  · rw [h1] at hr; exact absurd hr (by bv_omega)
  · have hfs : s.fsm ≠ .contextLoad := fun hc => hf (contextLoad_stays h hc (by simp [hst]))
    simp only [hst, true_and, reduceCtorEq, false_and, if_false]
    split_ifs with he
    · rfl
    · exact h.loading hst hfs r h0 (by rw [h1] at hr; bv_omega)

/-- a cycle that does not finish a transaction leaves loaded registers loaded -/
theorem loaded_keeps (h : SwitchInv s) (hsw : HwRtos.Switching s.fsm)
    (hl : s.rtos.cs.state = .done ∨ s.fsm = .contextLoad) :
    (∀ r, r ≠ 0 → (s.step i).cpu.regs r = (s.step i).bank s.next r) ∧
      (s.step i).restorePc = (s.step i).savedPc s.next := by
  obtain ⟨hregs, hpc⟩ := h.loaded (hl.imp id Or.inl)
  have hne : s.next ≠ s.cur := fun e => (h.pair (Or.inr hsw)).2 e.symm
  refine ⟨fun r h0 => ?_, ?_⟩
  · rw [step_cpu_regs h (frozen_of_switching hsw), step_bank h]
    simp only [hne, false_and, and_false, if_false]
    split_ifs <;> [rfl; exact hregs r h0]
  · rw [step_restorePc h, step_savedPc h]
    simp only [hne, and_false, if_false]
    split_ifs <;> [rfl; exact hpc]

theorem step_loaded (h : SwitchInv s)
    (hl : (s.step i).rtos.cs.state = .done ∨ (s.step i).fsm = .contextLoad ∨ (s.step i).Transferred) :
    (∀ r, r ≠ 0 → (s.step i).cpu.regs r = (s.step i).bank (s.step i).next r) ∧
      (s.step i).restorePc = (s.step i).savedPc (s.step i).next := by
  have hsw : HwRtos.Switching s.fsm := by
    rcases hl with hl | hl | hl
    · exact switching_of_cs (i := i) h (by simp [hl])
    · rcases contextLoad_of_step h hl with hc | ⟨hc, -⟩
      · exact Or.inr (Or.inr hc)
      · exact Or.inr (Or.inl hc)
    · exact Or.inr (Or.inr (transferred_of_step h hl).1)
  rw [(switching_keeps (Or.inr hsw)).2.1]
  by_cases hold : s.rtos.cs.state = .done ∨ s.fsm = .contextLoad
  · exact loaded_keeps h hsw hold
  · -- the first transaction loads its last register in this cycle
    have hd : (s.step i).rtos.cs.state = .done := by
      rcases hl with hl | hl | hl
      · exact hl
      · exact absurd ((contextLoad_of_step h hl).elim Or.inr fun hc => Or.inl hc.2) hold
      · exact absurd (Or.inr (transferred_of_step h hl).1) hold
    obtain ⟨hst, h31⟩ := (cs_moves s i).2.2 hd
    have hne : s.next ≠ s.cur := fun e => (h.pair (Or.inr hsw)).2 e.symm
    refine ⟨fun r h0 => ?_, ?_⟩
    · rw [step_cpu_regs h (frozen_of_switching hsw), step_bank h]
      simp only [hst, h31, true_and, reduceCtorEq, false_and, if_false]
      split_ifs with he
      · rfl
      · exact h.loading hst (fun hc => hold (Or.inr hc)) r h0 (by rw [h31]; bv_omega)
    · rw [step_restorePc h, step_savedPc h]
      simp [hst, h31, hne]

theorem step_copying (h : SwitchInv s) (hf : (s.step i).fsm = .contextLoad) (hst' : (s.step i).rtos.cs.state = .save)
    (r : RegAddr) (h0 : r ≠ 0) (hr : r < (s.step i).rtos.cs.regIdx) :
    (s.step i).bank (s.step i).cur r = (s.step i).bank (s.step i).next r := by
  have hsw := switching_of_cs (i := i) h (by simp [hst'])
  have hne : s.next ≠ s.cur := fun e => (h.pair (Or.inr hsw)).2 e.symm
  obtain ⟨hc, hn, -⟩ := switching_keeps (i := i) (Or.inr hsw)
  rw [hc, hn, step_bank h, step_bank h]
  rcases (cs_moves s i).1 hst' with ⟨-, h1⟩ | ⟨hst, h31, h1⟩
  · rw [h1] at hr; exact absurd hr (by bv_omega)
  · have hfs : s.fsm = .contextLoad := (contextLoad_of_step h hf).resolve_right (by simp [hst])
    simp only [hst, true_and, hne, false_and, if_false]
    split_ifs with he
    · exact (h.loaded (Or.inr (Or.inl hfs))).1 r h0
    · exact h.copying hfs hst r h0 (by rw [h1] at hr; bv_omega)

theorem step_copied (h : SwitchInv s)
    (hf : (s.step i).fsm = .contextLoad ∧ ((s.step i).rtos.cs.state = .load ∨ (s.step i).rtos.cs.state = .done) ∨
      (s.step i).Transferred) (r : RegAddr) (h0 : r ≠ 0) :
    (s.step i).bank (s.step i).cur r = (s.step i).bank (s.step i).next r := by
  have hold : s.fsm = .contextLoad ∧ (s.rtos.cs.state = .load ∨ s.rtos.cs.state = .done ∨
      s.rtos.cs.state = .save ∧ s.rtos.cs.regIdx = 31) := by
    rcases hf with ⟨hf, hst'⟩ | hf
    · have hst : s.rtos.cs.state = .load ∨ s.rtos.cs.state = .save ∧ s.rtos.cs.regIdx = 31 := by
        rcases hst' with hst' | hst'
        · exact ((cs_moves s i).2.1 hst').elim (fun hc => Or.inr ⟨hc.1, hc.2.1⟩) (fun hc => Or.inl hc.1)
        · exact Or.inl ((cs_moves s i).2.2 hst').1
      refine ⟨(contextLoad_of_step h hf).resolve_right fun hc => ?_, hst.imp id Or.inr⟩
      rcases hst with hst | ⟨hst, -⟩ <;> simp [hst] at hc
    · exact ⟨(transferred_of_step h hf).1, Or.inr (Or.inl (transferred_of_step h hf).2)⟩
  obtain ⟨hfs, hst⟩ := hold
  have hsw : HwRtos.Switching s.fsm := Or.inr (Or.inr hfs)
  have hne : s.next ≠ s.cur := fun e => (h.pair (Or.inr hsw)).2 e.symm
  obtain ⟨hc, hn, -⟩ := switching_keeps (i := i) (Or.inr hsw)
  rw [hc, hn, step_bank h, step_bank h]
  rcases hst with hst | hst | ⟨hst, h31⟩
  · simpa [hst] using h.copied (Or.inl ⟨hfs, Or.inl hst⟩) r h0
  · simpa [hst] using h.copied (Or.inl ⟨hfs, Or.inr hst⟩) r h0
  · simp only [hst, h31, true_and, hne, false_and, if_false]
    split_ifs with he
    · exact (h.loaded (Or.inr (Or.inl hfs))).1 r h0
    · exact h.copying hfs hst r h0 (by rw [h31]; bv_omega)

theorem step_pcSaved (h : SwitchInv s)
    (hf : (s.step i).rtos.cs.state ≠ .idle ∨ (s.step i).fsm = .contextLoad ∨ (s.step i).Transferred) :
    (s.step i).savedPc (s.step i).cur = (s.step i).cpu.pc := by
  have hold : s.rtos.csSwitchReq ≠ none ∨ s.rtos.cs.state ≠ .idle ∨ s.fsm = .contextLoad := by
    rcases hf with hf | hf | hf
    · cases hst' : (s.step i).rtos.cs.state with
      | idle => exact absurd hst' hf
      | save =>
        rcases (cs_moves s i).1 hst' with hc | hc
        · exact Or.inl hc.1
        · exact Or.inr (Or.inl (by simp [hc.1]))
      | load => rcases (cs_moves s i).2.1 hst' with hc | hc <;> exact Or.inr (Or.inl (by simp [hc.1]))
      | done => exact Or.inr (Or.inl (by simp [((cs_moves s i).2.2 hst').1]))
    · rcases contextLoad_of_step h hf with hc | ⟨-, hc⟩
      · exact Or.inr (Or.inr hc)
      · exact Or.inr (Or.inl (by simp [hc]))
    · exact Or.inr (Or.inr (transferred_of_step h hf).1)
  have hsw : HwRtos.Switching s.fsm := by
    by_contra hc
    obtain ⟨hi, hr⟩ := h.rest hc
    rcases hold with ho | ho | ho
    · exact ho hr
    · exact ho hi
    · exact hc (Or.inr (Or.inr ho))
  rw [(switching_keeps (Or.inr hsw)).1, step_savedPc h, step_cpu_pc (frozen_of_switching hsw)]
  by_cases hr : s.rtos.csSwitchReq = none
  · simp only [hr, ne_eq, not_true_eq_false, false_and, if_false]
    exact h.pcSaved ((hold.resolve_left (by simp [hr])).imp id Or.inl)
  · simp [hr]

/-- **One cycle keeps the phases.** -/
theorem step_inv (i : SwitchIn) (h : SwitchInv s) : SwitchInv (s.step i) where
  rest := step_rest h
  req := step_req h
  ids := step_ids h
  pair := step_pair h
  comparing := step_comparing
  loading := step_loading h
  loaded := step_loaded h
  copying := step_copying h
  copied := step_copied h
  pcSaved := step_pcSaved h

end Step

/-- the composite state before cycle `n` -/
def stateAt (cpu : Cpu) (ins : ℕ → SwitchIn) (n : ℕ) : Switched := Machine.trace step (init cpu) ins n

theorem run_inv (cpu : Cpu) (ins : ℕ → SwitchIn) (n : ℕ) : SwitchInv (stateAt cpu ins n) :=
  Machine.trace_inv step (init cpu) ins (init_inv cpu) (fun _ i h => step_inv i h) n

/-! ## A preempted task until it is switched back to -/

/-- `A` is being switched away from, towards a task whose bank holds `b`; or it has been, and its bank holds `b`. Its
saved pc is, or will be, `p`. -/
def Held (A : TaskId) (b : RegAddr → Word) (p : Word) (s : Switched) : Prop :=
  (s.fsm = .preemptCheck ∨ HwRtos.Switching s.fsm ∨ s.Transferred) ∧ s.cur = A ∧ s.next ≠ A ∧
      (∀ r, r ≠ 0 → s.bank s.next r = b r) ∧ s.cpu.pc = p ∨
    s.cur ≠ A ∧ (∀ r, r ≠ 0 → s.bank A r = b r) ∧ s.savedPc A = p

theorem step_held {A : TaskId} {b : RegAddr → Word} {p : Word} {s : Switched} (i : SwitchIn) (h : SwitchInv s)
    (hh : Held A b p s) (hd : ¬ (s.fsm = .dispatch ∧ s.next = A)) : Held A b p (s.step i) := by
  rcases hh with ⟨hf, rfl, hne, hb, hp⟩ | ⟨hc, hb, hp⟩
  · by_cases ht : s.Transferred
    · -- the dispatch: the successor becomes the current task
      right
      have hns : ¬ HwRtos.Switching s.fsm := by
        rw [ht.1]; unfold HwRtos.Switching; simp
      have hcur : (s.step i).cur = s.next := by
        have := ht.1
        unfold fsm at this
        simp [cur, next, step, HwRtos.step, HwRtos.currentTaskIdNext, this]
      obtain ⟨hcs, -⟩ := resting_cs (i := i) h hns
      refine ⟨by rw [hcur]; exact hne, fun r h0 => ?_, ?_⟩
      · unfold bank at *
        rw [hcs, ← hb r h0]
        exact h.copied (Or.inr ht) r h0
      · unfold savedPc
        rw [hcs, ← hp]
        exact h.pcSaved (Or.inr (Or.inr ht))
    · left
      have hf : s.fsm = .preemptCheck ∨ HwRtos.Switching s.fsm := hf.imp id fun hf => hf.resolve_right ht
      obtain ⟨hc, hn, ha⟩ := switching_keeps (i := i) hf
      have hfrozen : Frozen s.fsm := hf.imp id Or.inl
      rw [hc, hn]
      refine ⟨?_, rfl, hne, fun r h0 => ?_, by rw [step_cpu_pc hfrozen, hp]⟩
      · right
        rcases hf with hf | hf
        · left; left; rw [step_fsm]; unfold fsm at hf; simp [HwRtos.fsmNext, hf]
        · rcases switching_moves (i := i) h hf with ⟨he, -⟩ | ⟨-, he, -⟩ | ⟨-, he, -⟩ | ⟨-, he, -⟩
          · exact Or.inl (he ▸ hf)
          · exact Or.inl (Or.inr (Or.inl he))
          · exact Or.inl (Or.inr (Or.inr he))
          · exact Or.inr ⟨he, by rw [ha]; exact (h.pair (Or.inr hf)).1, by rw [hc, hn]; exact hne.symm⟩
      · rw [step_bank h]
        simp [hne, hb r h0]
  · right
    have hcur : (s.step i).cur ≠ A := by
      by_cases hf : s.fsm = .dispatch
      · have : (s.step i).cur = s.next := by
          unfold fsm at hf; simp [cur, next, step, HwRtos.step, HwRtos.currentTaskIdNext, hf]
        rw [this]; exact fun e => hd ⟨hf, e⟩
      · have : (s.step i).cur = s.cur := by
          unfold fsm at hf; simp [cur, step, HwRtos.step, HwRtos.currentTaskIdNext, hf]
        rw [this]; exact hc
    refine ⟨hcur, fun r h0 => ?_, ?_⟩
    · rw [step_bank h]; simp [Ne.symm hc, hb r h0]
    · rw [step_savedPc h]; simp [Ne.symm hc, hp]

section Run

variable (cpu : Cpu) (ins : ℕ → SwitchIn)

/-- the FSM preempts `A` in cycle `n` -/
def Preempted (n : ℕ) (A : TaskId) : Prop := (stateAt cpu ins n).fsm = .preemptCheck ∧ (stateAt cpu ins n).cur = A

/-- `m` is the first dispatch of `A` after `n` -/
def SwitchedBack (n m : ℕ) (A : TaskId) : Prop :=
  n < m ∧ (stateAt cpu ins m).fsm = .dispatch ∧ (stateAt cpu ins m).next = A ∧
    ∀ k, n < k → k < m → ¬ ((stateAt cpu ins k).fsm = .dispatch ∧ (stateAt cpu ins k).next = A)

/-- in cycle `k` the RTOS writes `v` to register `r` of the CPU -/
def Writes (k : ℕ) (r : RegAddr) (v : Word) : Prop :=
  (stateAt cpu ins k).rtos.cs.cpuRegWe = true ∧ (stateAt cpu ins k).rtos.cs.cpuRegAddr = r ∧
    (stateAt cpu ins k).rtos.cs.cpuRegWdata = v

/-- the switch that ends with the dispatch in cycle `m` writes `v` to register `r` of the CPU, which then holds it -/
def Delivered (m : ℕ) (r : RegAddr) (v : Word) : Prop :=
  (∃ k < m, Writes cpu ins k r v ∧ ∀ j, k ≤ j → j < m → HwRtos.Switching (stateAt cpu ins j).fsm) ∧
    (stateAt cpu ins m).cpu.regs r = v

/-- the dispatch in cycle `m` delivers the registers that the CPU held in cycle `n`, and the pc it held then -/
def Restored (n m : ℕ) : Prop :=
  (∀ r, r ≠ 0 → Delivered cpu ins m r ((stateAt cpu ins n).cpu.regs r)) ∧
    (stateAt cpu ins m).restorePc = (stateAt cpu ins n).cpu.pc

theorem held_run {n : ℕ} {A : TaskId} (hp : Preempted cpu ins n A) (d : ℕ)
    (hd : ∀ k, n < k → k < n + d → ¬ ((stateAt cpu ins k).fsm = .dispatch ∧ (stateAt cpu ins k).next = A)) :
    Held A (fun r => (stateAt cpu ins n).bank (stateAt cpu ins n).next r) (stateAt cpu ins n).cpu.pc
      (stateAt cpu ins (n + d)) := by
  induction d with
  | zero =>
    have hpair := (run_inv cpu ins n).pair (Or.inl hp.1)
    exact Or.inl ⟨Or.inl hp.1, hp.2, fun e => hpair.2 (hp.2.trans e.symm), fun _ _ => rfl, rfl⟩
  | succ d ih =>
    have hstep := step_held (ins (n + d)) (run_inv cpu ins (n + d)) (ih fun k h1 h2 => hd k h1 (by omega))
    refine hstep ?_
    rcases Nat.eq_zero_or_pos d with rfl | hpos
    · rintro ⟨hf, -⟩
      have := hp.1
      simp [stateAt] at this hf
      simp [this] at hf
    · exact hd (n + d) (by omega) (by omega)

/-- a free CPU holds what the environment gave it in the cycle before -/
theorem cpu_of_free (k : ℕ) (h : ¬ Frozen (stateAt cpu ins k).fsm) :
    (stateAt cpu ins (k + 1)).cpu = (ins k).cpu := by
  simp only [stateAt, Machine.trace_succ, step, cpuNext, fsm] at h ⊢
  rw [if_neg h]

/-! ## What a switch delivers -/

variable {cpu ins}

/-- the register writes of a load, backwards from the last one: `d` cycles before it register `31 - d` is written, from
the same bank -/
theorem load_back {e : ℕ} (hl : (stateAt cpu ins e).rtos.cs.state = .load)
    (hi : (stateAt cpu ins e).rtos.cs.regIdx = 31)
    (d : ℕ) (hd : d ≤ 30) : ∃ k, k + d = e ∧ (stateAt cpu ins k).rtos.cs.regIdx = BitVec.ofNat 5 (31 - d) ∧
      (stateAt cpu ins k).next = (stateAt cpu ins e).next ∧
        (∀ t r, (stateAt cpu ins k).bank t r = (stateAt cpu ins e).bank t r) ∧
        ∀ j, k ≤ j → j ≤ e → (stateAt cpu ins j).rtos.cs.state = .load := by
  induction d with
  | zero =>
    refine ⟨e, rfl, hi, rfl, fun _ _ => rfl, fun j h1 h2 => ?_⟩
    rw [Nat.le_antisymm h2 h1]
    exact hl
  | succ d ih =>
    obtain ⟨k, hk, hidx, hnext, hbank, hload⟩ := ih (by omega)
    have hlk := hload k (le_refl k) (by omega)
    cases k with
    | zero => exact absurd hlk (by simp [stateAt, init, HwRtos.reset, ContextSwitch.reset])
    | succ k =>
      have h := run_inv cpu ins k
      have hstep : stateAt cpu ins (k + 1) = (stateAt cpu ins k).step (ins k) := rfl
      rw [hstep] at hlk hidx
      have hne : BitVec.ofNat 5 (31 - d) ≠ 1 := by
        intro hc
        have hval : (31 - d) % 2 ^ 5 = 1 := (BitVec.toNat_ofNat _ _).symm.trans (congrArg BitVec.toNat hc)
        omega
      rcases (cs_moves _ _).2.1 hlk with ⟨-, -, h1⟩ | ⟨hst, -, h1⟩
      · exact absurd (hidx.symm.trans h1) hne
      · have hsw := switching_of_cs (i := ins k) h (by simp [hlk])
        refine ⟨k, by omega, ?_, ?_, fun t r => ?_, fun j h1 h2 => ?_⟩
        · rw [h1] at hidx
          apply BitVec.eq_of_toNat_eq
          have hval : ((stateAt cpu ins k).rtos.cs.regIdx.toNat + 1) % 2 ^ 5 = (31 - d) % 2 ^ 5 :=
            ((BitVec.toNat_add _ _).symm.trans (congrArg BitVec.toNat hidx)).trans (BitVec.toNat_ofNat _ _)
          have hlt := (stateAt cpu ins k).rtos.cs.regIdx.isLt
          rw [BitVec.toNat_ofNat]
          omega
        · rw [← hnext, hstep, (switching_keeps (Or.inr hsw)).2.1]
        · rw [← hbank, hstep, step_bank h]
          simp [hst]
        · rcases Nat.lt_or_eq_of_le h1 with hlt | rfl
          · exact hload j (by omega) h2
          · exact hst

/-- **A switch from an active task writes every register of the CPU** with what the bank of the next task holds. -/
theorem delivered_of_transferred {m : ℕ} (ht : (stateAt cpu ins (m + 1)).Transferred) (r : RegAddr) (h0 : r ≠ 0) :
    Delivered cpu ins (m + 1) r ((stateAt cpu ins (m + 1)).bank (stateAt cpu ins (m + 1)).next r) := by
  have hm := run_inv cpu ins m
  have hstep : stateAt cpu ins (m + 1) = (stateAt cpu ins m).step (ins m) := rfl
  refine ⟨?_, ((run_inv cpu ins (m + 1)).loaded (Or.inr (Or.inr ht))).1 r h0⟩
  rw [hstep] at ht
  obtain ⟨hfs, hdone⟩ := transferred_of_step hm ht
  have hsw : HwRtos.Switching (stateAt cpu ins m).fsm := Or.inr (Or.inr hfs)
  cases m with
  | zero => exact absurd hdone (by simp [stateAt, init, HwRtos.reset, ContextSwitch.reset])
  | succ e =>
    have hd : ((stateAt cpu ins e).step (ins e)).rtos.cs.state = .done := hdone
    obtain ⟨hl, h31⟩ := (cs_moves _ _).2.2 hd
    have he := run_inv cpu ins e
    have hswe := switching_of_cs (i := ins e) he (by simp [hd])
    have hpos : r.toNat ≠ 0 := fun hc => h0 (BitVec.eq_of_toNat_eq hc)
    have hlt := r.isLt
    obtain ⟨k, hk, hidx, hnext, hbank, hload⟩ := load_back hl h31 (31 - r.toNat) (by omega)
    have hreg : (stateAt cpu ins k).rtos.cs.regIdx = r := by
      rw [hidx]
      apply BitVec.eq_of_toNat_eq
      simp only [BitVec.toNat_ofNat]
      omega
    have hlk := hload k (le_refl k) (by omega)
    -- the bank does not change between the write and the dispatch
    have hkeep : (stateAt cpu ins (e + 1 + 1)).bank (stateAt cpu ins (e + 1 + 1)).next r =
        (stateAt cpu ins k).bank (stateAt cpu ins k).next r := by
      have hfirst : (stateAt cpu ins (e + 1)).bank (stateAt cpu ins (e + 1)).next r =
          (stateAt cpu ins e).bank (stateAt cpu ins e).next r := by
        change ((stateAt cpu ins e).step (ins e)).bank ((stateAt cpu ins e).step (ins e)).next r = _
        rw [(switching_keeps (Or.inr hswe)).2.1, step_bank he]
        simp [hl]
      rw [hstep, (switching_keeps (Or.inr hsw)).2.1, step_bank hm]
      simp only [hdone, reduceCtorEq, false_and, if_false]
      rw [hfirst, hnext, hbank]
    refine ⟨k, by omega, ⟨?_, ?_, ?_⟩, fun j h1 h2 => ?_⟩
    · simp [ContextSwitch.cpuRegWe, hlk]
    · simp [ContextSwitch.cpuRegAddr, hlk, hreg]
    · have hnew := ((run_inv cpu ins k).ids (Or.inr hlk)).2.1
      rw [hkeep]
      simp only [ContextSwitch.cpuRegWdata, hlk, hnew, hreg]
      rfl
    · rcases Nat.lt_succ_iff_lt_or_eq.1 h2 with hlt | rfl
      · by_contra hc
        have := ((run_inv cpu ins j).rest hc).1
        rw [hload j h1 (by omega)] at this
        exact CtxState.noConfusion this
      · exact hsw

/-- **A dispatch without an active task delivers nothing**: it comes straight from the comparison. -/
theorem not_delivered_of_direct {m : ℕ} (ha : (stateAt cpu ins (m + 1)).active = false) (r : RegAddr) (v : Word) :
    ¬ Delivered cpu ins (m + 1) r v := by
  rintro ⟨⟨k, hk, -, hsw⟩, -⟩
  have hm : HwRtos.Switching (stateAt cpu ins m).fsm := hsw m (by omega) (Nat.lt_succ_self m)
  have hactive : (stateAt cpu ins (m + 1)).active = (stateAt cpu ins m).active := (switching_keeps (Or.inr hm)).2.2
  rw [hactive, ((run_inv cpu ins m).pair (Or.inr hm)).1] at ha
  exact Bool.noConfusion ha

/-- **What a preempted task gets back.** `A` is preempted in cycle `n` and switched back to in cycle `m`. Its registers
and its pc are delivered exactly when there is an active task in `m`, so that the switch is a preemption of that task,
and the bank of the successor of `A` at `n` held just the registers of `A`. -/
theorem restored_iff {n m : ℕ} {A : TaskId} (hp : Preempted cpu ins n A) (hb : SwitchedBack cpu ins n m A) :
    Restored cpu ins n m ↔ (stateAt cpu ins m).active = true ∧
      ∀ r, r ≠ 0 → (stateAt cpu ins n).bank (stateAt cpu ins n).next r = (stateAt cpu ins n).cpu.regs r := by
  obtain ⟨hlt, hf, hn, hfirst⟩ := hb
  obtain ⟨d, rfl⟩ := Nat.exists_eq_add_of_lt hlt
  rw [Nat.add_assoc] at *
  cases ha : (stateAt cpu ins (n + (d + 1))).active with
  | false =>
    refine ⟨fun h => ?_, fun h => Bool.noConfusion h.1⟩
    exact absurd (h.1 1 (by decide)) (not_delivered_of_direct (m := n + d) ha 1 _)
  | true =>
    rcases held_run cpu ins hp (d + 1) hfirst with ⟨-, -, hne, -, -⟩ | ⟨hc, hbank, hpc⟩
    · exact absurd hn hne
    · have ht : (stateAt cpu ins (n + (d + 1))).Transferred := ⟨hf, ha, fun e => hc (e.trans hn)⟩
      have hrpc := ((run_inv cpu ins (n + (d + 1))).loaded (Or.inr (Or.inr ht))).2
      rw [hn] at hrpc
      -- what is delivered is what the bank of the successor held
      have hdel (r : RegAddr) (h0 : r ≠ 0) :
          Delivered cpu ins (n + (d + 1)) r ((stateAt cpu ins n).bank (stateAt cpu ins n).next r) := by
        have h := delivered_of_transferred (m := n + d) ht r h0
        have hval : (stateAt cpu ins (n + (d + 1))).bank (stateAt cpu ins (n + (d + 1))).next r =
            (stateAt cpu ins n).bank (stateAt cpu ins n).next r := by
          rw [hn]
          exact hbank r h0
        rw [← hval]
        exact h
      constructor
      · intro h
        exact ⟨rfl, fun r h0 => (hdel r h0).2.symm.trans (h.1 r h0).2⟩
      · rintro ⟨-, h⟩
        exact ⟨fun r h0 => by rw [← h r h0]; exact hdel r h0, hrpc.trans hpc⟩

end Run

/-! ## Two runs -/

section Kept

/-- `mutexExec` with a lock's updates written as conditionals, which the kernel evaluates by comparing numbers -/
def lockByCases (o : MutexObj) (op : MutexOp) (a : MutexArgs) : MutexObj :=
  match op with
  | .lock =>
    if o.locked a.mutexId then
      { o with waitMask := fun m => if m = a.mutexId then
          fun t => if t = a.taskId then true else o.waitMask a.mutexId t else o.waitMask m }
    else
      { o with
        locked := fun m => if m = a.mutexId then true else o.locked m
        ownerId := fun m => if m = a.mutexId then a.taskId else o.ownerId m
        originalPrio := fun m => if m = a.mutexId then a.prio a.taskId else o.originalPrio m }
  | op => mutexExec o op a

theorem update_by_cases {α β : Type} [DecidableEq α] (f : α → β) (a : α) (v : β) :
    Function.update f a v = fun x => if x = a then v else f x := funext fun x => Function.update_apply f a v x

theorem lockByCases_eq (o : MutexObj) (op : MutexOp) (a : MutexArgs) : lockByCases o op a = mutexExec o op a := by
  cases op <;> simp only [lockByCases, mutexExec, update_by_cases]

/-- `TcbArray.step`, with what a cycle without a write leaves written out -/
def tcbByCases (t : TcbArray) (p : TcbPorts) : TcbArray :=
  match p.create, p.delete, p.tcbWr, p.stateWr, p.tsReload with
  | none, none, none, none, none => fun i => { t i with timeSlice := (t i).tick.timeSlice }
  | _, _, _, _, _ => t.step p

theorem tcbByCases_eq (t : TcbArray) (p : TcbPorts) : tcbByCases t p = t.step p := by
  unfold tcbByCases
  split
  next h1 h2 h3 h4 h5 =>
    funext i
    rw [TcbArray.step, h1, h2, h3, h4, h5]
    change _ = (t i).tick
    unfold Tcb.tick
    split_ifs <;> rfl
  next => rfl

def stepByCases (s : Switched) (i : SwitchIn) : Switched :=
  { s.step i with
    rtos := { (s.step i).rtos with
      tcb := tcbByCases s.rtos.tcb s.rtos.tcbPorts
      mutex := { (s.step i).rtos.mutex with
        obj := lockByCases s.rtos.mutex.obj (MutexOp.ofCode s.rtos.mutexOpInt) s.rtos.mutexArgs } } }

theorem stepByCases_eq : stepByCases = step := by
  funext s i
  simp only [stepByCases, lockByCases_eq, tcbByCases_eq]
  rfl

/-- Task 1 locks a mutex and exits, task 2 runs, and a new task 1 of lower priority is created. Task 2 locks the mutex,
which boosts task 1 and leaves a copy of its entry in entry 0; task 1 runs and yields to task 0, which runs with 0 in
each register at pc 0x100. Task 3 is created and preempts task 0; with 0xB2 in its registers it locks the mutex, which
boosts task 1 and leaves another copy in entry 0; task 1 runs and yields to task 0. -/
def keptRun (k : ℕ) : SwitchIn where
  rtos :=
    { RtosIn.quiet with
      taskCreate := k == 0 || k == 27 || k == 78 || k == 278
      createArgs := if k < 60 then ⟨0x100, 0x800, 2⟩ else if k < 200 then ⟨0x100, 0x800, 1⟩ else ⟨0x300, 0xA00, 3⟩
      mutexOp := if k = 24 ∨ k = 101 ∨ k = 433 then 0b01 else 0b00
      taskExit := k == 51
      taskYield := k == 127 || k == 459
      ctxSwitchAck := true }
  cpu := if k < 350 then ⟨fun _ => 0, 0x100⟩ else ⟨fun _ => 0xB2, 0x300⟩

def keptCpu : Cpu := ⟨fun _ => 0, 0x100⟩

/-- the test that finds the preemption of task 0 in cycle 303, by a task with 0 in its bank, and its next dispatch in
cycle 611, from an active task -/
def keptTest (k : ℕ) (s : Switched) : Bool :=
  if k = 302 then decide (¬ Frozen s.fsm)
  else if k = 303 then decide (s.fsm = .preemptCheck ∧ s.cur = 0 ∧ ∀ r, s.bank s.next r = 0)
  else if k = 611 then decide (s.fsm = .dispatch ∧ s.next = 0 ∧ s.active = true)
  else !(decide (303 < k) && decide (s.fsm = .dispatch ∧ s.next = 0))

theorem keptRun_test : ∀ k < 612, keptTest k (stateAt keptCpu keptRun k) = true := by
  have h := Machine.check_all stepByCases (init keptCpu) keptRun keptTest 612 (by decide +kernel)
  rwa [stepByCases_eq] at h

theorem kept_free : (stateAt keptCpu keptRun 303).cpu = (keptRun 302).cpu := by
  have h302 := keptRun_test 302 (by decide)
  simp only [keptTest, if_true, decide_eq_true_eq] at h302
  exact cpu_of_free _ _ 302 h302

theorem kept_preempted : Preempted keptCpu keptRun 303 0 ∧
    ∀ r, (stateAt keptCpu keptRun 303).bank (stateAt keptCpu keptRun 303).next r = 0 := by
  have h303 := keptRun_test 303 (by decide)
  simp only [keptTest, Nat.reduceEqDiff, if_false, if_true, decide_eq_true_eq] at h303
  exact ⟨⟨h303.1, h303.2.1⟩, h303.2.2⟩

theorem kept_switchedBack : SwitchedBack keptCpu keptRun 303 611 0 ∧ (stateAt keptCpu keptRun 611).active = true := by
  have h611 := keptRun_test 611 (by decide)
  simp only [keptTest, Nat.reduceEqDiff, if_false, if_true, decide_eq_true_eq] at h611
  refine ⟨⟨by decide, h611.1, h611.2.1, fun k h1 h2 hd => ?_⟩, h611.2.2⟩
  have hk := keptRun_test k (by omega)
  simp [keptTest, hd.1, hd.2, show k ≠ 302 by omega, show k ≠ 303 by omega, show k ≠ 611 by omega, h1] at hk

/-- **A preempted task gets its registers back**, from a task that was active: the bank of its successor held them. -/
theorem kept_restored : Restored keptCpu keptRun 303 611 := by
  refine (restored_iff kept_preempted.1 kept_switchedBack.1).2 ⟨kept_switchedBack.2, fun r _ => ?_⟩
  have hregs : (stateAt keptCpu keptRun 303).cpu.regs r = 0 := by
    rw [kept_free]
    rfl
  exact (kept_preempted.2 r).trans hregs.symm

end Kept

/-- task 1 runs with 0xA1 in each register at pc 0x100; task 2 is created in cycle 26 and preempts it; in cycle 190
task 2, with 0xB2 in its registers, exits -/
def lostRun (k : ℕ) : SwitchIn where
  rtos :=
    { RtosIn.quiet with
      taskCreate := k == 0 || k == 26
      createArgs := if k < 26 then ⟨0x100, 0x800, 1⟩ else ⟨0x200, 0x900, 2⟩
      taskExit := k == 190
      ctxSwitchAck := true }
  cpu := if k < 100 then ⟨fun _ => 0xA1, 0x100⟩ else ⟨fun _ => 0xB2, 0x200⟩

def lostCpu : Cpu := ⟨fun _ => 0xA1, 0x100⟩

/-- the test that finds the preemption of task 1 in cycle 49 and its next dispatch in cycle 214 -/
def lostTest (k : ℕ) (s : Switched) : Bool :=
  if k = 48 then decide (¬ Frozen s.fsm)
  else if k = 49 then decide (s.fsm = .preemptCheck ∧ s.cur = 1)
  else if k = 213 then decide (¬ Frozen s.fsm)
  else if k = 214 then decide (s.fsm = .dispatch ∧ s.next = 1)
  else !(decide (49 < k) && decide (s.fsm = .dispatch ∧ s.next = 1))

theorem lostRun_test : ∀ k < 215, lostTest k (stateAt lostCpu lostRun k) = true := by decide +kernel

theorem lostRun_preempted : Preempted lostCpu lostRun 49 1 := by
  simpa [lostTest, Preempted] using lostRun_test 49 (by decide)

theorem lostRun_switchedBack : SwitchedBack lostCpu lostRun 49 214 1 := by
  have h := lostRun_test 214 (by decide)
  simp only [lostTest, Nat.reduceEqDiff, if_false, if_true, decide_eq_true_eq] at h
  refine ⟨by decide, h.1, h.2, fun k h1 h2 hd => ?_⟩
  have hk := lostRun_test k (by omega)
  have h213 : k ≠ 213 := by
    rintro rfl
    simp [lostTest, hd.1, Frozen] at hk
  simp [lostTest, h213, hd.1, hd.2, show k ≠ 48 by omega, show k ≠ 49 by omega, show k ≠ 214 by omega, h1] at hk

/-- **A preempted task loses its registers.** Task 1 held 0xA1 in `x1` when it was preempted; it is dispatched again
with 0xB2 there. -/
theorem registers_lost :
    Preempted lostCpu lostRun 49 1 ∧ SwitchedBack lostCpu lostRun 49 214 1 ∧
      (stateAt lostCpu lostRun 49).cpu.regs 1 = 0xA1 ∧ (stateAt lostCpu lostRun 214).cpu.regs 1 = 0xB2 ∧
      ¬ Restored lostCpu lostRun 49 214 := by
  have h49 : (stateAt lostCpu lostRun 49).cpu = (lostRun 48).cpu :=
    cpu_of_free _ _ 48 (by simpa [lostTest] using lostRun_test 48 (by decide))
  have h214 : (stateAt lostCpu lostRun 214).cpu = (lostRun 213).cpu :=
    cpu_of_free _ _ 213 (by simpa [lostTest] using lostRun_test 213 (by decide))
  refine ⟨lostRun_preempted, lostRun_switchedBack, by rw [h49]; decide, by rw [h214]; decide, fun h => ?_⟩
  have := (h.1 1 (by decide)).2
  rw [h49, h214] at this
  exact absurd this (by decide)

end Switched

end Vsync
