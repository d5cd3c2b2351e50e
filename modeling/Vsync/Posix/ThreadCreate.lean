/-
`pthread_create` and the task control blocks that become valid.

`CreateOk` compares one cycle of the array with the answer the layer takes in that cycle: an entry becomes valid exactly
when a waiting `pthread_create` takes its id, with the operands of the call, and nothing else makes an entry valid. The
request is a level that the layer still holds while it sees the done pulse, and `hw_rtos` latches it once more in
`S_SCAN_READY`; the latched copy is served on the next return to `S_IDLE`.

- `create_ok_iff`: in a run whose whole-entry writes keep the validity of their entries, every cycle is `CreateOk`
  exactly when every `S_TASK_CREATE` that finds a free entry serves a `pthread_create` still in progress, with its
  operands.
- `relatched`: the request of a served call is latched again in the cycle in which the layer sees its answer.
- `created_twice`: one `pthread_create` makes two entries valid.
-/
import Vsync.Posix.System

namespace Vsync

namespace HwRtos

/-- the registered answer of `S_TASK_CREATE` goes with the create pulse -/
structure CreatePulse (s : HwRtos) : Prop where
  created : ∀ f a, s.create = some (f, a) → s.taskCreateDone = some f ∧ f ≠ 0
  answered : ∀ f, s.taskCreateDone = some f →
    s.fsmState = .scanReady ∧ s.delete = none ∧ (f = 0 ∨ ∃ a, s.create = some (f, a))

theorem reset_createPulse : CreatePulse reset := by
  constructor <;> simp [reset]

theorem createNext_some {s : HwRtos} {i : RtosIn} {f : TaskId} {a : CreateArgs} (h : s.createNext i = some (f, a)) :
    s.fsmState = .taskCreate ∧ freeTask s.tcb = some f ∧
      a = if s.taskCreatePending then s.taskCreateR else i.createArgs := by
  have hf : s.fsmState = .taskCreate := by
    by_contra hc; simp [createNext, hc] at h
  rw [createNext, if_pos hf] at h
  cases hfree : freeTask s.tcb with
  | none => simp [hfree] at h
  | some g =>
    simp only [hfree, Option.map_some, Option.some.injEq, Prod.mk.injEq] at h
    exact ⟨hf, by rw [h.1], h.2.symm⟩

theorem step_createPulse (s : HwRtos) (i : RtosIn) : CreatePulse (s.step i) where
  created f a h := by
    obtain ⟨hf, hfree, -⟩ := createNext_some h
    exact ⟨by simp [step, taskCreateDoneNext, hf, hfree], (freeTask_some hfree).1⟩
  answered f h := by
    have hf : s.fsmState = .taskCreate := by
      by_contra hc; simp [step, taskCreateDoneNext, hc] at h
    refine ⟨by simp [step, fsmNext, hf], by simp [step, deleteNext, hf], ?_⟩
    simp only [step, taskCreateDoneNext, hf, if_true, Option.some.injEq, createNext] at h ⊢
    cases hfree : freeTask s.tcb with
    | none => left; simpa [hfree] using h.symm
    | some g => right; simp [← h, hfree]

end HwRtos

namespace System

def createOperands (s : System) : CreateArgs := ⟨s.posix.arg0, s.posix.arg1, s.posix.arg2.setWidth 4⟩

/-- the layer is in a `pthread_create` and has not seen its answer -/
def InCreate (s : System) : Prop :=
  (s.posix.state = .threadOp ∨ s.posix.state = .waitRtos) ∧ s.posix.category = 0 ∧ s.posix.subop = 0

/-- the layer waits for the answer to a `pthread_create` -/
def AwaitsCreate (s : System) : Prop := s.Waits 0 ∧ s.posix.subop = 0

instance (s : System) : Decidable s.InCreate := by unfold InCreate; infer_instance

instance (s : System) : Decidable s.AwaitsCreate := by unfold AwaitsCreate; infer_instance

/-- the id that a `pthread_create` takes as its result in this cycle; 0 is the failure -/
def returned (s : System) : Option TaskId := if s.AwaitsCreate then s.rtos.taskCreateDone else none

/-- one cycle from `s` to `s'` creates exactly what a `pthread_create` returns -/
structure CreateOk (s s' : System) : Prop where
  new_iff : ∀ j, ((s.rtos.tcb j).valid = false ∧ (s'.rtos.tcb j).valid = true) ↔ s.returned = some j ∧ j ≠ 0
  carries : ∀ j, s.returned = some j → j ≠ 0 →
    (s'.rtos.tcb j).pc = s.posix.arg0 ∧ (s'.rtos.tcb j).sp = s.posix.arg1 ∧
      (s'.rtos.tcb j).prioLevel = s.posix.arg2.setWidth 4
  keeps : ∀ j, s.returned = some j → ∀ k, (s.rtos.tcb k).valid = true → (s'.rtos.tcb k).valid = true

/-- a whole-entry write leaves the validity of its entry as it is, and does not hit the entry being created -/
def WritesKeep (s : System) : Prop :=
  match s.rtos.tcbWr with
  | some (w, d) =>
    d.valid = (s.rtos.tcb w).valid ∧
      match s.rtos.create with
      | some (f, _) => w ≠ f
      | none => True
  | none => True

instance (s : System) : Decidable s.WritesKeep := by
  unfold WritesKeep; repeat' split
  all_goals infer_instance

/-- `S_TASK_CREATE` with a free entry serves a `pthread_create` in progress, with its operands -/
def ServiceOk (s : System) : Prop :=
  s.rtos.fsmState = .taskCreate → (freeTask s.rtos.tcb).isSome = true →
    s.InCreate ∧ (s.rtos.taskCreatePending = true → s.rtos.taskCreateR = s.createOperands)

instance (s : System) : Decidable s.ServiceOk := by unfold ServiceOk; infer_instance

/-- an outstanding create pulse belongs to the call that waits -/
def PulseOk (s : System) : Prop :=
  ∀ f a, s.rtos.create = some (f, a) → s.AwaitsCreate ∧ a = s.createOperands

/-- the entry being created is free -/
def FreshPulse (s : System) : Prop := ∀ f a, s.rtos.create = some (f, a) → (s.rtos.tcb f).valid = false

section Cycle

variable {s : System} {i : SysIn}

theorem tcbWr_ne {f w : TaskId} {a : CreateArgs} {d : Tcb} (hw : s.WritesKeep) (hc : s.rtos.create = some (f, a))
    (h : s.rtos.tcbWr = some (w, d)) : w ≠ f := by
  simp only [WritesKeep, h, hc] at hw
  exact hw.2

theorem tcbWr_valid {w : TaskId} {d : Tcb} (hw : s.WritesKeep) (h : s.rtos.tcbWr = some (w, d)) :
    d.valid = (s.rtos.tcb w).valid := by
  simp only [WritesKeep, h] at hw
  exact hw.1

/-- an entry becomes valid exactly when the create pulse hits it -/
theorem newly_valid_iff (hw : s.WritesKeep) (hp : s.rtos.CreatePulse) (hf : s.FreshPulse) (j : TaskId) :
    ((s.rtos.tcb j).valid = false ∧ ((s.step i).rtos.tcb j).valid = true) ↔ ∃ a, s.rtos.create = some (j, a) := by
  simp only [step, HwRtos.step, TcbArray.step_valid, HwRtos.tcbPorts]
  constructor
  · rintro ⟨h0, h1⟩
    have hcreated (h : (Tcb.delete j (Tcb.create j (s.rtos.tcb j).tick s.rtos.create) s.rtos.delete).valid = true) :
        ∃ a, s.rtos.create = some (j, a) := by
      have hv := (Tcb.create_valid_iff j _ _).1 ((Tcb.delete_valid_iff j _ _).1 h).2
      rw [Tcb.tick_valid, h0] at hv
      exact hv.resolve_left (by decide)
    rcases hwr : s.rtos.tcbWr with _ | ⟨w, d⟩
    · rw [hwr, Tcb.write_none] at h1
      exact hcreated h1
    · simp only [hwr, Tcb.write] at h1
      split_ifs at h1 with hwj
      · subst hwj
        rw [tcbWr_valid hw hwr, h0] at h1
        exact absurd h1 (by decide)
      · exact hcreated h1
  · rintro ⟨a, hc⟩
    refine ⟨hf j a hc, ?_⟩
    have hd : s.rtos.delete = none := (hp.answered j (hp.created j a hc).1).2.1
    rcases hwr : s.rtos.tcbWr with _ | ⟨w, d⟩
    · simp [hd, hc, Tcb.create]
    · simp [hd, hc, Tcb.create, Tcb.write, tcbWr_ne hw hc hwr]

theorem created_carries (hw : s.WritesKeep) (hp : s.rtos.CreatePulse) {j : TaskId} {a : CreateArgs}
    (hc : s.rtos.create = some (j, a)) :
    ((s.step i).rtos.tcb j).pc = a.pc ∧ ((s.step i).rtos.tcb j).sp = a.sp ∧
      ((s.step i).rtos.tcb j).prioLevel = a.prio := by
  have hd : s.rtos.delete = none := (hp.answered j (hp.created j a hc).1).2.1
  have he : Tcb.write j (Tcb.delete j (Tcb.create j (s.rtos.tcb j).tick s.rtos.create) s.rtos.delete) s.rtos.tcbWr =
      ⟨j, a.prio, .ready, a.pc, a.sp, 0xFFFF, true⟩ := by
    rcases hwr : s.rtos.tcbWr with _ | ⟨w, d⟩
    · simp [hd, hc, Tcb.create]
    · simp [hd, hc, Tcb.create, Tcb.write, tcbWr_ne hw hc hwr]
  simp [step, HwRtos.step, TcbArray.step, HwRtos.tcbPorts, he]

theorem stays_valid (hw : s.WritesKeep) (hd : s.rtos.delete = none) (k : TaskId) (h : (s.rtos.tcb k).valid = true) :
    ((s.step i).rtos.tcb k).valid = true := by
  simp only [step, HwRtos.step, TcbArray.step_valid, HwRtos.tcbPorts, hd, Tcb.delete_none]
  have hcreate : (Tcb.create k (s.rtos.tcb k).tick s.rtos.create).valid = true :=
    (Tcb.create_valid_iff k _ _).2 (.inl (by rw [Tcb.tick_valid, h]))
  rcases hwr : s.rtos.tcbWr with _ | ⟨w, d⟩
  · rwa [Tcb.write_none]
  · simp only [Tcb.write]
    split_ifs with hwk
    · subst hwk; rw [tcbWr_valid hw hwr, h]
    · exact hcreate

/-- **One cycle is right exactly when the outstanding pulse belongs to the call that waits.** -/
theorem createOk_iff (hw : s.WritesKeep) (hp : s.rtos.CreatePulse) (hf : s.FreshPulse) :
    CreateOk s (s.step i) ↔ s.PulseOk := by
  constructor
  · intro h f a hc
    have hr := (h.new_iff f).1 ((newly_valid_iff hw hp hf f).2 ⟨a, hc⟩)
    have hwait : s.AwaitsCreate := by
      by_contra hn; simp [returned, hn] at hr
    obtain ⟨h1, h2, h3⟩ := h.carries f hr.1 hr.2
    obtain ⟨c1, c2, c3⟩ := created_carries (i := i) hw hp hc
    refine ⟨hwait, ?_⟩
    cases a
    simp_all [createOperands]
  · intro h
    have hdone : ∀ j, s.returned = some j → s.rtos.taskCreateDone = some j := by
      intro j hj; unfold returned at hj; split_ifs at hj; exact hj
    refine ⟨fun j => ?_, fun j hj h0 => ?_, fun j hj k hk => ?_⟩
    · rw [newly_valid_iff hw hp hf]
      constructor
      · rintro ⟨a, hc⟩
        refine ⟨?_, (hp.created j a hc).2⟩
        rw [returned, if_pos (h j a hc).1]; exact (hp.created j a hc).1
      · rintro ⟨hj, h0⟩
        exact (hp.answered j (hdone j hj)).2.2.resolve_left h0
    · obtain ⟨a, hc⟩ := (hp.answered j (hdone j hj)).2.2.resolve_left h0
      have := created_carries (i := i) hw hp hc
      rw [(h j a hc).2] at this
      exact this
    · exact stays_valid hw (hp.answered j (hdone j hj)).2.1 k hk

/-- the entry chosen in `S_TASK_CREATE` is still free when the pulse is out -/
theorem step_freshPulse (hw : s.WritesKeep) (hp : s.rtos.CreatePulse) (hf : s.FreshPulse) : (s.step i).FreshPulse := by
  intro f a hc
  obtain ⟨hfs, hfree, -⟩ := HwRtos.createNext_some hc
  have hinv := (freeTask_some hfree).2
  by_contra hv
  obtain ⟨b, hb⟩ := (newly_valid_iff (i := i) hw hp hf f).1 ⟨hinv, by simpa using hv⟩
  have := (hp.answered f (hp.created f b hb).1).1
  simp [hfs] at this

/-- a call in progress, unless it sees its answer, waits in the next cycle; and it was in progress if it waits then -/
theorem awaits_step_iff (ho : s.OwnCategory) (hd : s.rtos.taskCreateDone = none) :
    (s.step i).AwaitsCreate ↔ s.InCreate := by
  constructor
  · rintro ⟨⟨hst, hcat⟩, hsub⟩
    have hne : s.posix.state ≠ .idle := by
      intro hi
      rcases waitRtos_of_step hst with h | h | h | h | h <;> simp [hi] at h
    rw [step_category hne] at hcat
    rw [step_subop hne] at hsub
    refine ⟨?_, hcat, hsub⟩
    rcases waitRtos_of_step hst with ⟨h, -⟩ | ⟨h, -⟩ | ⟨h, -⟩ | ⟨h, -⟩ | ⟨h, -⟩
    · exact Or.inl h
    · have := ho.2.1 h; omega
    · have := ho.2.2.1 h; omega
    · have := ho.2.2.2 h; omega
    · exact Or.inr h
  · rintro ⟨hst, hcat, hsub⟩
    have hne : s.posix.state ≠ .idle := by rcases hst with h | h <;> simp [h]
    refine ⟨⟨?_, by rw [step_category hne, hcat]⟩, by rw [step_subop hne, hsub]⟩
    rcases hst with h | h
    · simp [step, PosixLayer.step, PosixLayer.stateNext, h, hsub, PosixLayer.threadWaits]
    · simp [step, PosixLayer.step, PosixLayer.stateNext, h, PosixLayer.rtosDone, hcat, hsub, posixIn, hd]

theorem taskCreate_of_inCreate (h : s.InCreate) : s.posix.taskCreate = some s.createOperands := by
  obtain ⟨hst, hcat, hsub⟩ := h
  rcases hst with h | h <;>
    simp [PosixLayer.taskCreate, PosixLayer.serves, h, hcat, hsub, createOperands]

theorem pulseOk_step_iff (ho : s.OwnCategory) (hp : s.rtos.CreatePulse) : (s.step i).PulseOk ↔ s.ServiceOk := by
  constructor
  · intro h hfs hfree
    obtain ⟨f, hf⟩ := Option.isSome_iff_exists.1 hfree
    have hd : s.rtos.taskCreateDone = none := by
      by_contra hc
      obtain ⟨g, hg⟩ := Option.ne_none_iff_exists'.1 hc
      simpa [hfs] using (hp.answered g hg).1
    have hc : (s.step i).rtos.create =
        some (f, if s.rtos.taskCreatePending then s.rtos.taskCreateR else (s.rtosIn i).createArgs) := by
      simp [step, HwRtos.step, HwRtos.createNext, hfs, hf]
    obtain ⟨hwait, ha⟩ := h _ _ hc
    have hin := (awaits_step_iff ho hd).1 hwait
    have hne : s.posix.state ≠ .idle := by rcases hin.1 with h | h <;> simp [h]
    obtain ⟨-, h0, h1, h2⟩ := step_num (i := i) hne
    refine ⟨hin, fun hpend => ?_⟩
    rw [hpend, if_pos rfl] at ha
    simpa [createOperands, h0, h1, h2] using ha
  · intro h f a hc
    obtain ⟨hfs, hfree, ha⟩ := HwRtos.createNext_some hc
    have hd : s.rtos.taskCreateDone = none := by
      by_contra hc
      obtain ⟨g, hg⟩ := Option.ne_none_iff_exists'.1 hc
      simpa [hfs] using (hp.answered g hg).1
    obtain ⟨hin, hpend⟩ := h hfs (by simp [hfree])
    have hne : s.posix.state ≠ .idle := by rcases hin.1 with h | h <;> simp [h]
    obtain ⟨-, h0, h1, h2⟩ := step_num (i := i) hne
    refine ⟨(awaits_step_iff ho hd).2 hin, ?_⟩
    have hop : (s.step i).createOperands = s.createOperands := by simp [createOperands, h0, h1, h2]
    rw [hop, ha]
    split_ifs with hp'
    · exact hpend hp'
    · simp [rtosIn, taskCreate_of_inCreate hin]

/-- **The request is latched again.** A call that sees its answer in `S_SCAN_READY` leaves a pending creation behind. -/
theorem relatched (h : s.AwaitsCreate) (hp : s.rtos.CreatePulse) (hr : s.returned ≠ none) :
    (s.step i).rtos.taskCreatePending = true := by
  have hd : s.rtos.taskCreateDone ≠ none := by simpa [returned, h] using hr
  obtain ⟨f, hf⟩ := Option.ne_none_iff_exists'.1 hd
  have hfs := (hp.answered f hf).1
  have hc : s.posix.taskCreate = some s.createOperands := taskCreate_of_inCreate ⟨Or.inr h.1.1, h.1.2, h.2⟩
  simp [step, HwRtos.step, HwRtos.taskCreatePendingNext, hfs, rtosIn, hc]

end Cycle

/-! ## Runs -/

theorem createPulse (ins : ℕ → SysIn) (n : ℕ) : (stateAt ins n).rtos.CreatePulse := by
  cases n with
  | zero => exact HwRtos.reset_createPulse
  | succ n => exact HwRtos.step_createPulse _ _

theorem freshPulse (ins : ℕ → SysIn) (n : ℕ) (hw : ∀ k < n, (stateAt ins k).WritesKeep) :
    (stateAt ins n).FreshPulse := by
  induction n with
  | zero => simp [FreshPulse, stateAt, reset, HwRtos.reset]
  | succ n ih =>
    exact step_freshPulse (hw n (Nat.lt_succ_self n)) (createPulse ins n)
      (ih fun k hk => hw k (Nat.lt_succ_of_lt hk))

/-- **`pthread_create` creates once.** In a run whose whole-entry writes keep the validity of their entries, every cycle
is right if and only if every service of `S_TASK_CREATE` with a free entry is for a call in progress. -/
theorem create_ok_iff (ins : ℕ → SysIn) (n : ℕ) (hw : ∀ k ≤ n, (stateAt ins k).WritesKeep) :
    (∀ k ≤ n, CreateOk (stateAt ins k) (stateAt ins (k + 1))) ↔ ∀ k < n, (stateAt ins k).ServiceOk := by
  have hcycle : ∀ k ≤ n, CreateOk (stateAt ins k) (stateAt ins (k + 1)) ↔ (stateAt ins k).PulseOk := by
    intro k hk
    exact createOk_iff (hw k hk) (createPulse ins k) (freshPulse ins k fun j hj => hw j (by omega))
  constructor
  · intro h k hk
    exact (pulseOk_step_iff (i := ins k) (ownCategory ins k) (createPulse ins k)).1
      ((hcycle (k + 1) hk).1 (h (k + 1) hk))
  · intro h k hk
    rw [hcycle k hk]
    cases k with
    | zero => simp [PulseOk, stateAt, reset, HwRtos.reset]
    | succ k => exact (pulseOk_step_iff (ownCategory ins k) (createPulse ins k)).2 (h k hk)

def createRun (k : ℕ) : SysIn := if k = 0 then SysIn.call 0x00 0x100 0x800 3 else SysIn.quiet

/-- up to its answer, the call is right -/
theorem create_ok_iff_createRun :
    (∀ k ≤ 5, CreateOk (stateAt createRun k) (stateAt createRun (k + 1))) ↔ ∀ k < 5, (stateAt createRun k).ServiceOk :=
  create_ok_iff createRun 5 (by decide +kernel)

/-- **One call creates twice.** The call returns 1 in cycle 4; in cycle 28, when no call is in progress, entry 2 becomes
valid with the same operands. -/
theorem created_twice :
    (stateAt createRun 4).returned = some 1 ∧ (stateAt createRun 28).returned = none ∧
      ((stateAt createRun 28).rtos.tcb 2).valid = false ∧ ((stateAt createRun 29).rtos.tcb 2).valid = true ∧
      ((stateAt createRun 29).rtos.tcb 2).pc = 0x100 ∧
      ¬ CreateOk (stateAt createRun 28) (stateAt createRun (28 + 1)) := by
  have h : (stateAt createRun 4).returned = some 1 ∧ (stateAt createRun 28).returned = none ∧
      ((stateAt createRun 28).rtos.tcb 2).valid = false ∧ ((stateAt createRun 29).rtos.tcb 2).valid = true ∧
      ((stateAt createRun 29).rtos.tcb 2).pc = 0x100 := by decide +kernel
  obtain ⟨h1, h2, h3, h4, h5⟩ := h
  refine ⟨h1, h2, h3, h4, h5, fun hc => ?_⟩
  have := ((hc.new_iff 2).1 ⟨h3, h4⟩).1
  rw [h2] at this
  exact absurd this (by decide)

end System

end Vsync
