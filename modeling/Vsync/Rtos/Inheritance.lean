/-
Priority inheritance over several mutexes.

The unit runs beside the priorities it reads: after each operation its boost output is written back. A mutex saves the
priority its owner has when it gets the mutex, and an unlock writes the saved value back, whatever other mutexes the
owner holds and whatever it inherited before. An inheriting owner that waits itself does not pass its new priority on.

- `Inherits`: each owner runs at least at the priority of its waiters, and a task without a mutex at its own.
- `KeepsPrio`: what one operation must find.
- `inherits_step_iff`, `inherits_iff`: an operation, and a run, keeps the protocol exactly then.
- `single_inherits`: tasks that hold one mutex at a time always do.
- `nested_breaks`: two nested mutexes leave a task with an inherited priority for good.
-/
import Vsync.Machine
import Vsync.Rtos.Mutex

namespace Vsync

/-- the unit and the priorities of the tasks -/
structure PrioMutex where
  unit : HwMutex
  prio : TaskId → Prio

structure MutexCall where
  op : MutexOp
  mutexId : MutexId
  taskId : TaskId

/-- `task_priorities` after a boost -/
def applyBoost (prio : TaskId → Prio) : Option (TaskId × Prio) → TaskId → Prio
  | none => prio
  | some (t, v) => Function.update prio t v

namespace PrioMutex

variable (s : PrioMutex)

def obj : MutexObj := s.unit.obj

def Holds (t : TaskId) (m : MutexId) : Prop := s.obj.locked m = true ∧ s.obj.ownerId m = t

def Waits (t : TaskId) (m : MutexId) : Prop := s.obj.waitMask m t = true

def owner (m : MutexId) : TaskId := s.obj.ownerId m

/-- one operation, with its boost applied -/
def step (c : MutexCall) : PrioMutex where
  unit := s.unit.step c.op ⟨c.mutexId, c.taskId, s.prio⟩
  prio := applyBoost s.prio (s.unit.step c.op ⟨c.mutexId, c.taskId, s.prio⟩).boost

def start (base : TaskId → Prio) : PrioMutex := ⟨HwMutex.reset, base⟩

def stateAt (base : TaskId → Prio) (calls : ℕ → MutexCall) (n : ℕ) : PrioMutex :=
  Machine.trace step (start base) calls n

/-- **Priority inheritance.** -/
structure Inherits (base : TaskId → Prio) : Prop where
  owner : ∀ m t, s.Waits t m → s.prio t ≤ s.prio (s.owner m)
  restored : ∀ t, (∀ m, ¬ s.Holds t m) → s.prio t = base t

/-- what an operation must find: an owner that inherits does not wait behind a lower priority, and the priority that an
unlock writes back is enough for the other mutexes of the task, or its own if there are none -/
def KeepsPrio (base : TaskId → Prio) (c : MutexCall) : Prop :=
  match c.op with
  | .nop => True
  | .lock => s.obj.locked c.mutexId = true → s.prio (s.owner c.mutexId) < s.prio c.taskId →
    ∀ m, s.Waits (s.owner c.mutexId) m → s.owner m = s.owner c.mutexId ∨ s.prio c.taskId ≤ s.prio (s.owner m)
  | .unlock => s.Holds c.taskId c.mutexId →
    (∀ m, m ≠ c.mutexId → s.Holds c.taskId m → ∀ t, s.Waits t m → s.prio t ≤ s.obj.originalPrio c.mutexId) ∧
      ((∀ m, m ≠ c.mutexId → ¬ s.Holds c.taskId m) → s.obj.originalPrio c.mutexId = base c.taskId)

instance (t : TaskId) (m : MutexId) : Decidable (s.Holds t m) := inferInstanceAs (Decidable (_ ∧ _))

instance (t : TaskId) (m : MutexId) : Decidable (s.Waits t m) := inferInstanceAs (Decidable (_ = _))

instance (base : TaskId → Prio) (c : MutexCall) : Decidable (s.KeepsPrio base c) := by
  unfold KeepsPrio
  split <;> infer_instance

def FreeUnwaited : Prop := ∀ m t, s.obj.locked m = false → ¬ s.Waits t m

variable {s} {m : MutexId} {t : TaskId}

/-! ## What the operations do -/

theorem lock_free (h : s.obj.locked m = false) :
    (s.step ⟨.lock, m, t⟩).obj = { s.obj with
      locked := Function.update s.obj.locked m true
      ownerId := Function.update s.obj.ownerId m t
      originalPrio := Function.update s.obj.originalPrio m (s.prio t) } ∧
    (s.step ⟨.lock, m, t⟩).prio = s.prio := by
  unfold obj at h
  constructor
  · simp [step, obj, mutexExec, h]
  · simp [step, mutexBoost, h, applyBoost]

/-- a lock that has to wait -/
theorem lock_held (h : s.obj.locked m = true) :
    (s.step ⟨.lock, m, t⟩).obj = { s.obj with
      waitMask := Function.update s.obj.waitMask m (Function.update (s.obj.waitMask m) t true) } ∧
    (s.step ⟨.lock, m, t⟩).prio =
      if s.prio (s.owner m) < s.prio t then Function.update s.prio (s.owner m) (s.prio t) else s.prio := by
  unfold owner
  unfold obj at h ⊢
  constructor
  · simp [step, mutexExec, h]
  · by_cases hp : s.prio (s.unit.obj.ownerId m) < s.prio t <;> simp [step, mutexBoost, h, hp, applyBoost]

theorem unlock_foreign (h : ¬ s.Holds t m) :
    (s.step ⟨.unlock, m, t⟩).obj = s.obj ∧ (s.step ⟨.unlock, m, t⟩).prio = s.prio := by
  unfold Holds obj at h
  constructor
  · simp [step, obj, mutexExec, h]
  · simp [step, mutexBoost, h, applyBoost]

/-- an unlock of the owner writes the saved priority back -/
theorem unlock_prio (h : s.Holds t m) :
    (s.step ⟨.unlock, m, t⟩).prio = Function.update s.prio t (s.obj.originalPrio m) := by
  unfold Holds obj at h
  simp [step, mutexBoost, h, applyBoost, obj]

/-- it hands the mutex to the best waiter -/
theorem unlock_hands (h : s.Holds t m) {w : TaskId} (hw : bestWake (s.obj.waitMask m) s.prio = some w) :
    (s.step ⟨.unlock, m, t⟩).obj = { s.obj with
      ownerId := Function.update s.obj.ownerId m w
      originalPrio := Function.update s.obj.originalPrio m (s.prio w)
      waitMask := Function.update s.obj.waitMask m (Function.update (s.obj.waitMask m) w false) } := by
  unfold Holds obj at h
  unfold obj at hw ⊢
  simp [step, mutexExec, h, hw]

theorem unlock_frees (h : s.Holds t m) (hw : bestWake (s.obj.waitMask m) s.prio = none) :
    (s.step ⟨.unlock, m, t⟩).obj = { s.obj with
      locked := Function.update s.obj.locked m false
      ownerId := Function.update s.obj.ownerId m 0 } := by
  unfold Holds obj at h
  unfold obj at hw ⊢
  simp [step, mutexExec, h, hw]

/-! ## Owners and waiters after an operation -/

theorem lock_free_iff (h : s.obj.locked m = false) (r : TaskId) (x : MutexId) :
    ((s.step ⟨.lock, m, t⟩).Waits r x ↔ s.Waits r x) ∧
      ((s.step ⟨.lock, m, t⟩).Holds r x ↔ (x = m ∧ r = t) ∨ (x ≠ m ∧ s.Holds r x)) := by
  unfold Waits Holds
  rw [(lock_free h).1]
  refine ⟨Iff.rfl, ?_⟩
  by_cases hx : x = m
  · subst hx
    simpa using eq_comm
  · simp [hx]

theorem lock_held_iff (h : s.obj.locked m = true) (r : TaskId) (x : MutexId) :
    ((s.step ⟨.lock, m, t⟩).Waits r x ↔ s.Waits r x ∨ (x = m ∧ r = t)) ∧
      ((s.step ⟨.lock, m, t⟩).Holds r x ↔ s.Holds r x) ∧ (s.step ⟨.lock, m, t⟩).owner x = s.owner x := by
  unfold Waits Holds owner
  rw [(lock_held h).1]
  refine ⟨?_, Iff.rfl, rfl⟩
  by_cases hx : x = m
  · subst hx
    by_cases hr : r = t
    · simp [hr]
    · simp [hr]
  · simp [hx]

theorem unlock_hands_iff (h : s.Holds t m) {w : TaskId} (hw : bestWake (s.obj.waitMask m) s.prio = some w) (r : TaskId)
    (x : MutexId) : ((s.step ⟨.unlock, m, t⟩).Waits r x ↔ s.Waits r x ∧ ¬ (x = m ∧ r = w)) ∧
      ((s.step ⟨.unlock, m, t⟩).Holds r x ↔ (x = m ∧ r = w) ∨ (x ≠ m ∧ s.Holds r x)) ∧
      (s.step ⟨.unlock, m, t⟩).owner x = if x = m then w else s.owner x := by
  have hlocked := h.1
  unfold Waits Holds owner
  rw [unlock_hands h hw]
  by_cases hx : x = m
  · subst hx
    refine ⟨?_, by simpa [hlocked] using eq_comm, by simp⟩
    by_cases hr : r = w
    · simp [hr]
    · simp [hr]
  · simp [hx]

theorem unlock_frees_iff (h : s.Holds t m) (hw : bestWake (s.obj.waitMask m) s.prio = none) (r : TaskId) (x : MutexId) :
    ((s.step ⟨.unlock, m, t⟩).Waits r x ↔ s.Waits r x) ∧
      ((s.step ⟨.unlock, m, t⟩).Holds r x ↔ x ≠ m ∧ s.Holds r x) ∧
      (x ≠ m → (s.step ⟨.unlock, m, t⟩).owner x = s.owner x) := by
  unfold Waits Holds owner
  rw [unlock_frees h hw]
  by_cases hx : x = m
  · subst hx
    simp
  · simp [hx]

theorem step_freeUnwaited (h : s.FreeUnwaited) (c : MutexCall) : (s.step c).FreeUnwaited := by
  obtain ⟨op, m, t⟩ := c
  intro x r hx
  cases op with
  | nop => exact h x r hx
  | lock =>
    cases hl : s.obj.locked m with
    | false =>
      rw [(lock_free hl).1] at hx
      rw [(lock_free_iff hl r x).1]
      have hne : x ≠ m := by
        rintro rfl
        simp at hx
      exact h x r (by simpa [hne] using hx)
    | true =>
      rw [(lock_held hl).1] at hx
      rw [(lock_held_iff hl r x).1]
      rintro (hw | ⟨rfl, -⟩)
      · exact h x r hx hw
      · rw [hl] at hx
        exact absurd hx (by decide)
  | unlock =>
    by_cases ho : s.Holds t m
    · cases hw : bestWake (s.obj.waitMask m) s.prio with
      | some w =>
        rw [unlock_hands ho hw] at hx
        rw [(unlock_hands_iff ho hw r x).1]
        exact fun hc => h x r hx hc.1
      | none =>
        rw [unlock_frees ho hw] at hx
        rw [(unlock_frees_iff ho hw r x).1]
        by_cases hxm : x = m
        · rw [hxm]
          have := bestWake_eq_none.1 hw r
          simp [Waits, this]
        · exact h x r (by simpa [hxm] using hx)
    · rw [(unlock_foreign ho).1] at hx
      unfold Waits
      rw [(unlock_foreign ho).1]
      exact h x r hx

/-! ## One operation -/

section Step

variable {base : TaskId → Prio}

theorem inherits_lock_free (hI : s.Inherits base) (hf : s.FreeUnwaited) (h : s.obj.locked m = false) :
    (s.step ⟨.lock, m, t⟩).Inherits base := by
  have hp := (lock_free (t := t) h).2
  constructor
  · intro x r hw
    rw [(lock_free_iff h r x).1] at hw
    have hne : x ≠ m := by
      rintro rfl
      exact hf x r h hw
    have howner : (s.step ⟨.lock, m, t⟩).owner x = s.owner x := by
      unfold owner
      rw [(lock_free h).1]
      simp [hne]
    rw [hp, howner]
    exact hI.owner x r hw
  · intro r hr
    rw [hp]
    refine hI.restored r fun x hx => hr x ?_
    rw [(lock_free_iff h r x).2]
    have hne : x ≠ m := by
      rintro rfl
      have hx1 := hx.1
      rw [h] at hx1
      exact absurd hx1 (by decide)
    exact Or.inr ⟨hne, hx⟩

/-- an owner that inherits is still behind the owners of the mutexes that it waits for -/
theorem inherited_owner (hI : s.Inherits base) (hlt : s.prio (s.owner m) < s.prio t) {x : MutexId} {r : TaskId}
    (hw : s.Waits r x) (hk : r = s.owner m → s.owner x = s.owner m ∨ s.prio t ≤ s.prio (s.owner x)) :
    Function.update s.prio (s.owner m) (s.prio t) r ≤ Function.update s.prio (s.owner m) (s.prio t) (s.owner x) := by
  have hold := hI.owner x r hw
  by_cases hox : s.owner x = s.owner m
  · rw [hox, Function.update_self]
    by_cases hr : r = s.owner m
    · rw [hr, Function.update_self]
      exact BitVec.le_refl _
    · rw [Function.update_of_ne hr]
      rw [hox] at hold
      exact BitVec.le_trans hold (BitVec.le_of_lt hlt)
  · rw [Function.update_of_ne hox]
    by_cases hr : r = s.owner m
    · rw [hr, Function.update_self]
      exact (hk hr).resolve_left hox
    · rw [Function.update_of_ne hr]
      exact hold

/-- **A lock that waits** keeps the protocol unless the owner inherits and waits behind a lower priority. -/
theorem inherits_lock_held_iff (hI : s.Inherits base) (h : s.obj.locked m = true) :
    (s.step ⟨.lock, m, t⟩).Inherits base ↔ s.KeepsPrio base ⟨.lock, m, t⟩ := by
  obtain ⟨-, hp⟩ := lock_held (t := t) h
  have hholds : s.Holds (s.owner m) m := ⟨h, rfl⟩
  constructor
  · intro hI' _ hlt x hx
    by_contra hc
    push Not at hc
    rw [if_pos hlt] at hp
    have hown := hI'.owner x (s.owner m) ((lock_held_iff h (s.owner m) x).1.2 (Or.inl hx))
    rw [(lock_held_iff h (s.owner m) x).2.2, hp, Function.update_self, Function.update_of_ne hc.1] at hown
    exact hc.2 hown
  · intro hk
    have hk := hk h
    constructor
    · intro x r hw
      rw [(lock_held_iff h r x).1] at hw
      rw [(lock_held_iff h r x).2.2, hp]
      by_cases hlt : s.prio (s.owner m) < s.prio t
      · rw [if_pos hlt]
        rcases hw with hw | ⟨rfl, rfl⟩
        · exact inherited_owner hI hlt hw fun hr => hk hlt x (hr ▸ hw)
        · -- the new waiter, behind the owner that inherits from it
          have hne : r ≠ s.owner x := by
            intro heq
            rw [← heq] at hlt
            exact absurd hlt (BitVec.lt_irrefl _)
          rw [Function.update_of_ne hne, Function.update_self]
          exact BitVec.le_refl _
      · rw [if_neg hlt]
        rcases hw with hw | ⟨rfl, rfl⟩
        · exact hI.owner x r hw
        · exact BitVec.not_lt.1 hlt
    · intro r hr
      have hr' : ∀ x, ¬ s.Holds r x := fun x hx => hr x ((lock_held_iff h r x).2.1.2 hx)
      have hne : r ≠ s.owner m := by
        rintro rfl
        exact hr' m hholds
      rw [hp]
      split_ifs
      · rw [Function.update_of_ne hne]
        exact hI.restored r hr'
      · exact hI.restored r hr'

/-- who holds another mutex than `m` after an unlock of `m` -/
theorem unlock_holds_other (h : s.Holds t m) (r : TaskId) {x : MutexId} (hx : x ≠ m) :
    ((s.step ⟨.unlock, m, t⟩).Holds r x ↔ s.Holds r x) ∧ (s.step ⟨.unlock, m, t⟩).owner x = s.owner x := by
  cases hw : bestWake (s.obj.waitMask m) s.prio with
  | some w =>
    obtain ⟨-, h2, h3⟩ := unlock_hands_iff h hw r x
    rw [h2, h3, if_neg hx]
    simp [hx]
  | none =>
    obtain ⟨-, h2, h3⟩ := unlock_frees_iff h hw r x
    rw [h2, h3 hx]
    simp [hx]

/-- an unlock adds no waiter, and takes none of another mutex away -/
theorem unlock_waits (h : s.Holds t m) (r : TaskId) (x : MutexId) :
    ((s.step ⟨.unlock, m, t⟩).Waits r x → s.Waits r x) ∧
      (x ≠ m → s.Waits r x → (s.step ⟨.unlock, m, t⟩).Waits r x) := by
  cases hw : bestWake (s.obj.waitMask m) s.prio with
  | some w =>
    rw [(unlock_hands_iff h hw r x).1]
    exact ⟨fun hc => hc.1, fun hx hc => ⟨hc, fun hn => hx hn.1⟩⟩
  | none =>
    rw [(unlock_frees_iff h hw r x).1]
    exact ⟨id, fun _ => id⟩

/-- the new owner is a waiter, so it is not the task itself -/
theorem unlock_gives_up (hl : ∀ x, ¬ s.Waits t x) (h : s.Holds t m) : ¬ (s.step ⟨.unlock, m, t⟩).Holds t m := by
  cases hw : bestWake (s.obj.waitMask m) s.prio with
  | some w =>
    rw [(unlock_hands_iff h hw t m).2.1]
    have hne : t ≠ w := fun heq => hl m (heq ▸ bestWake_mem hw)
    simp [hne]
  | none =>
    rw [(unlock_frees_iff h hw t m).2.1]
    simp

theorem unlock_best (hl : ∀ x, ¬ s.Waits t x) (h : s.Holds t m) {r : TaskId} (hw : s.Waits r m) :
    s.prio r ≤ (s.step ⟨.unlock, m, t⟩).prio ((s.step ⟨.unlock, m, t⟩).owner m) := by
  cases hb : bestWake (s.obj.waitMask m) s.prio with
  | some w =>
    have hne : w ≠ t := fun heq => hl m (heq ▸ bestWake_mem hb)
    rw [(unlock_hands_iff h hb r m).2.2, if_pos rfl, unlock_prio h, Function.update_of_ne hne]
    exact bestWake_max hb r hw
  | none =>
    have hempty := bestWake_eq_none.1 hb r
    rw [Waits, hempty] at hw
    exact absurd hw (by decide)

/-- what an unlock of the owner needs -/
theorem keepsPrio_of_inherits (hl : ∀ x, ¬ s.Waits t x) (h : s.Holds t m)
    (hI : (s.step ⟨.unlock, m, t⟩).Inherits base) : s.KeepsPrio base ⟨.unlock, m, t⟩ := by
  have hp := unlock_prio h
  intro _
  constructor
  · intro x hx hold r hr
    have hrt : r ≠ t := fun heq => hl x (heq ▸ hr)
    have hown := hI.owner x r ((unlock_waits h r x).2 hx hr)
    have ho : s.owner x = t := hold.2
    rw [(unlock_holds_other h t hx).2, ho, hp, Function.update_self, Function.update_of_ne hrt] at hown
    exact hown
  · intro hnone
    have hr := hI.restored t fun x hx => by
      by_cases hxm : x = m
      · rw [hxm] at hx
        exact unlock_gives_up hl h hx
      · exact hnone x hxm ((unlock_holds_other h t hxm).1.1 hx)
    rw [hp, Function.update_self] at hr
    exact hr

/-- **An unlock of the owner** keeps the protocol exactly when the saved priority is the right one. -/
theorem inherits_unlock_iff (hI : s.Inherits base) (hf : s.FreeUnwaited) (hl : ∀ x, ¬ s.Waits t x) (h : s.Holds t m) :
    (s.step ⟨.unlock, m, t⟩).Inherits base ↔ s.KeepsPrio base ⟨.unlock, m, t⟩ := by
  have hp := unlock_prio h
  refine ⟨keepsPrio_of_inherits hl h, fun hk => ?_⟩
  obtain ⟨hkeep, hbase⟩ := hk h
  constructor
  · intro x r hw
    have hw0 := (unlock_waits h r x).1 hw
    have hrt : r ≠ t := fun heq => hl x (heq ▸ hw0)
    rw [hp, Function.update_of_ne hrt, ← hp]
    by_cases hx : x = m
    · subst hx
      exact unlock_best hl h hw0
    · rw [hp, (unlock_holds_other h t hx).2]
      by_cases ho : s.owner x = t
      · have hlocked : s.obj.locked x = true := by
          by_contra hc
          exact hf x r (Bool.eq_false_iff.2 hc) hw0
        rw [ho, Function.update_self]
        exact hkeep x hx ⟨hlocked, ho⟩ r hw0
      · rw [Function.update_of_ne ho]
        exact hI.owner x r hw0
  · intro r hr
    rw [hp]
    by_cases hrt : r = t
    · subst hrt
      rw [Function.update_self]
      exact hbase fun x hx hold => hr x ((unlock_holds_other h r hx).1.2 hold)
    · rw [Function.update_of_ne hrt]
      refine hI.restored r fun x hx => ?_
      by_cases hxm : x = m
      · rw [hxm] at hx
        exact hrt (hx.2.symm.trans h.2)
      · exact hr x ((unlock_holds_other h r hxm).1.2 hx)

/-- what neither touches the unit nor the priorities keeps the protocol -/
theorem inherits_of_eq {s' : PrioMutex} (hI : s.Inherits base) (ho : s'.obj = s.obj) (hp : s'.prio = s.prio) :
    s'.Inherits base := by
  constructor
  · intro x r hw
    unfold Waits at hw
    rw [ho] at hw
    unfold owner
    rw [ho, hp]
    exact hI.owner x r hw
  · intro r hr
    rw [hp]
    refine hI.restored r fun x hx => hr x ?_
    unfold Holds
    rw [ho]
    exact hx

/-- **One operation** of a task that does not wait keeps the protocol exactly when it finds what it must. -/
theorem inherits_step_iff (hI : s.Inherits base) (hf : s.FreeUnwaited) (c : MutexCall)
    (hl : ∀ x, ¬ s.Waits c.taskId x) : (s.step c).Inherits base ↔ s.KeepsPrio base c := by
  obtain ⟨op, m, t⟩ := c
  cases op with
  | nop => exact ⟨fun _ => trivial, fun _ => inherits_of_eq hI rfl rfl⟩
  | lock =>
    cases h : s.obj.locked m with
    | false =>
      refine ⟨fun _ hc => ?_, fun _ => inherits_lock_free hI hf h⟩
      rw [h] at hc
      exact absurd hc (by decide)
    | true => exact inherits_lock_held_iff hI h
  | unlock =>
    by_cases h : s.Holds t m
    · exact inherits_unlock_iff hI hf hl h
    · obtain ⟨ho, hp⟩ := unlock_foreign h
      exact ⟨fun _ hc => absurd hc h, fun _ => inherits_of_eq hI ho hp⟩

end Step

/-! ## Runs -/

theorem start_inherits (base : TaskId → Prio) : (start base).Inherits base := by
  constructor
  · intro m t hw
    exact absurd hw (by simp [Waits, obj, start, HwMutex.reset, noWaiters])
  · exact fun _ _ => rfl

theorem start_freeUnwaited (base : TaskId → Prio) : (start base).FreeUnwaited := by
  intro m t _
  simp [Waits, obj, start, HwMutex.reset, noWaiters]

theorem freeUnwaited_run (base : TaskId → Prio) (calls : ℕ → MutexCall) (n : ℕ) : (stateAt base calls n).FreeUnwaited :=
  Machine.trace_inv (P := FreeUnwaited) step (start base) calls (start_freeUnwaited base)
    (fun _ c h => step_freeUnwaited h c) n

/-- the first `n` operations are of tasks that do not wait -/
def Legal (base : TaskId → Prio) (calls : ℕ → MutexCall) (n : ℕ) : Prop :=
  ∀ k < n, ∀ m, ¬ (stateAt base calls k).Waits (calls k).taskId m

/-- **When priority inheritance holds**: a run keeps it in every state exactly when each operation finds what it must.
-/
theorem inherits_iff (base : TaskId → Prio) (calls : ℕ → MutexCall) (n : ℕ) (hl : Legal base calls n) :
    (∀ k ≤ n, (stateAt base calls k).Inherits base) ↔ ∀ k < n, (stateAt base calls k).KeepsPrio base (calls k) := by
  constructor
  · intro h k hk
    exact (inherits_step_iff (h k hk.le) (freeUnwaited_run base calls k) (calls k) (hl k hk)).1 (h (k + 1) hk)
  · intro h k
    induction k with
    | zero => exact fun _ => start_inherits base
    | succ k ih =>
      intro hk
      exact (inherits_step_iff (ih (by omega)) (freeUnwaited_run base calls k) (calls k) (hl k hk)).2 (h k hk)

/-! ## One mutex at a time -/

/-- each task has at most one mutex to do with, and each saved priority is the base priority of the owner -/
structure Single (base : TaskId → Prio) (s : PrioMutex) : Prop where
  one : ∀ t m x, s.Holds t m → s.Holds t x → m = x
  idle : ∀ t m, s.Waits t m → ∀ x, ¬ s.Holds t x
  queue : ∀ t m x, s.Waits t m → s.Waits t x → m = x
  saved : ∀ t m, s.Holds t m → s.obj.originalPrio m = base t

section Single

variable {base : TaskId → Prio}

/-- under the discipline every operation finds what it must -/
theorem keepsPrio_of_single (h : Single base s) (c : MutexCall) : s.KeepsPrio base c := by
  obtain ⟨op, m, t⟩ := c
  cases op with
  | nop => trivial
  | lock =>
    intro hlocked _ x hw
    exact absurd ⟨hlocked, rfl⟩ (h.idle (s.owner m) x hw m)
  | unlock =>
    intro hold
    exact ⟨fun x hx hx' => absurd (h.one t x m hx' hold) hx, fun _ => h.saved t m hold⟩

theorem single_lock_free (h : Single base s) (hI : s.Inherits base) (hl : s.obj.locked m = false)
    (hw : ∀ x, ¬ s.Waits t x) (hh : ∀ x, ¬ s.Holds t x) : Single base (s.step ⟨.lock, m, t⟩) := by
  have hwaits := fun r x => (lock_free_iff (t := t) hl r x).1
  have hholds := fun r x => (lock_free_iff (t := t) hl r x).2
  refine ⟨fun r x y hx hy => ?_, fun r x hx y hy => ?_, fun r x y hx hy => ?_, fun r x hx => ?_⟩
  · rw [hholds] at hx hy
    rcases hx with ⟨hx, hr⟩ | ⟨-, hx⟩ <;> rcases hy with ⟨hy, hr'⟩ | ⟨-, hy⟩
    · rw [hx, hy]
    · exact absurd (hr ▸ hy) (hh y)
    · exact absurd (hr' ▸ hx) (hh x)
    · exact h.one r x y hx hy
  · rw [hwaits] at hx
    rw [hholds] at hy
    rcases hy with ⟨-, hr⟩ | ⟨-, hy⟩
    · exact hw x (hr ▸ hx)
    · exact h.idle r x hx y hy
  · rw [hwaits] at hx hy
    exact h.queue r x y hx hy
  · rw [hholds] at hx
    rw [(lock_free hl).1]
    rcases hx with ⟨hx, hr⟩ | ⟨hne, hx⟩
    · rw [hx, hr]
      simp [hI.restored t hh]
    · simpa [hne] using h.saved r x hx

theorem single_lock_held (h : Single base s) (hl : s.obj.locked m = true) (hw : ∀ x, ¬ s.Waits t x)
    (hh : ∀ x, ¬ s.Holds t x) : Single base (s.step ⟨.lock, m, t⟩) := by
  have hwaits := fun r x => (lock_held_iff (t := t) hl r x).1
  have hholds := fun r x => (lock_held_iff (t := t) hl r x).2.1
  refine ⟨fun r x y hx hy => ?_, fun r x hx y hy => ?_, fun r x y hx hy => ?_, fun r x hx => ?_⟩
  · rw [hholds] at hx hy
    exact h.one r x y hx hy
  · rw [hwaits] at hx
    rw [hholds] at hy
    rcases hx with hx | ⟨-, hr⟩
    · exact h.idle r x hx y hy
    · exact hh y (hr ▸ hy)
  · rw [hwaits] at hx hy
    rcases hx with hx | ⟨hx, hr⟩ <;> rcases hy with hy | ⟨hy, hr'⟩
    · exact h.queue r x y hx hy
    · exact absurd (hr' ▸ hx) (hw x)
    · exact absurd (hr ▸ hy) (hw y)
    · rw [hx, hy]
  · rw [hholds] at hx
    rw [(lock_held hl).1]
    exact h.saved r x hx

theorem single_unlock (h : Single base s) (hI : s.Inherits base) (ho : s.Holds t m) :
    Single base (s.step ⟨.unlock, m, t⟩) := by
  cases hb : bestWake (s.obj.waitMask m) s.prio with
  | some w =>
    have hwm : s.Waits w m := bestWake_mem hb
    have hidle := h.idle w m hwm
    have hwaits := fun r x => (unlock_hands_iff ho hb r x).1
    have hholds := fun r x => (unlock_hands_iff ho hb r x).2.1
    refine ⟨fun r x y hx hy => ?_, fun r x hx y hy => ?_, fun r x y hx hy => ?_, fun r x hx => ?_⟩
    · rw [hholds] at hx hy
      rcases hx with ⟨hx, hr⟩ | ⟨-, hx⟩ <;> rcases hy with ⟨hy, hr'⟩ | ⟨-, hy⟩
      · rw [hx, hy]
      · exact absurd (hr ▸ hy) (hidle y)
      · exact absurd (hr' ▸ hx) (hidle x)
      · exact h.one r x y hx hy
    · rw [hwaits] at hx
      rw [hholds] at hy
      rcases hy with ⟨-, hr⟩ | ⟨-, hy⟩
      · -- the new owner waited for this mutex only
        exact hx.2 ⟨h.queue r x m hx.1 (hr ▸ hwm), hr⟩
      · exact h.idle r x hx.1 y hy
    · rw [hwaits] at hx hy
      exact h.queue r x y hx.1 hy.1
    · rw [hholds] at hx
      rw [unlock_hands ho hb]
      rcases hx with ⟨hx, hr⟩ | ⟨hne, hx⟩
      · rw [hx, hr]
        simp [hI.restored w hidle]
      · simpa [hne] using h.saved r x hx
  | none =>
    have hwaits := fun r x => (unlock_frees_iff ho hb r x).1
    have hholds := fun r x => (unlock_frees_iff ho hb r x).2.1
    refine ⟨fun r x y hx hy => ?_, fun r x hx y hy => ?_, fun r x y hx hy => ?_, fun r x hx => ?_⟩
    · rw [hholds] at hx hy
      exact h.one r x y hx.2 hy.2
    · rw [hwaits] at hx
      rw [hholds] at hy
      exact h.idle r x hx y hy.2
    · rw [hwaits] at hx hy
      exact h.queue r x y hx hy
    · rw [hholds] at hx
      rw [unlock_frees ho hb]
      exact h.saved r x hx.2

theorem single_of_eq {s' : PrioMutex} (h : Single base s) (ho : s'.obj = s.obj) : Single base s' := by
  obtain ⟨h1, h2, h3, h4⟩ := h
  unfold Waits at h2 h3
  unfold Holds at h1 h2 h4
  rw [← ho] at h1 h2 h3 h4
  exact ⟨h1, h2, h3, h4⟩

theorem step_single (h : Single base s) (hI : s.Inherits base) (c : MutexCall) (hw : ∀ x, ¬ s.Waits c.taskId x)
    (hh : c.op = .lock → ∀ x, ¬ s.Holds c.taskId x) : Single base (s.step c) := by
  obtain ⟨op, m, t⟩ := c
  cases op with
  | nop => exact single_of_eq h rfl
  | lock =>
    cases hl : s.obj.locked m with
    | false => exact single_lock_free h hI hl hw (hh rfl)
    | true => exact single_lock_held h hl hw (hh rfl)
  | unlock =>
    by_cases ho : s.Holds t m
    · exact single_unlock h hI ho
    · exact single_of_eq h (unlock_foreign ho).1

end Single

/-- **One mutex at a time**: when tasks lock only with empty hands, priority inheritance holds in every state. -/
theorem single_inherits (base : TaskId → Prio) (calls : ℕ → MutexCall) (n : ℕ) (hl : Legal base calls n)
    (hh : ∀ k < n, (calls k).op = .lock → ∀ m, ¬ (stateAt base calls k).Holds (calls k).taskId m) :
    (stateAt base calls n).Inherits base := by
  have hrun : ∀ k ≤ n, (stateAt base calls k).Inherits base ∧ Single base (stateAt base calls k) := by
    intro k
    induction k with
    | zero =>
      refine fun _ => ⟨start_inherits base, ?_⟩
      constructor <;> simp [stateAt, Holds, Waits, obj, start, HwMutex.reset, noWaiters]
    | succ k ih =>
      intro hk
      obtain ⟨hI, hS⟩ := ih (by omega)
      have hw := hl k hk
      exact ⟨(inherits_step_iff hI (freeUnwaited_run base calls k) (calls k) hw).2 (keepsPrio_of_single hS (calls k)),
        step_single hS hI (calls k) hw (hh k hk)⟩
  exact (hrun n (le_refl n)).1

/-! ## Two runs -/

def twoPrios (t : TaskId) : Prio := if t = 2 then 5 else 1

/-- task 1 locks mutex 0, task 2 waits for it, and both unlock it in turn -/
def sharedCalls (k : ℕ) : MutexCall :=
  if k = 0 then ⟨.lock, 0, 1⟩ else if k = 1 then ⟨.lock, 0, 2⟩ else if k = 2 then ⟨.unlock, 0, 1⟩ else ⟨.unlock, 0, 2⟩

/-- with one mutex the boost comes and goes -/
theorem inherits_iff_sharedCalls :
    (stateAt twoPrios sharedCalls 2).Inherits twoPrios ∧ (stateAt twoPrios sharedCalls 4).Inherits twoPrios := by
  have h := (inherits_iff twoPrios sharedCalls 4 (by unfold Legal; decide +kernel)).2 (by decide +kernel)
  exact ⟨h 2 (by decide), h 4 (le_refl 4)⟩

/-- task 1 locks mutex 0, task 2 waits for it, task 1 locks mutex 1 and unlocks first 0, then 1 -/
def nestedCalls (k : ℕ) : MutexCall :=
  if k = 0 then ⟨.lock, 0, 1⟩
  else if k = 1 then ⟨.lock, 0, 2⟩
  else if k = 2 then ⟨.lock, 1, 1⟩
  else if k = 3 then ⟨.unlock, 0, 1⟩
  else ⟨.unlock, 1, 1⟩

/-- **The inherited priority is saved and restored**: after both unlocks task 1 holds nothing and runs at priority 5. -/
theorem nested_breaks : Legal twoPrios nestedCalls 5 ∧ (∀ m, ¬ (stateAt twoPrios nestedCalls 5).Holds 1 m) ∧
    (stateAt twoPrios nestedCalls 5).prio 1 = 5 ∧ ¬ (stateAt twoPrios nestedCalls 5).Inherits twoPrios := by
  have h : Legal twoPrios nestedCalls 5 ∧ (∀ m, ¬ (stateAt twoPrios nestedCalls 5).Holds 1 m) ∧
      (stateAt twoPrios nestedCalls 5).prio 1 = 5 := by
    unfold Legal
    decide +kernel
  obtain ⟨hl, hfree, hp⟩ := h
  refine ⟨hl, hfree, hp, fun hI => ?_⟩
  have := hI.restored 1 hfree
  rw [hp] at this
  exact absurd this (by decide)

end PrioMutex

end Vsync
