/-
`hw_mutex` over whole histories: what it keeps of each mutex, in terms of the operations and their answers.

- `MutexEvent`: an operation with its answer; `onMutex`: the operations on one mutex.
- `MutexLaw`: the owner register is the one task that was granted the mutex and has not unlocked it since, and the wait
  mask holds the tasks that a lock has blocked and that were not handed the mutex since; while the mutex is free, nobody
  waits.
- `MutexCycle`: a lock is granted or blocks, an unlock of the owner hands the mutex to the best waiter, an unlock of
  another task changes nothing, and an operation leaves the other mutexes alone.
- `unit_obeys`: so it is in every run.
-/
import Vsync.Rtos.Mutex
import Vsync.Rtos.SemLaw

namespace Vsync

open Machine

/-! ## Histories -/

structure MutexEvent where
  op : MutexOp
  args : MutexArgs
  ans : Answer

namespace MutexEvent

variable (e : MutexEvent) (t : TaskId)

/-- a `LOCK` of the task that succeeded, or an operation that woke it -/
def Granted : Prop := e.op = .lock ∧ e.args.taskId = t ∧ e.ans.success = true ∨ e.ans.wake = some t

def Released : Prop := e.op = .unlock ∧ e.args.taskId = t

def Blocked : Prop := e.op = .lock ∧ e.args.taskId = t ∧ e.ans.block = true

def Woke : Prop := e.ans.wake = some t

end MutexEvent

def onMutex (x : MutexId) (es : List MutexEvent) : List MutexEvent := es.filter fun e => e.args.mutexId == x

theorem onMutex_snoc (x : MutexId) (es : List MutexEvent) (e : MutexEvent) :
    onMutex x (es ++ [e]) = if e.args.mutexId = x then onMutex x es ++ [e] else onMutex x es := by
  rw [onMutex, List.filter_append]
  by_cases h : e.args.mutexId = x
  · simp [h, onMutex]
  · simp [h, onMutex]

/-- the task holds the mutex: it was granted it, and has not unlocked it since -/
def Holds (h : List MutexEvent) (t : TaskId) : Prop :=
  Outstanding (MutexEvent.Granted · t) (MutexEvent.Released · t) h

def Waits (h : List MutexEvent) (t : TaskId) : Prop := Outstanding (MutexEvent.Blocked · t) (MutexEvent.Woke · t) h

/-- the object agrees with the history of the mutex `x` -/
structure MutexLaw (x : MutexId) (h : List MutexEvent) (o : MutexObj) : Prop where
  owner : ∀ t, Holds h t ↔ o.locked x = true ∧ o.ownerId x = t
  waiters : ∀ t, o.waitMask x t = true ↔ Waits h t
  empty : o.locked x = false → ∀ t, o.waitMask x t = false

theorem MutexLaw.unique {x : MutexId} {h : List MutexEvent} {o : MutexObj} (hl : MutexLaw x h o) {t j : TaskId}
    (ht : Holds h t) (hj : Holds h j) : t = j := by
  rw [← ((hl.owner t).1 ht).2, ((hl.owner j).1 hj).2]

/-- what an operation on the object `o` does, and what it leaves alone -/
structure MutexCycle (o : MutexObj) (op : MutexOp) (a : MutexArgs) (u : HwMutex) : Prop where
  /-- a `LOCK` is granted while the mutex is free, and blocks while it is not -/
  locks : op = .lock → u.ans = ⟨!o.locked a.mutexId, o.locked a.mutexId, none⟩
  handsOff : op = .unlock → o.locked a.mutexId = true → o.ownerId a.mutexId = a.taskId →
    (∃ j, o.waitMask a.mutexId j = true) → ∃ t, BestWaiter (o.waitMask a.mutexId) a.prio t ∧
      u.ans = ⟨true, false, some t⟩ ∧ u.obj.waitMask a.mutexId = Function.update (o.waitMask a.mutexId) t false ∧
      u.obj.locked a.mutexId = true ∧ u.obj.ownerId a.mutexId = t
  foreign : op = .unlock → ¬ (o.locked a.mutexId = true ∧ o.ownerId a.mutexId = a.taskId) → u.obj = o
  others : ∀ x ≠ a.mutexId, u.obj.locked x = o.locked x ∧ u.obj.ownerId x = o.ownerId x ∧
    u.obj.originalPrio x = o.originalPrio x ∧ u.obj.waitMask x = o.waitMask x

/-! ## One operation -/

section Operation

variable {x : MutexId} {h : List MutexEvent} {o : MutexObj} {a : MutexArgs}

theorem mutexExec_other (o : MutexObj) (op : MutexOp) (a : MutexArgs) (hx : x ≠ a.mutexId) :
    (mutexExec o op a).locked x = o.locked x ∧ (mutexExec o op a).ownerId x = o.ownerId x ∧
      (mutexExec o op a).originalPrio x = o.originalPrio x ∧ (mutexExec o op a).waitMask x = o.waitMask x := by
  cases op with
  | nop => exact ⟨rfl, rfl, rfl, rfl⟩
  | lock =>
    rw [mutexExec]
    split <;> simp [hx]
  | unlock =>
    rw [mutexExec]
    split
    case isTrue => split <;> simp [hx]
    case isFalse => exact ⟨rfl, rfl, rfl, rfl⟩

/-- an event that grants nothing and is no unlock of the task keeps its ownership -/
theorem holds_snoc {e : MutexEvent} {t : TaskId} (hg : ¬ e.Granted t) (hr : ¬ e.Released t) :
    Holds (h ++ [e]) t ↔ Holds h t := by
  rw [Holds, outstanding_snoc, Holds]
  simp [hg, hr]

/-- an event that neither blocks nor wakes keeps the waiters -/
theorem waits_snoc {e : MutexEvent} {t : TaskId} (hb : e.ans.block = false) (hw : e.ans.wake = none) :
    Waits (h ++ [e]) t ↔ Waits h t := by
  rw [Waits, outstanding_snoc, Waits]
  simp [MutexEvent.Blocked, MutexEvent.Woke, hb, hw]

theorem obeys_nop (hl : MutexLaw x h o) : MutexLaw x (h ++ [⟨.nop, a, mutexAnswer o .nop a⟩]) (mutexExec o .nop a) := by
  rw [mutexAnswer_nop, mutexExec_nop]
  refine ⟨fun t => ?_, fun t => ?_, hl.empty⟩
  · rw [holds_snoc, hl.owner]
    · simp [MutexEvent.Granted, Answer.idle]
    · simp [MutexEvent.Released]
  · rw [waits_snoc rfl rfl, hl.waiters]

theorem obeys_lock (ha : a.mutexId = x) (hl : MutexLaw x h o) :
    MutexLaw x (h ++ [⟨.lock, a, mutexAnswer o .lock a⟩]) (mutexExec o .lock a) := by
  subst ha
  by_cases hlock : o.locked a.mutexId = true
  · -- the task joins the waiters
    rw [mutexAnswer, mutexExec, if_pos hlock, if_pos hlock]
    refine ⟨fun t => ?_, fun t => ?_, fun hfree => absurd (hlock.symm.trans hfree) (by simp)⟩
    · rw [holds_snoc, hl.owner]
      · simp [MutexEvent.Granted]
      · simp [MutexEvent.Released]
    · rw [Waits, outstanding_snoc, ← Waits, ← hl.waiters]
      by_cases ht : t = a.taskId
      · simp [MutexEvent.Blocked, ht]
      · simp [MutexEvent.Blocked, MutexEvent.Woke, ht, Ne.symm ht]
  · -- the task is the only one that holds the mutex
    have hfree : o.locked a.mutexId = false := by simpa using hlock
    have hnobody (t : TaskId) : ¬ Holds h t := by
      rw [hl.owner, hfree]
      simp
    rw [mutexAnswer, mutexExec, if_neg hlock, if_neg hlock]
    refine ⟨fun t => ?_, fun t => ?_, fun hnew => absurd hnew (by simp)⟩
    · rw [Holds, outstanding_snoc, ← Holds]
      simp [hnobody t, MutexEvent.Granted]
    · rw [waits_snoc rfl rfl, hl.waiters]

/-- the mutex changes hands; the unlocker may be its own successor -/
theorem obeys_handoff {w : TaskId} (ha : a.mutexId = x) (hl : MutexLaw x h o)
    (hown : o.locked a.mutexId = true ∧ o.ownerId a.mutexId = a.taskId)
    (hw : bestWake (o.waitMask a.mutexId) a.prio = some w) :
    MutexLaw x (h ++ [⟨.unlock, a, mutexAnswer o .unlock a⟩]) (mutexExec o .unlock a) := by
  subst ha
  rw [mutexAnswer, mutexExec, if_pos hown, if_pos hown, hw]
  refine ⟨fun t => ?_, fun t => ?_, fun hfree => absurd (hown.1.symm.trans hfree) (by simp)⟩
  · rw [Holds, outstanding_snoc, ← Holds, hl.owner, hown.2]
    simp [MutexEvent.Granted, MutexEvent.Released, hown.1]
  · rw [Waits, outstanding_snoc, ← Waits, ← hl.waiters]
    by_cases ht : t = w
    · simp [MutexEvent.Blocked, MutexEvent.Woke, ht]
    · simp [MutexEvent.Blocked, MutexEvent.Woke, ht, Ne.symm ht]

theorem obeys_release (ha : a.mutexId = x) (hl : MutexLaw x h o)
    (hown : o.locked a.mutexId = true ∧ o.ownerId a.mutexId = a.taskId)
    (hw : bestWake (o.waitMask a.mutexId) a.prio = none) :
    MutexLaw x (h ++ [⟨.unlock, a, mutexAnswer o .unlock a⟩]) (mutexExec o .unlock a) := by
  subst ha
  rw [mutexAnswer, mutexExec, if_pos hown, if_pos hown, hw]
  refine ⟨fun t => ?_, fun t => ?_, fun _ t => bestWake_eq_none.1 hw t⟩
  · rw [Holds, outstanding_snoc, ← Holds, hl.owner, hown.2]
    simp [MutexEvent.Granted, MutexEvent.Released, hown.1]
  · rw [waits_snoc rfl rfl, hl.waiters]

theorem obeys_foreign (ha : a.mutexId = x) (hl : MutexLaw x h o)
    (hown : ¬ (o.locked a.mutexId = true ∧ o.ownerId a.mutexId = a.taskId)) :
    MutexLaw x (h ++ [⟨.unlock, a, mutexAnswer o .unlock a⟩]) (mutexExec o .unlock a) := by
  subst ha
  rw [mutexAnswer, mutexExec, if_neg hown, if_neg hown]
  refine ⟨fun t => ?_, fun t => ?_, hl.empty⟩
  · rw [Holds, outstanding_snoc, ← Holds, hl.owner]
    simp only [MutexEvent.Granted, MutexEvent.Released]
    by_cases ht : a.taskId = t
    · rw [← ht]
      simp [hown]
    · simp [ht]
  · rw [waits_snoc rfl rfl, hl.waiters]

theorem obeys_other {op : MutexOp} (ha : a.mutexId ≠ x) (hl : MutexLaw x h o) : MutexLaw x h (mutexExec o op a) := by
  obtain ⟨hlocked, howner, -, hmask⟩ := mutexExec_other o op a (Ne.symm ha)
  refine ⟨fun t => ?_, fun t => ?_, ?_⟩
  · rw [hl.owner, hlocked, howner]
  · rw [hmask, hl.waiters]
  · rw [hlocked, hmask]
    exact hl.empty

/-- **One operation keeps the law.** -/
theorem obeys_step (op : MutexOp) {es : List MutexEvent} (hl : MutexLaw x (onMutex x es) o) :
    MutexLaw x (onMutex x (es ++ [⟨op, a, mutexAnswer o op a⟩])) (mutexExec o op a) := by
  rw [onMutex_snoc]
  split
  case isTrue ha =>
    cases op with
    | nop => exact obeys_nop hl
    | lock => exact obeys_lock ha hl
    | unlock =>
      by_cases hown : o.locked a.mutexId = true ∧ o.ownerId a.mutexId = a.taskId
      · cases hw : bestWake (o.waitMask a.mutexId) a.prio with
        | some w => exact obeys_handoff ha hl hown hw
        | none => exact obeys_release ha hl hown hw
      · exact obeys_foreign ha hl hown
  case isFalse ha => exact obeys_other ha hl

theorem mutexCycle (u : HwMutex) (op : MutexOp) (a : MutexArgs) : MutexCycle u.obj op a (u.step op a) := by
  refine ⟨?_, ?_, ?_, fun x hx => mutexExec_other u.obj op a hx⟩
  · rintro rfl
    cases hlock : u.obj.locked a.mutexId <;> simp [mutexAnswer, hlock]
  · rintro rfl hlock hown ⟨j, hj⟩
    cases hw : bestWake (u.obj.waitMask a.mutexId) a.prio with
    | none => exact absurd (bestWake_eq_none.1 hw j) (by simp [hj])
    | some t =>
      refine ⟨t, bestWake_best hw, ?_, ?_, ?_, ?_⟩
      · simp [mutexAnswer, hlock, hown, hw]
      all_goals simp [mutexExec, hlock, hown, hw]
  · rintro rfl hown
    exact if_neg hown

end Operation

/-! ## Runs -/

namespace HwMutex

/-- one clock edge with the operation on the ports -/
def next (u : HwMutex) (i : MutexOp × MutexArgs) : HwMutex := u.step i.1 i.2

/-- the operation of a cycle, with its answer -/
def events (u : HwMutex) (i : MutexOp × MutexArgs) : List MutexEvent := [⟨i.1, i.2, (u.next i).ans⟩]

theorem obeys_run (ins : ℕ → MutexOp × MutexArgs) (n : ℕ) (x : MutexId) :
    MutexLaw x (onMutex x (log events next reset ins n)) (trace next reset ins n).obj := by
  induction n with
  | zero =>
    refine ⟨fun t => ?_, fun t => ?_, fun _ _ => rfl⟩
    · simp [Holds, onMutex, not_outstanding_nil, reset]
    · simp [Waits, onMutex, not_outstanding_nil, reset, noWaiters]
  | succ n ih =>
    rw [log_succ, events]
    exact obeys_step (ins n).1 ih

/-- **The law of the unit**: for every sequence of operations, of any tasks with any priorities, each mutex agrees with
its history after every cycle, and the next cycle is a `MutexCycle`. -/
theorem unit_obeys (ins : ℕ → MutexOp × MutexArgs) (n : ℕ) :
    (∀ x, MutexLaw x (onMutex x (log events next reset ins n)) (trace next reset ins n).obj) ∧
      MutexCycle (trace next reset ins n).obj (ins n).1 (ins n).2 (trace next reset ins (n + 1)) :=
  ⟨obeys_run ins n, mutexCycle _ (ins n).1 (ins n).2⟩

end HwMutex

end Vsync
