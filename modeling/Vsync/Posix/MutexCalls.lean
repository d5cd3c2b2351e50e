/-
The mutex syscalls as mutual exclusion.

`MutexWatch` runs the system beside who holds what: a task holds a mutex from the return of its `pthread_mutex_lock` or
`trylock` with 0 until the dispatch of its own `unlock`. The operation codes of the layer are one off those of
`hw_mutex`: `init` and `destroy` reach it as `LOCK`, `lock` and `trylock` as `UNLOCK`, and `unlock` as a no-operation.

- `mutex_law`: the law holds in every run in which the mutex unit only ever holds the code of `unlock` or none.
- `lock_unowned`: it fails as soon as a lock or trylock returns 0 in a run without `init` and `destroy`.
- `init_owns`: it fails as soon as the first `init` reaches the unit.
- `lock_takes_nothing`: a run of a task whose lock returns 0 and leaves the mutex free.
-/
import Vsync.Posix.ThreadCreate

namespace Vsync

/-- `t` is the recorded owner of `m` -/
def MutexObj.Owns (o : MutexObj) (m : MutexId) (t : TaskId) : Prop := o.locked m = true ∧ o.ownerId m = t

/-- nobody is an owner or a waiter in `o'` that was not one in `o` -/
def MutexObj.NobodyNew (o o' : MutexObj) : Prop :=
  (∀ m t, o'.Owns m t → o.Owns m t) ∧ ∀ m t, o'.waitMask m t = true → o.waitMask m t = true

/-- the unit has been left alone: nothing is locked and nobody waits -/
def MutexObj.Free (o : MutexObj) : Prop := (∀ m, o.locked m = false) ∧ ∀ m t, o.waitMask m t = false

theorem MutexObj.Free.nobodyNew {o o' : MutexObj} (h : o'.Free) : o.NobodyNew o' :=
  ⟨fun m _ ho => absurd ho.1 (by simp [h.1 m]), fun m t ht => absurd ht (by simp [h.2 m t])⟩

namespace System

def mutexArg (s : System) : MutexId := lowId 8 s.posix.arg0

def MutexCall (s : System) (sub : ℕ) : Prop := s.posix.category = 1 ∧ s.posix.subop = sub

instance (s : System) (sub : ℕ) : Decidable (s.MutexCall sub) := by unfold MutexCall; infer_instance

/-- a `lock` or `trylock` returns 0 in this cycle -/
def LockReturns (s : System) : Prop :=
  s.Waits 1 ∧ (s.posix.subop = 1 ∨ s.posix.subop = 2) ∧ s.rtos.mutexDone = some true

instance (s : System) : Decidable s.LockReturns := by unfold LockReturns; infer_instance

/-- an `unlock` is dispatched in this cycle -/
def UnlockStarts (s : System) : Prop := s.posix.state = .mutexOp ∧ s.posix.subop = 3

instance (s : System) : Decidable s.UnlockStarts := by unfold UnlockStarts; infer_instance

end System

/-- the system, the task that made the call in progress, who holds which mutex, and the mutex unit as it was when the
call was dispatched -/
structure MutexWatch where
  sys : System
  caller : TaskId
  holds : MutexId → TaskId → Bool
  before : MutexObj

namespace MutexWatch

def reset : MutexWatch := ⟨System.reset, 0, fun _ _ => false, HwMutex.reset.obj⟩

def step (w : MutexWatch) (i : SysIn) : MutexWatch where
  sys := w.sys.step i
  caller := if w.sys.posix.latches (w.sys.posixIn i) then w.sys.rtos.currentTaskIdR else w.caller
  holds := fun m t =>
    if m = w.sys.mutexArg ∧ t = w.caller ∧ w.sys.LockReturns then true
    else if m = w.sys.mutexArg ∧ t = w.caller ∧ w.sys.UnlockStarts then false
    else w.holds m t
  before := if w.sys.posix.state = .mutexOp then w.sys.rtos.mutex.obj else w.before

def stateAt (ins : ℕ → SysIn) (n : ℕ) : MutexWatch := Machine.trace step reset ins n

theorem stateAt_sys (ins : ℕ → SysIn) (n : ℕ) : (stateAt ins n).sys = System.stateAt ins n := by
  induction n with
  | zero => rfl
  | succ n ih => rw [System.stateAt_succ, ← ih]; rfl

def obj (w : MutexWatch) : MutexObj := w.sys.rtos.mutex.obj

/-- the mutual-exclusion law of one cycle -/
structure Law (w w' : MutexWatch) : Prop where
  owns : ∀ m t, w'.holds m t = true → w'.obj.Owns m t
  exclusive : ∀ m t u, w'.holds m t = true → w'.holds m u = true → t = u
  init : w.sys.MutexCall 0 → w.obj.NobodyNew w'.obj
  trylock : w.sys.Waits 1 → w.sys.MutexCall 2 → w.sys.rtos.mutexDone = some false → w.before.NobodyNew w.obj
  unlock : w.sys.Waits 1 → w.sys.MutexCall 3 → w.sys.rtos.mutexDone ≠ none → w.before.Owns w.sys.mutexArg w.caller →
    w.obj.locked w.sys.mutexArg = false ∨
      ∃ t, w.obj.Owns w.sys.mutexArg t ∧ w.before.waitMask w.sys.mutexArg t = true

structure Untouched (w : MutexWatch) : Prop where
  free : w.obj.Free
  holds : ∀ m t, w.holds m t = false

def Silent (w : MutexWatch) : Prop := w.sys.rtos.mutex.ans = .idle ∧ w.sys.rtos.mutexDone = none

theorem reset_untouched : Untouched reset :=
  ⟨⟨fun _ => rfl, fun _ _ => rfl⟩, fun _ _ => rfl⟩

section Cycle

variable {w : MutexWatch} {i : SysIn}

theorem step_obj : (w.step i).obj = mutexExec w.obj (MutexOp.ofCode w.sys.rtos.mutexOpInt) w.sys.rtos.mutexArgs := rfl

/-- only a `LOCK` changes a free unit -/
theorem exec_free {o : MutexObj} {op : MutexOp} (a : MutexArgs) (h : o.Free) (hop : op ≠ .lock) :
    mutexExec o op a = o := by
  cases op with
  | nop => rfl
  | lock => exact absurd rfl hop
  | unlock => simp [mutexExec, h.1]

theorem ofCode_ne_lock {c : BitVec 2} (h : c ≠ 0b01#2) : MutexOp.ofCode c ≠ .lock := by
  rw [MutexOp.ofCode, if_neg h]
  split_ifs <;> decide

theorem ofCode_nop {c : BitVec 2} (h : c = 0b00#2 ∨ c = 0b11#2) : MutexOp.ofCode c = .nop := by
  rcases h with rfl | rfl <;> decide

theorem step_silent (h : Silent w) (hc : w.sys.rtos.mutexOpInt = 0b00#2 ∨ w.sys.rtos.mutexOpInt = 0b11#2) :
    Silent (w.step i) := by
  refine ⟨?_, ?_⟩
  · simp [step, System.step, HwRtos.step, ofCode_nop hc]
  · have hok : w.sys.rtos.servedOk (w.sys.rtosIn i) .mutex = false := by
      simp [HwRtos.servedOk, HwRtos.answerOf, h.1, Answer.idle]
    have hbl : w.sys.rtos.servedBlock (w.sys.rtosIn i) .mutex = false := by
      simp [HwRtos.servedBlock, HwRtos.answerOf, h.1, Answer.idle]
    simp [step, System.step, HwRtos.step, HwRtos.mutexDoneNext, hok, hbl]

theorem step_holds (h : Untouched w) (hr : ¬ w.sys.LockReturns) (m : MutexId) (t : TaskId) :
    (w.step i).holds m t = false := by
  simp only [step, hr, and_false, if_false, h.holds, ite_self]

theorem step_free (h : Untouched w) (hc : w.sys.rtos.mutexOpInt ≠ 0b01#2) : (w.step i).obj.Free := by
  rw [step_obj, exec_free _ h.free (ofCode_ne_lock hc)]
  exact h.free

/-- on a free unit, a cycle without the code 01 in which no lock returns 0 keeps the law -/
theorem law_of_untouched (h : Untouched w) (hc : w.sys.rtos.mutexOpInt ≠ 0b01#2) (hr : ¬ w.sys.LockReturns) :
    Law w (w.step i) where
  owns m t ht := by rw [step_holds h hr] at ht; exact absurd ht (by decide)
  exclusive m t u ht _ := by rw [step_holds h hr] at ht; exact absurd ht (by decide)
  init _ := (step_free h hc).nobodyNew
  trylock _ _ _ := h.free.nobodyNew
  unlock _ _ _ _ := Or.inl (h.free.1 _)

/-- **A lock that returns 0 has locked nothing.** -/
theorem lock_unowned (h : Untouched w) (hc : w.sys.rtos.mutexOpInt ≠ 0b01#2) (hr : w.sys.LockReturns) :
    ¬ Law w (w.step i) := by
  intro hl
  have hown := hl.owns w.sys.mutexArg w.caller (by simp [step, hr])
  have hfree := (step_free (i := i) h hc).1 w.sys.mutexArg
  rw [hown.1] at hfree
  exact absurd hfree (by decide)

/-- **An `init` takes the mutex.** -/
theorem init_owns (h : Untouched w) (hc : w.sys.rtos.mutexOpInt = 0b01#2) (hcall : w.sys.MutexCall 0) :
    ¬ Law w (w.step i) := by
  intro hl
  have hlock : (w.step i).obj.locked w.sys.rtos.mutexIdInt = true := by
    rw [step_obj, hc]
    simp [MutexOp.ofCode, mutexExec, HwRtos.mutexArgs, h.free.1]
  have hown := ((hl.init hcall).1 w.sys.rtos.mutexIdInt _ ⟨hlock, rfl⟩).1
  rw [h.free.1] at hown
  exact absurd hown (by decide)

end Cycle

/-! ## Runs -/

/-- the mutex unit holds no code, or that of `unlock` -/
def OnlyUnlocks (w : MutexWatch) : Prop := w.sys.rtos.mutexOpInt = 0b00#2 ∨ w.sys.rtos.mutexOpInt = 0b11#2

instance (w : MutexWatch) : Decidable w.OnlyUnlocks := by unfold OnlyUnlocks; infer_instance

theorem OnlyUnlocks.ne_one {w : MutexWatch} (h : w.OnlyUnlocks) : w.sys.rtos.mutexOpInt ≠ 0b01#2 := by
  rcases h with h | h <;> rw [h] <;> decide

theorem run_silent (ins : ℕ → SysIn) (n : ℕ) (hc : ∀ k < n, (stateAt ins k).OnlyUnlocks) :
    Untouched (stateAt ins n) ∧ Silent (stateAt ins n) := by
  refine Machine.trace_inv_of step reset ins (P := fun w => Untouched w ∧ Silent w) (C := fun w _ => w.OnlyUnlocks)
    ⟨reset_untouched, rfl, rfl⟩ (fun w i ⟨hu, hs⟩ hc => ⟨⟨step_free hu hc.ne_one, ?_⟩, step_silent hs hc⟩) n hc
  exact step_holds hu fun hr => absurd hr.2.2 (by simp [hs.2])

/-- **Mutual exclusion holds as long as only `unlock` reaches the mutex unit.** -/
theorem mutex_law (ins : ℕ → SysIn) (n : ℕ) (hc : ∀ k < n, (stateAt ins k).OnlyUnlocks) :
    ∀ k < n, Law (stateAt ins k) (stateAt ins (k + 1)) := by
  intro k hk
  obtain ⟨hu, hs⟩ := run_silent ins k fun j hj => hc j (by omega)
  exact law_of_untouched hu (hc k hk).ne_one fun hr => absurd hr.2.2 (by simp [hs.2])

/-- a task is created in cycle 0, and calls `num` on mutex 0 in cycle 60 -/
def mutexRun (num : BitVec 8) (k : ℕ) : SysIn :=
  if k = 0 then SysIn.call 0x00 0x100 0x800 3 else if k = 60 then SysIn.call num 0 0 0 else SysIn.quiet

/-- a cycle of an unlock call, which is never answered -/
theorem mutex_law_unlock : Law (stateAt (mutexRun 0x13) 64) (stateAt (mutexRun 0x13) 65) :=
  mutex_law (mutexRun 0x13) 65 (by decide +kernel) 64 (by decide)

/-- **A lock returns 0 and leaves the mutex free.** Task 1 locks mutex 0 in cycle 60; in cycle 65 the layer takes the
answer 0, and mutex 0 is not locked. -/
theorem lock_takes_nothing :
    (stateAt (mutexRun 0x11) 65).sys.LockReturns ∧ (stateAt (mutexRun 0x11) 65).caller = 1 ∧
      (stateAt (mutexRun 0x11) (65 + 1)).holds 0 1 = true ∧ (stateAt (mutexRun 0x11) (65 + 1)).obj.locked 0 = false ∧
      ¬ Law (stateAt (mutexRun 0x11) 65) (stateAt (mutexRun 0x11) (65 + 1)) := by
  have h : (stateAt (mutexRun 0x11) 65).sys.LockReturns ∧ (stateAt (mutexRun 0x11) 65).caller = 1 ∧
      (stateAt (mutexRun 0x11) (65 + 1)).holds 0 1 = true ∧
        (stateAt (mutexRun 0x11) (65 + 1)).obj.locked 0 = false := by
    decide +kernel
  obtain ⟨h1, h2, h3, h4⟩ := h
  refine ⟨h1, h2, h3, h4, fun hl => ?_⟩
  have := (hl.owns 0 1 h3).1
  rw [h4] at this
  exact absurd this (by decide)

end MutexWatch

end Vsync
