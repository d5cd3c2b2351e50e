/-
`hw_semaphore.sv`: counting semaphores with a wait mask each.

`SemObj` is what the unit keeps between operations (counts, maxima, wait masks); `HwSemaphore` adds the registered
answer. The operation code is a level: the unit executes it in every cycle in which it sees it.
`semQuiet` says in terms of the object when executing an operation changes nothing; `semExec_eq_self_iff` is the proof.
-/
import Vsync.Rtos.Waiters

namespace Vsync

/-- `SEM_NOP`, `SEM_INIT`, `SEM_WAIT`, `SEM_POST` -/
inductive SemOp where
  | nop
  | init
  | wait
  | post
  deriving DecidableEq, Repr

/-- the 2-bit encoding of the operation port -/
def SemOp.ofCode (c : BitVec 2) : SemOp :=
  if c = 0b01#2 then .init else if c = 0b10#2 then .wait else if c = 0b11#2 then .post else .nop

/-- `count_r`, `max_count_r`, `wait_mask_r` -/
structure SemObj where
  count : SemId → BitVec 8
  maxCount : SemId → BitVec 8
  waitMask : SemId → WaitMask

structure SemArgs where
  semId : SemId
  taskId : TaskId
  initCount : BitVec 8
  maxCount : BitVec 8
  prio : TaskId → Prio

/-- the answer registers: `sem_success`, `sem_block`, and `wake_task_id` while `wake_valid` -/
structure Answer where
  success : Bool
  block : Bool
  wake : Option TaskId
  deriving DecidableEq, Repr

def Answer.idle : Answer := ⟨false, false, none⟩

/-- one clock edge of the unit on its object -/
def semExec (o : SemObj) (op : SemOp) (a : SemArgs) : SemObj :=
  match op with
  | .nop => o
  | .init =>
    { count := Function.update o.count a.semId a.initCount
      maxCount := Function.update o.maxCount a.semId a.maxCount
      waitMask := Function.update o.waitMask a.semId noWaiters }
  | .wait =>
    if 0 < o.count a.semId then { o with count := Function.update o.count a.semId (o.count a.semId - 1) }
    else { o with waitMask := Function.update o.waitMask a.semId (Function.update (o.waitMask a.semId) a.taskId true) }
  | .post =>
    match bestWake (o.waitMask a.semId) a.prio with
    | some w => { o with waitMask := Function.update o.waitMask a.semId (Function.update (o.waitMask a.semId) w false) }
    | none =>
      if o.count a.semId < o.maxCount a.semId then
        { o with count := Function.update o.count a.semId (o.count a.semId + 1) }
      else o

/-- the answer registered at the same edge -/
def semAnswer (o : SemObj) (op : SemOp) (a : SemArgs) : Answer :=
  match op with
  | .nop => .idle
  | .init => ⟨true, false, none⟩
  | .wait => if 0 < o.count a.semId then ⟨true, false, none⟩ else ⟨false, true, none⟩
  | .post =>
    match bestWake (o.waitMask a.semId) a.prio with
    | some w => ⟨true, false, some w⟩
    | none => if o.count a.semId < o.maxCount a.semId then ⟨true, false, none⟩ else .idle

/-- the unit: its object and its answer registers -/
structure HwSemaphore where
  obj : SemObj
  ans : Answer

def HwSemaphore.reset : HwSemaphore := ⟨⟨fun _ => 0, fun _ => 0, fun _ => noWaiters⟩, .idle⟩

def HwSemaphore.step (u : HwSemaphore) (op : SemOp) (a : SemArgs) : HwSemaphore :=
  ⟨semExec u.obj op a, semAnswer u.obj op a⟩

@[simp] theorem HwSemaphore.step_obj (u : HwSemaphore) (op : SemOp) (a : SemArgs) :
    (u.step op a).obj = semExec u.obj op a := rfl

@[simp] theorem HwSemaphore.step_ans (u : HwSemaphore) (op : SemOp) (a : SemArgs) :
    (u.step op a).ans = semAnswer u.obj op a := rfl

@[simp] theorem semExec_nop (o : SemObj) (a : SemArgs) : semExec o .nop a = o := rfl

@[simp] theorem semAnswer_nop (o : SemObj) (a : SemArgs) : semAnswer o .nop a = .idle := rfl

theorem SemOp.ofCode_wait {c : BitVec 2} (h : SemOp.ofCode c = .wait) : c = 0b10 := by
  revert h; revert c; decide

theorem waitMask_of_semExec {o : SemObj} {op : SemOp} {a : SemArgs} {q : SemId} {t : TaskId}
    (h : (semExec o op a).waitMask q t = true) : o.waitMask q t = true ∨ (op = .wait ∧ a.taskId = t) := by
  have hupd (v : WaitMask) : Function.update o.waitMask a.semId v q t = if q = a.semId then v t
      else o.waitMask q t := by
    rw [Function.update_apply]
    split_ifs <;> rfl
  cases op with
  | nop => exact Or.inl h
  | init =>
    simp only [semExec, hupd, noWaiters] at h
    split_ifs at h
    exact Or.inl h
  | wait =>
    simp only [semExec] at h
    split_ifs at h with hc
    · exact Or.inl h
    · simp only [hupd, Function.update_apply] at h
      split_ifs at h with hq ht
      · exact Or.inr ⟨rfl, ht.symm⟩
      · rw [hq]
        exact Or.inl h
      · exact Or.inl h
  | post =>
    simp only [semExec] at h
    split at h
    · simp only [hupd, Function.update_apply] at h
      split_ifs at h with hq
      · rw [hq]
        exact Or.inl h
      · exact Or.inl h
    · split_ifs at h <;> exact Or.inl h

/-! ## Executions that change nothing -/

/-- the operation finds the object as it would leave it -/
def semQuiet (o : SemObj) (op : SemOp) (a : SemArgs) : Prop :=
  match op with
  | .nop => True
  | .init =>
    o.count a.semId = a.initCount ∧ o.maxCount a.semId = a.maxCount ∧ ∀ t, o.waitMask a.semId t = false
  | .wait => o.count a.semId = 0 ∧ o.waitMask a.semId a.taskId = true
  | .post => (∀ t, o.waitMask a.semId t = false) ∧ o.maxCount a.semId ≤ o.count a.semId

theorem SemObj.ext {o o' : SemObj} (h1 : o.count = o'.count) (h2 : o.maxCount = o'.maxCount)
    (h3 : o.waitMask = o'.waitMask) : o = o' := by
  cases o; cases o'; simp_all

theorem pos_iff_ne_zero8 (x : BitVec 8) : 0 < x ↔ x ≠ 0 := by
  constructor
  · intro h e; subst e; exact absurd h (by decide)
  · intro h
    rw [BitVec.lt_def]
    have : x.toNat ≠ 0 := fun e => h (BitVec.eq_of_toNat_eq (by simpa using e))
    simpa using Nat.pos_of_ne_zero this

theorem init_eq_self_iff (o : SemObj) (a : SemArgs) : semExec o .init a = o ↔ semQuiet o .init a := by
  simp only [semExec, semQuiet]
  constructor
  · intro h
    refine ⟨?_, ?_, fun t => ?_⟩
    · have hcount := congrArg (fun x => x.count a.semId) h
      simpa using hcount.symm
    · have hmax := congrArg (fun x => x.maxCount a.semId) h
      simpa using hmax.symm
    · have hmask := congrArg (fun x => x.waitMask a.semId t) h
      simpa [noWaiters] using hmask.symm
  · rintro ⟨h1, h2, h3⟩
    have hmask : o.waitMask a.semId = noWaiters := funext h3
    refine SemObj.ext ?_ ?_ ?_
    · simp [← h1]
    · simp [← h2]
    · simp [← hmask]

theorem wait_eq_self_iff (o : SemObj) (a : SemArgs) : semExec o .wait a = o ↔ semQuiet o .wait a := by
  simp only [semExec, semQuiet]
  split_ifs with hc
  · -- a token is taken
    constructor
    · intro h
      have hcount := congrArg (fun x => x.count a.semId) h
      simp only [Function.update_self] at hcount
      bv_omega
    · rintro ⟨h, -⟩
      rw [h] at hc
      exact absurd hc (by decide)
  · have hz : o.count a.semId = 0 := by
      by_contra hne
      exact hc ((pos_iff_ne_zero8 _).2 hne)
    constructor
    · intro h
      have hmask := congrArg (fun x => x.waitMask a.semId a.taskId) h
      exact ⟨hz, by simpa using hmask.symm⟩
    · rintro ⟨-, h⟩
      refine SemObj.ext rfl rfl ?_
      simp [← h]

theorem post_eq_self_iff (o : SemObj) (a : SemArgs) : semExec o .post a = o ↔ semQuiet o .post a := by
  simp only [semExec, semQuiet]
  cases hb : bestWake (o.waitMask a.semId) a.prio with
  | some w =>
    have hw := bestWake_mem hb
    constructor
    · intro h
      have hmask := congrArg (fun x => x.waitMask a.semId w) h
      simp [hw] at hmask
    · rintro ⟨h, -⟩
      rw [h w] at hw
      exact absurd hw (by decide)
  | none =>
    rw [bestWake_eq_none] at hb
    simp only
    split_ifs with hc
    · constructor
      · intro h
        have hcount := congrArg (fun x => x.count a.semId) h
        simp only [Function.update_self] at hcount
        bv_omega
      · rintro ⟨-, h⟩
        exact absurd hc (BitVec.not_lt.2 h)
    · simp only [true_iff]
      exact ⟨hb, BitVec.not_lt.1 hc⟩

/-- **An execution leaves the object as it was exactly when it is quiet.** -/
theorem semExec_eq_self_iff (o : SemObj) (op : SemOp) (a : SemArgs) : semExec o op a = o ↔ semQuiet o op a := by
  cases op with
  | nop => simp [semQuiet]
  | init => exact init_eq_self_iff o a
  | wait => exact wait_eq_self_iff o a
  | post => exact post_eq_self_iff o a

theorem semExec_other (o : SemObj) (op : SemOp) (a : SemArgs) {x : SemId} (hx : x ≠ a.semId) :
    (semExec o op a).count x = o.count x ∧ (semExec o op a).maxCount x = o.maxCount x ∧
      (semExec o op a).waitMask x = o.waitMask x := by
  cases op with
  | nop => simp
  | init => simp [semExec, Function.update_of_ne hx]
  | wait => simp only [semExec]; split_ifs <;> simp [Function.update_of_ne hx]
  | post =>
    simp only [semExec]
    split
    · simp [Function.update_of_ne hx]
    · split_ifs <;> simp [Function.update_of_ne hx]

end Vsync
