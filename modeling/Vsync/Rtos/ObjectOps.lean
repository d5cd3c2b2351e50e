/-
How often the kernel objects execute an accepted request.

`Watch` runs `HwRtos` beside the objects as they would be if each request that the FSM accepts in `S_IDLE` were executed
once, in the cycle after its acceptance, and nothing else were. The operation code registers are levels and are cleared
only after the registered answer, so the units execute in further cycles.

- `settled_iff`: one cycle keeps the two sides together exactly when it is `Settled`: a unit that was not handed an
  operation in the cycle before finds the operation code it holds quiet, and an accepted `INIT` still has its value on
  the port.
- `once_iff`: the objects are the once-executed ones in every cycle up to `n` exactly when every cycle before `n` is
  settled.
- `wait_twice`: one accepted `WAIT` takes two tokens.
-/
import Vsync.Machine
import Vsync.Rtos.HwRtos

namespace Vsync

/-- a request to a kernel object, with the task that makes it -/
inductive ObjReq where
  | sem (op : SemOp) (id : SemId) (task : TaskId) (value : BitVec 8)
  | mutex (op : MutexOp) (id : MutexId) (task : TaskId)
  | msgq (op : MsgqOp) (id : QueueId) (task : TaskId) (data : Word)
  deriving DecidableEq, Repr

/-- the kernel objects of the three units -/
structure Objs where
  sem : SemObj
  mutex : MutexObj
  msgq : MsgqObj

/-- one execution of a request -/
def Objs.exec (o : Objs) (prio : TaskId → Prio) : ObjReq → Objs
  | .sem op id task value => { o with sem := semExec o.sem op ⟨id, task, value, 0xFF, prio⟩ }
  | .mutex op id task => { o with mutex := mutexExec o.mutex op ⟨id, task, prio⟩ }
  | .msgq op id task data => { o with msgq := msgqExec o.msgq op ⟨id, data, task⟩ }

theorem Objs.ext_iff' {o o' : Objs} : o = o' ↔ o.sem = o'.sem ∧ o.mutex = o'.mutex ∧ o.msgq = o'.msgq := by
  cases o; cases o'; simp

namespace HwRtos

/-- the state of the three units -/
def objs (s : HwRtos) : Objs := ⟨s.sem.obj, s.mutex.obj, s.msgq.obj⟩

/-- the object request on the input ports -/
def requestOf (s : HwRtos) (i : RtosIn) : Unit3 → ObjReq
  | .sem => .sem (SemOp.ofCode i.semOp) i.semId s.currentTaskIdR i.semValue
  | .mutex => .mutex (MutexOp.ofCode i.mutexOp) i.mutexId s.currentTaskIdR
  | .msgq => .msgq (MsgqOp.ofCode i.msgqOp) i.msgqId s.currentTaskIdR i.msgqData

def accepted (s : HwRtos) (i : RtosIn) : Option ObjReq :=
  if s.fsmState = .idle ∧ s.fsmNext i = .blockTask then (objRequest i).map (s.requestOf i) else none

/-- what the FSM accepts, the clocked process issues -/
theorem issues_of_accepted {s : HwRtos} {i : RtosIn} {r : ObjReq} (h : s.accepted i = some r) :
    ∃ u, s.issues i = some u ∧ r = s.requestOf i u := by
  unfold accepted at h
  split_ifs at h with hc
  obtain ⟨hidle, hnext⟩ := hc
  cases hu : objRequest i with
  | none => simp [hu] at h
  | some u =>
    refine ⟨u, ?_, by simpa [hu] using h.symm⟩
    simp only [fsmNext, hidle] at hnext
    split_ifs at hnext with h1 h2 h3 h4 h5 h6
    simp_all [issues]

end HwRtos

/-! ## The once-executed objects beside the design -/

/-- the design, the request accepted in the cycle before, and the objects that execute each accepted request once -/
structure Watch where
  rtos : HwRtos
  last : Option ObjReq
  once : Objs

namespace Watch

def reset : Watch := ⟨HwRtos.reset, none, HwRtos.reset.objs⟩

/-- execute the request that was accepted in the cycle before, if there is one -/
def execLast (o : Objs) (prio : TaskId → Prio) : Option ObjReq → Objs
  | some r => o.exec prio r
  | none => o

def step (w : Watch) (i : RtosIn) : Watch :=
  ⟨w.rtos.step i, w.rtos.accepted i, execLast w.once w.rtos.prio w.last⟩

/-- the watched run is a run of the design -/
theorem trace_rtos (ins : ℕ → RtosIn) (n : ℕ) :
    (Machine.trace step reset ins n).rtos = Machine.trace HwRtos.step HwRtos.reset ins n := by
  induction n with
  | zero => rfl
  | succ n ih => rw [Machine.trace_succ, Machine.trace_succ, ← ih]; rfl

/-- the semaphore unit was handed an operation in the cycle before, and so on -/
def handed (w : Watch) : HwRtos.Unit3 → Bool
  | .sem => match w.last with | some (.sem ..) => true | _ => false
  | .mutex => match w.last with | some (.mutex ..) => true | _ => false
  | .msgq => match w.last with | some (.msgq ..) => true | _ => false

/-- every operation code that is not a fresh one is quiet, and a fresh `INIT` has its value still on the port -/
structure Settled (w : Watch) (i : RtosIn) : Prop where
  sem : w.handed .sem = false → semQuiet w.rtos.sem.obj (SemOp.ofCode w.rtos.semOpInt) (w.rtos.semArgs i)
  mutex : w.handed .mutex = false → mutexQuiet w.rtos.mutex.obj (MutexOp.ofCode w.rtos.mutexOpInt) w.rtos.mutexArgs
  msgq : w.handed .msgq = false → msgqQuiet w.rtos.msgq.obj (MsgqOp.ofCode w.rtos.msgqOpInt) w.rtos.msgqArgs
  value : ∀ id task v, w.last = some (.sem .init id task v) → i.semValue = v

/-- the registers hold what the FSM accepted in the cycle before -/
def Holds (w : Watch) : Prop :=
  match w.last with
  | some (.sem op id task _) =>
    SemOp.ofCode w.rtos.semOpInt = op ∧ w.rtos.semIdInt = id ∧ w.rtos.currentTaskIdR = task
  | some (.mutex op id task) =>
    MutexOp.ofCode w.rtos.mutexOpInt = op ∧ w.rtos.mutexIdInt = id ∧ w.rtos.currentTaskIdR = task
  | some (.msgq op id task data) =>
    MsgqOp.ofCode w.rtos.msgqOpInt = op ∧ w.rtos.msgqQueueId = id ∧ w.rtos.currentTaskIdR = task ∧
      w.rtos.msgqDataIn = data
  | none => True

theorem step_holds (w : Watch) (i : RtosIn) : (w.step i).Holds := by
  cases ha : w.rtos.accepted i with
  | none => simp [Holds, step, ha]
  | some r =>
    obtain ⟨u, hu, rfl⟩ := HwRtos.issues_of_accepted ha
    have hidle : w.rtos.fsmState = .idle := by
      unfold HwRtos.accepted at ha; split_ifs at ha with hc; exact hc.1
    cases u <;>
      simp [Holds, step, ha, HwRtos.requestOf, HwRtos.step, HwRtos.opIntNext, HwRtos.currentTaskIdNext, hu, hidle]

theorem trace_holds (ins : ℕ → RtosIn) (n : ℕ) : (Machine.trace step reset ins n).Holds := by
  cases n with
  | zero => simp [Holds, reset]
  | succ n => exact step_holds _ _

/-! ## One cycle -/

theorem semExec_init_value_iff (o : SemObj) (a : SemArgs) (v : BitVec 8) :
    semExec o .init a = semExec o .init { a with initCount := v } ↔ a.initCount = v := by
  constructor
  · intro h
    have := congrArg (fun x => x.count a.semId) h
    simpa [semExec] using this
  · rintro rfl; rfl

/-- an operation other than `INIT` does not read the initial count -/
theorem semExec_value (o : SemObj) (op : SemOp) (a : SemArgs) (v : BitVec 8) (h : op ≠ .init) :
    semExec o op { a with initCount := v } = semExec o op a := by
  cases op <;> first | rfl | exact absurd rfl h

theorem semExec_value_iff (o : SemObj) (op : SemOp) (a : SemArgs) (v : BitVec 8) :
    semExec o op a = semExec o op { a with initCount := v } ↔ (op = .init → a.initCount = v) := by
  by_cases hop : op = .init
  · subst hop
    rw [semExec_init_value_iff]
    exact ⟨fun hv _ => hv, fun hv => hv rfl⟩
  · exact iff_of_true (semExec_value o op a v hop).symm fun h => absurd h hop

/-- **One cycle executes exactly the request accepted in the cycle before if and only if it is settled.** -/
theorem settled_iff (w : Watch) (i : RtosIn) (hw : w.Holds) :
    (w.rtos.step i).objs = execLast w.rtos.objs w.rtos.prio w.last ↔ w.Settled i := by
  have hsem := semExec_eq_self_iff w.rtos.sem.obj (SemOp.ofCode w.rtos.semOpInt) (w.rtos.semArgs i)
  have hmutex := mutexExec_eq_self_iff w.rtos.mutex.obj (MutexOp.ofCode w.rtos.mutexOpInt) w.rtos.mutexArgs
  have hmsgq := msgqExec_eq_self_iff w.rtos.msgq.obj (MsgqOp.ofCode w.rtos.msgqOpInt) w.rtos.msgqArgs
  have hstep : (w.rtos.step i).objs =
      ⟨semExec w.rtos.sem.obj (SemOp.ofCode w.rtos.semOpInt) (w.rtos.semArgs i),
        mutexExec w.rtos.mutex.obj (MutexOp.ofCode w.rtos.mutexOpInt) w.rtos.mutexArgs,
        msgqExec w.rtos.msgq.obj (MsgqOp.ofCode w.rtos.msgqOpInt) w.rtos.msgqArgs⟩ := rfl
  rw [hstep, Objs.ext_iff']
  unfold Holds at hw
  cases hl : w.last with
  | none =>
    simp only [execLast, HwRtos.objs, hsem, hmutex, hmsgq]
    exact ⟨fun ⟨h1, h2, h3⟩ => ⟨fun _ => h1, fun _ => h2, fun _ => h3, by simp [hl]⟩,
      fun h => ⟨h.sem (by simp [handed, hl]), h.mutex (by simp [handed, hl]), h.msgq (by simp [handed, hl])⟩⟩
  | some r =>
    cases r with
    | sem op id task v =>
      simp only [hl] at hw
      obtain ⟨hop, hid, ht⟩ := hw
      have hargs : (⟨id, task, v, 0xFF, w.rtos.prio⟩ : SemArgs) = { w.rtos.semArgs i with initCount := v } := by
        simp [HwRtos.semArgs, hid, ht]
      simp only [execLast, Objs.exec, HwRtos.objs, hmutex, hmsgq, hop, hargs, semExec_value_iff]
      constructor
      · rintro ⟨h1, h2, h3⟩
        refine ⟨by simp [handed, hl], fun _ => h2, fun _ => h3, ?_⟩
        intro id' task' v' e
        rw [hl] at e
        simp only [Option.some.injEq, ObjReq.sem.injEq] at e
        obtain ⟨rfl, -, -, rfl⟩ := e
        exact h1 rfl
      · intro h
        refine ⟨fun ho => ?_, h.mutex (by simp [handed, hl]), h.msgq (by simp [handed, hl])⟩
        exact h.value id task v (by rw [hl, ho])
    | mutex op id task =>
      simp only [hl] at hw
      obtain ⟨rfl, rfl, rfl⟩ := hw
      simp only [execLast, Objs.exec, HwRtos.objs, hsem, hmsgq]
      exact ⟨fun ⟨h1, _, h3⟩ => ⟨fun _ => h1, by simp [handed, hl], fun _ => h3, by simp [hl]⟩,
        fun h => ⟨h.sem (by simp [handed, hl]), rfl, h.msgq (by simp [handed, hl])⟩⟩
    | msgq op id task data =>
      simp only [hl] at hw
      obtain ⟨rfl, rfl, rfl, rfl⟩ := hw
      simp only [execLast, Objs.exec, HwRtos.objs, hsem, hmutex]
      exact ⟨fun ⟨h1, h2, _⟩ => ⟨fun _ => h1, fun _ => h2, by simp [handed, hl], by simp [hl]⟩,
        fun h => ⟨h.sem (by simp [handed, hl]), h.mutex (by simp [handed, hl]), rfl⟩⟩

/-! ## Runs -/

/-- **Exactly once.** Up to cycle `n` the objects are the once-executed ones if and only if every cycle before `n` is
settled. -/
theorem once_iff (ins : ℕ → RtosIn) (n : ℕ) :
    (∀ k ≤ n, (Machine.trace step reset ins k).rtos.objs = (Machine.trace step reset ins k).once) ↔
      ∀ k < n, (Machine.trace step reset ins k).Settled (ins k) := by
  have hstep : ∀ k, (Machine.trace step reset ins k).rtos.objs = (Machine.trace step reset ins k).once →
      ((Machine.trace step reset ins (k + 1)).rtos.objs = (Machine.trace step reset ins (k + 1)).once ↔
        (Machine.trace step reset ins k).Settled (ins k)) := by
    intro k h
    rw [Machine.trace_succ, ← settled_iff _ _ (trace_holds ins k), step, h]
  constructor
  · intro h k hk
    exact (hstep k (h k (Nat.le_of_lt hk))).1 (h (k + 1) hk)
  · intro h k hk
    induction k with
    | zero => rfl
    | succ k ih => exact (hstep k (ih (Nat.le_of_succ_le hk))).2 (h k hk)

/-- `INIT` of semaphore 0 with 5 tokens, then one `WAIT` on it, each held for one cycle -/
def waitRun (k : ℕ) : RtosIn :=
  if k = 0 then { RtosIn.quiet with semOp := 0b01, semValue := 5 }
  else if k = 3 then { RtosIn.quiet with semOp := 0b10, semValue := 5 }
  else { RtosIn.quiet with semValue := 5 }

/-- **One accepted `WAIT` takes two tokens.** The run accepts an `INIT` with 5 and one `WAIT`, and the count is 3. -/
theorem wait_twice :
    (Machine.trace step reset waitRun 0).rtos.accepted (waitRun 0) = some (.sem .init 0 0 5) ∧
      (Machine.trace step reset waitRun 3).rtos.accepted (waitRun 3) = some (.sem .wait 0 0 5) ∧
      (Machine.trace step reset waitRun 6).once.sem.count 0 = 4 ∧
      (Machine.trace step reset waitRun 6).rtos.sem.obj.count 0 = 3 := by
  decide

end Watch

end Vsync
