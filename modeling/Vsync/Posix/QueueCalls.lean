/-
The message-queue syscalls as a FIFO.

`QueueWatch` runs the system beside the messages of the successful sends and receives. The operation codes of the layer
are one off those of `hw_msgqueue`: `mq_open` and `mq_close` reach it as `SEND`, `mq_send` as `RECV`, and `mq_receive`
as a no-operation.

- `queue_law_iff`: the law holds in every cycle before `n` exactly when the queue unit never holds the code of `mq_open`
  and `mq_close` there. In such a run the queues stay empty and no send or receive succeeds.
- `open_enqueues`: `mq_open` appends a message.
-/
import Vsync.Posix.System

namespace Vsync

namespace System

variable {s : System} {i : SysIn}

/-- an object request that the RTOS issues comes from the layer, in the cycle the layer drives it -/
theorem msgqOpInt_of_step {c : BitVec 2} (h : (s.step i).rtos.msgqOpInt = c) (h0 : c ≠ 0)
    (hne : s.rtos.msgqOpInt ≠ c) : s.posix.msgqOp = c := by
  simp only [step, HwRtos.step, HwRtos.opIntNext] at h
  split_ifs at h
  · exact h
  · exact absurd h.symm h0
  · exact absurd h.symm h0
  · exact absurd h hne

/-- the layer drives a queue code only while it serves a queue call -/
theorem msgq_of_msgqOp (ho : s.OwnCategory) (h : s.posix.msgqOp ≠ 0) :
    s.posix.category = 3 ∧ s.posix.state ≠ .idle ∧ s.posix.msgqOp = PosixLayer.msgqCode s.posix.subop := by
  unfold PosixLayer.msgqOp at h ⊢
  split_ifs at h ⊢ with hs
  · simp only [PosixLayer.serves, Bool.or_eq_true, Bool.and_eq_true, beq_iff_eq] at hs
    rcases hs with hs | ⟨hs, hc⟩
    · exact ⟨ho.2.2.2 hs, by simp [hs], rfl⟩
    · exact ⟨hc, by simp [hs], rfl⟩
  · exact absurd rfl h

def OpensOrCloses (s : System) : Prop := s.posix.category = 3 ∧ (s.posix.subop = 0 ∨ s.posix.subop = 3)

theorem msgqCode_eq_one {k : ℕ} (h : PosixLayer.msgqCode k = 0b01#2) : k = 0 ∨ k = 3 := by
  unfold PosixLayer.msgqCode at h
  split at h <;> simp_all

/-- the queue and the message of an `mq_send` or `mq_timedsend` that succeeds in this cycle -/
def sendDone (s : System) : Option (QueueId × Word) :=
  if s.Waits 3 ∧ (s.posix.subop = 1 ∨ s.posix.subop = 5) then
    match s.rtos.msgqDone with
    | some (true, _) => some (lowId 4 s.posix.arg0, s.posix.arg1)
    | _ => none
  else none

/-- the queue and the value of an `mq_receive` or `mq_timedreceive` that succeeds in this cycle -/
def recvDone (s : System) : Option (QueueId × Word) :=
  if s.Waits 3 ∧ (s.posix.subop = 2 ∨ s.posix.subop = 4) then
    match s.rtos.msgqDone with
    | some (true, x) => some (lowId 4 s.posix.arg0, x)
    | _ => none
  else none

end System

/-- the system, the messages of the successful sends and receives on each queue, and what the queue of the call in
progress held when the call was dispatched -/
structure QueueWatch where
  sys : System
  sent : QueueId → List Word
  received : QueueId → List Word
  before : List Word

namespace QueueWatch

/-- append a message to the log of its queue -/
def record (log : QueueId → List Word) : Option (QueueId × Word) → QueueId → List Word
  | some (q, x) => Function.update log q (log q ++ [x])
  | none => log

def reset : QueueWatch := ⟨System.reset, fun _ => [], fun _ => [], []⟩

def step (w : QueueWatch) (i : SysIn) : QueueWatch where
  sys := w.sys.step i
  sent := record w.sent w.sys.sendDone
  received := record w.received w.sys.recvDone
  before := if w.sys.posix.state = .msgqOp then w.sys.rtos.msgq.obj.contents (lowId 4 w.sys.posix.arg0) else w.before

def stateAt (ins : ℕ → SysIn) (n : ℕ) : QueueWatch := Machine.trace step reset ins n

theorem stateAt_sys (ins : ℕ → SysIn) (n : ℕ) : (stateAt ins n).sys = System.stateAt ins n := by
  induction n with
  | zero => rfl
  | succ n ih => rw [System.stateAt_succ, ← ih]; rfl

/-- the FIFO law of one cycle -/
structure Law (w w' : QueueWatch) : Prop where
  fifo : ∀ q, w'.received q <+: w'.sent q
  appends : ∀ q x, w.sys.sendDone = some (q, x) → w.sys.rtos.msgq.obj.contents q = w.before ++ [x]
  keeps : w.sys.OpensOrCloses → ∀ q, w'.sys.rtos.msgq.obj.contents q = w.sys.rtos.msgq.obj.contents q

structure Empty (w : QueueWatch) : Prop where
  count : ∀ q, w.sys.rtos.msgq.obj.count q = 0
  ans : w.sys.rtos.msgq.ans.success = false
  done : ∀ x, w.sys.rtos.msgqDone ≠ some (true, x)
  sent : w.sent = fun _ => []
  received : w.received = fun _ => []

theorem reset_empty : Empty reset := by
  constructor <;> simp [reset, System.reset, HwRtos.reset, HwMsgQueue.reset, Answer.idle]

section Cycle

variable {w : QueueWatch} {i : SysIn}

theorem sendDone_none (h : Empty w) : w.sys.sendDone = none := by
  unfold System.sendDone
  split_ifs
  · split
    · exact absurd ‹_› (h.done _)
    · rfl
  · rfl

theorem recvDone_none (h : Empty w) : w.sys.recvDone = none := by
  unfold System.recvDone
  split_ifs
  · split
    · exact absurd ‹_› (h.done _)
    · rfl
  · rfl

/-- an operation other than `SEND` leaves empty queues empty and does not succeed on them -/
theorem exec_empty {o : MsgqObj} {op : MsgqOp} (a : MsgqArgs) (h : ∀ q, o.count q = 0) (hop : op ≠ .send) :
    (∀ q, (msgqExec o op a).count q = 0) ∧ (msgqAnswer o op a).success = false := by
  have he : o.empty a.queueId = true := by simp [MsgqObj.empty, h]
  cases op with
  | nop => exact ⟨h, rfl⟩
  | send => exact absurd rfl hop
  | recv => simp [msgqExec, msgqAnswer, he, h]

theorem ofCode_ne_send {c : BitVec 2} (h : c ≠ 0b01#2) : MsgqOp.ofCode c ≠ .send := by
  rw [MsgqOp.ofCode, if_neg h]
  split_ifs <;> decide

theorem step_empty (h : Empty w) (hc : w.sys.rtos.msgqOpInt ≠ 0b01#2) : Empty (w.step i) := by
  have he := exec_empty w.sys.rtos.msgqArgs h.count (ofCode_ne_send hc)
  refine ⟨he.1, he.2, fun x hx => ?_, ?_, ?_⟩
  · have hok : w.sys.rtos.servedOk (w.sys.rtosIn i) .msgq = false := by
      simp [HwRtos.servedOk, HwRtos.answerOf, h.ans]
    simp only [step, System.step, HwRtos.step, HwRtos.msgqDoneNext, hok, Bool.false_eq_true, if_false] at hx
    split_ifs at hx
    simp at hx
  · simp [step, sendDone_none h, record, h.sent]
  · simp [step, recvDone_none h, record, h.received]

/-- a cycle on empty queues without the code 01 keeps the law -/
theorem law_of_empty (h : Empty w) (hc : w.sys.rtos.msgqOpInt ≠ 0b01#2) : Law w (w.step i) := by
  have h' := step_empty (i := i) h hc
  refine ⟨fun q => by simp [h'.received], fun q x hs => ?_, fun _ q => ?_⟩
  · rw [sendDone_none h] at hs; exact absurd hs (by simp)
  · rw [MsgqObj.contents_eq_nil (h.count q), MsgqObj.contents_eq_nil (h'.count q)]

/-- the code 01 on empty queues appends a message on behalf of `mq_open` or `mq_close` -/
theorem not_law_of_open (h : Empty w) (hc : w.sys.rtos.msgqOpInt = 0b01#2) (hcall : w.sys.OpensOrCloses) :
    ¬ Law w (w.step i) := by
  intro hl
  set q := w.sys.rtos.msgqQueueId with hq
  have hk := congrArg List.length (hl.keeps hcall q)
  have hfull : w.sys.rtos.msgq.obj.full q = false := by simp [MsgqObj.full, h.count q]
  have hcount : (w.step i).sys.rtos.msgq.obj.count q = 1 := by
    simp [step, System.step, HwRtos.step, hc, MsgqOp.ofCode, msgqExec, HwRtos.msgqArgs, ← hq, hfull, h.count q]
  simp [hcount, h.count q] at hk

end Cycle

/-! ## Runs -/

theorem run_empty (ins : ℕ → SysIn) (n : ℕ) (hc : ∀ k < n, (stateAt ins k).sys.rtos.msgqOpInt ≠ 0b01#2) :
    Empty (stateAt ins n) :=
  Machine.trace_inv_of step reset ins (C := fun w _ => w.sys.rtos.msgqOpInt ≠ 0b01#2) reset_empty
    (fun _ _ h hc => step_empty h hc) n hc

/-- the first cycle with the code 01 belongs to an `mq_open` or `mq_close` -/
theorem opens_of_first (ins : ℕ → SysIn) (n : ℕ) (hc : ∀ k < n, (stateAt ins k).sys.rtos.msgqOpInt ≠ 0b01#2)
    (h : (stateAt ins n).sys.rtos.msgqOpInt = 0b01#2) : (stateAt ins n).sys.OpensOrCloses := by
  cases n with
  | zero => simp [stateAt, reset, System.reset, HwRtos.reset] at h
  | succ n =>
    rw [stateAt_sys] at h ⊢
    have hprev := hc n (Nat.lt_succ_self n)
    rw [stateAt_sys] at hprev
    rw [System.stateAt_succ] at h ⊢
    have hop := System.msgqOpInt_of_step h (by decide) hprev
    obtain ⟨hcat, hst, hcode⟩ := System.msgq_of_msgqOp (System.ownCategory ins n) (by rw [hop]; decide)
    refine ⟨by rw [System.step_category hst, hcat], ?_⟩
    rw [System.step_subop hst]
    exact System.msgqCode_eq_one (hcode.symm.trans hop)

/-- **The FIFO law holds exactly as long as no `mq_open` or `mq_close` reaches the queue unit.** -/
theorem queue_law_iff (ins : ℕ → SysIn) (n : ℕ) :
    (∀ k < n, Law (stateAt ins k) (stateAt ins (k + 1))) ↔ ∀ k < n, (stateAt ins k).sys.rtos.msgqOpInt ≠ 0b01#2 := by
  constructor
  · intro h k
    induction k using Nat.strong_induction_on with
    | _ k ih =>
      intro hk hc
      have hprev : ∀ j < k, (stateAt ins j).sys.rtos.msgqOpInt ≠ 0b01#2 := fun j hj => ih j hj (by omega)
      exact not_law_of_open (run_empty ins k hprev) hc (opens_of_first ins k hprev hc) (h k hk)
  · intro h k hk
    exact law_of_empty (run_empty ins k fun j hj => h j (by omega)) (h k hk)

def openRun (k : ℕ) : SysIn := if k = 0 then SysIn.call 0x30 0 0 0 else SysIn.quiet

/-- **Opening a queue enqueues.** In cycle 4 the queue unit executes a `SEND` for `mq_open`, and queue 0 holds a word.
-/
theorem open_enqueues :
    (stateAt openRun 3).sys.OpensOrCloses ∧ (stateAt openRun 3).sys.rtos.msgq.obj.contents 0 = [] ∧
      (stateAt openRun 4).sys.rtos.msgq.obj.contents 0 = [0] ∧ ¬ Law (stateAt openRun 3) (stateAt openRun (3 + 1)) := by
  have h : (stateAt openRun 3).sys.posix.category = 3 ∧ (stateAt openRun 3).sys.posix.subop = 0 ∧
      (stateAt openRun 3).sys.rtos.msgq.obj.contents 0 = [] ∧
      (stateAt openRun 4).sys.rtos.msgq.obj.contents 0 = [0] := by decide +kernel
  obtain ⟨h1, h2, h3, h4⟩ := h
  refine ⟨⟨h1, Or.inl h2⟩, h3, h4, fun hl => ?_⟩
  have := hl.keeps ⟨h1, Or.inl h2⟩ 0
  rw [h4, h3] at this
  exact absurd this (by simp)

end QueueWatch

end Vsync
