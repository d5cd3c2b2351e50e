/-
`hw_msgqueue` as bounded FIFO queues.

- `Fifo`, `Fifo.Step`: what a queue is for: a list of at most eight messages, the tasks that wait to send and those that
  wait to receive; `FifosStep`: one operation on all queues.
- `MsgqObj.WellFormed`: the write pointer is the count ahead of the read pointer, modulo the depth.
- `abstracted_step`: an operation on a well-formed object is a step of the queues that it stands for.
- `refines_fifos`: so every run is one of the bounded queues, and what was sent is what was received and what is still
  there.
-/
import Vsync.Machine
import Vsync.Rtos.MsgQueue

namespace Vsync

open Machine

/-! ## Bounded queues -/

/-- the messages, oldest first, and the waiting tasks -/
structure Fifo where
  msgs : List Word
  senders : Set TaskId
  receivers : Set TaskId

def Fifo.fresh : Fifo := ⟨[], ∅, ∅⟩

/-- the task with the lowest id is woken and leaves the set, if there is one -/
def Wakes (waiting : Set TaskId) (woken : Option TaskId) (rest : Set TaskId) : Prop :=
  match woken with
  | some t => IsLeast waiting t ∧ rest = waiting \ {t}
  | none => waiting = ∅ ∧ rest = ∅

/-- an operation on a queue, with its answer and the data that it returns -/
inductive Fifo.Step (f : Fifo) (a : MsgqArgs) : MsgqOp → Answer → Word → Fifo → Prop
  | nop : Step f a .nop .idle 0 f
  | sendBlocks (h : f.msgs.length = 8) : Step f a .send
    ⟨false, true, none⟩ 0 { f with senders := insert a.taskId f.senders }
  | sendAccepts (h : f.msgs.length < 8) {w : Option TaskId} {rest : Set TaskId} (hw : Wakes f.receivers w rest) :
    Step f a .send ⟨true, false, w⟩ 0 ⟨f.msgs ++ [a.msgDataIn], f.senders, rest⟩
  | recvBlocks (h : f.msgs = []) : Step f a .recv
    ⟨false, true, none⟩ 0 { f with receivers := insert a.taskId f.receivers }
  | recvReturns {x : Word} {msgs : List Word} (h : f.msgs = x :: msgs) {w : Option TaskId} {rest : Set TaskId}
    (hw : Wakes f.senders w rest) : Step f a .recv ⟨true, false, w⟩ x ⟨msgs, rest, f.receivers⟩

/-- an operation on one of the queues; the others keep what they have -/
structure FifosStep (f : QueueId → Fifo) (op : MsgqOp) (a : MsgqArgs) (ans : Answer) (out : Word)
    (f' : QueueId → Fifo) :
    Prop where
  here : (f a.queueId).Step a op ans out (f' a.queueId)
  others : ∀ q ≠ a.queueId, f' q = f q

/-! ## The ring of a queue -/

theorem nextPtr_eq (p : Fin 8) : nextPtr p = p + 1 := by
  rw [nextPtr]
  split
  case isTrue h => rw [h]; rfl
  case isFalse => rfl

theorem slot_succ (k : ℕ) : Fin.ofNat 8 (k + 1) = Fin.ofNat 8 k + 1 := by
  apply Fin.ext
  simp only [Fin.ofNat, Fin.val_add]
  omega

namespace MsgqObj

/-- the pointers and the count of every queue agree -/
structure WellFormed (o : MsgqObj) : Prop where
  count_le : ∀ q, (o.count q).toNat ≤ 8
  wrPtr_eq : ∀ q, o.wrPtr q = o.rdPtr q + Fin.ofNat 8 (o.count q).toNat

def fifo (o : MsgqObj) (q : QueueId) : Fifo := ⟨o.contents q, {t | o.sendWait q t = true}, {t | o.recvWait q t = true}⟩

variable {o : MsgqObj} {a : MsgqArgs}

theorem full_iff (q : QueueId) : o.full q = true ↔ (o.count q).toNat = 8 := by
  rw [full, beq_iff_eq, ← BitVec.toNat_inj]
  rfl

theorem empty_iff (q : QueueId) : o.empty q = true ↔ (o.count q).toNat = 0 := by
  rw [empty, beq_iff_eq, ← BitVec.toNat_inj]
  rfl

theorem count_ne_of_not_full {q : QueueId} (h : o.full q = false) : (o.count q).toNat ≠ 8 := by
  intro heq
  rw [(full_iff q).2 heq] at h
  exact absurd h (by simp)

theorem count_ne_of_not_empty {q : QueueId} (h : o.empty q = false) : (o.count q).toNat ≠ 0 := by
  intro heq
  rw [(empty_iff q).2 heq] at h
  exact absurd h (by simp)

theorem contents_send (h : o.WellFormed) (hfull : o.full a.queueId = false) :
    (msgqExec o .send a).contents a.queueId = o.contents a.queueId ++ [a.msgDataIn] := by
  have hle := h.count_le a.queueId
  have hne := count_ne_of_not_full hfull
  have hcount : (o.count a.queueId + 1).toNat = (o.count a.queueId).toNat + 1 := by bv_omega
  rw [msgqExec, contents, hfull]
  simp only [Bool.false_eq_true, if_false, Function.update_self]
  rw [hcount, List.range_succ, List.map_append, contents, h.wrPtr_eq]
  refine congrArg₂ (· ++ ·) (List.map_congr_left fun k hk => ?_) (by simp)
  have hk' : k < (o.count a.queueId).toNat := List.mem_range.1 hk
  apply Function.update_of_ne
  intro heq
  have := congrArg Fin.val (add_left_cancel heq)
  simp only [Fin.ofNat] at this
  omega

theorem contents_recv (hempty : o.empty a.queueId = false) :
    o.contents a.queueId =
      o.fifoMem a.queueId (o.rdPtr a.queueId) :: (msgqExec o .recv a).contents a.queueId := by
  obtain ⟨n, hn⟩ := Nat.exists_eq_succ_of_ne_zero (count_ne_of_not_empty hempty)
  have hcount : (o.count a.queueId - 1).toNat = n := by bv_omega
  rw [msgqExec, contents, contents, hempty]
  simp only [Bool.false_eq_true, if_false, Function.update_self]
  rw [hcount, hn, List.range_succ_eq_map, List.map_cons, List.map_map]
  refine congrArg₂ List.cons (by simp) (List.map_congr_left fun k _ => ?_)
  simp only [Function.comp_apply, slot_succ, nextPtr_eq]
  rw [add_assoc, add_comm 1]

/-! ## The waiters -/

/-- the scan finds the waiter with the lowest id -/
theorem firstWake_wakes (mask : WaitMask) :
    Wakes {t | mask t = true} (firstWake mask) {t | mask.clear (firstWake mask) t = true} := by
  cases hw : firstWake mask with
  | none =>
    have hnobody (t : TaskId) : mask t ≠ true := List.find?_eq_none.1 hw t (List.mem_finRange t)
    exact ⟨Set.eq_empty_of_forall_notMem hnobody, Set.eq_empty_of_forall_notMem hnobody⟩
  | some w =>
    obtain ⟨hmem, before, after, hsplit, hbefore⟩ := List.find?_eq_some_iff_append.1 hw
    refine ⟨⟨hmem, fun t ht => ?_⟩, ?_⟩
    · -- the ids behind the waiter in the scan are higher
      have hsorted : (before ++ w :: after).Pairwise (· < ·) := by
        rw [← hsplit]
        exact List.pairwise_lt_finRange 16
      have hin : t ∈ before ++ w :: after := by
        rw [← hsplit]
        exact List.mem_finRange t
      rcases List.mem_append.1 hin with hb | ha
      · have hno := hbefore t hb
        rw [show mask t = true from ht] at hno
        exact absurd hno (by simp)
      · rcases List.mem_cons.1 ha with rfl | ha
        · exact le_refl _
        · have hrest := (List.pairwise_append.1 hsorted).2.1
          exact ((List.pairwise_cons.1 hrest).1 t ha).le
    · ext t
      by_cases ht : t = w
      · simp [WaitMask.clear, ht]
      · simp [WaitMask.clear, ht]

theorem mask_insert (mask : WaitMask) (t : TaskId) :
    {j | Function.update mask t true j = true} = insert t {j | mask j = true} := by
  ext j
  by_cases hj : j = t
  · simp [hj]
  · simp [hj]

/-! ## One operation -/

theorem WellFormed.step (h : o.WellFormed) (op : MsgqOp) : (msgqExec o op a).WellFormed := by
  have hle := h.count_le a.queueId
  cases op with
  | nop => exact h
  | send =>
    cases hfull : o.full a.queueId with
    | true =>
      rw [msgqExec, hfull]
      exact ⟨h.count_le, h.wrPtr_eq⟩
    | false =>
      have hne := count_ne_of_not_full hfull
      have hcount : (o.count a.queueId + 1).toNat = (o.count a.queueId).toNat + 1 := by bv_omega
      rw [msgqExec, hfull]
      refine ⟨fun q => ?_, fun q => ?_⟩ <;> by_cases hq : q = a.queueId
      · subst hq
        simp only [Bool.false_eq_true, if_false, Function.update_self]
        omega
      · simpa [hq] using h.count_le q
      · subst hq
        simp only [Bool.false_eq_true, if_false, Function.update_self]
        rw [hcount, nextPtr_eq, h.wrPtr_eq, slot_succ, add_assoc]
      · simpa [hq] using h.wrPtr_eq q
  | recv =>
    cases hempty : o.empty a.queueId with
    | true =>
      rw [msgqExec, hempty]
      exact ⟨h.count_le, h.wrPtr_eq⟩
    | false =>
      obtain ⟨n, hn⟩ := Nat.exists_eq_succ_of_ne_zero (count_ne_of_not_empty hempty)
      have hcount : (o.count a.queueId - 1).toNat = n := by bv_omega
      rw [msgqExec, hempty]
      refine ⟨fun q => ?_, fun q => ?_⟩ <;> by_cases hq : q = a.queueId
      · subst hq
        simp only [Bool.false_eq_true, if_false, Function.update_self]
        omega
      · simpa [hq] using h.count_le q
      · subst hq
        simp only [Bool.false_eq_true, if_false, Function.update_self]
        rw [hcount, nextPtr_eq, h.wrPtr_eq, hn, slot_succ, add_assoc, add_comm 1]
      · simpa [hq] using h.wrPtr_eq q

theorem exec_other (o : MsgqObj) (op : MsgqOp) (a : MsgqArgs) {q : QueueId} (hq : q ≠ a.queueId) :
    (msgqExec o op a).fifoMem q = o.fifoMem q ∧ (msgqExec o op a).rdPtr q = o.rdPtr q ∧
      (msgqExec o op a).wrPtr q = o.wrPtr q ∧ (msgqExec o op a).count q = o.count q ∧
      (msgqExec o op a).sendWait q = o.sendWait q ∧ (msgqExec o op a).recvWait q = o.recvWait q := by
  cases op with
  | nop => exact ⟨rfl, rfl, rfl, rfl, rfl, rfl⟩
  | send =>
    rw [msgqExec]
    split <;> simp [hq]
  | recv =>
    rw [msgqExec]
    split <;> simp [hq]

theorem fifo_other (o : MsgqObj) (op : MsgqOp) (a : MsgqArgs) {q : QueueId} (hq : q ≠ a.queueId) :
    (msgqExec o op a).fifo q = o.fifo q := by
  obtain ⟨hmem, hrd, -, hcount, hsend, hrecv⟩ := exec_other o op a hq
  rw [fifo, contents, hmem, hrd, hcount, hsend, hrecv]
  rfl

theorem send_step (h : o.WellFormed) : (o.fifo a.queueId).Step a .send (msgqAnswer o .send a) (msgqDataOut o .send a)
    ((msgqExec o .send a).fifo a.queueId) := by
  cases hfull : o.full a.queueId with
  | true =>
    have hlen : (o.fifo a.queueId).msgs.length = 8 := (length_contents o _).trans ((full_iff _).1 hfull)
    have hnew : (msgqExec o .send a).fifo a.queueId =
        { o.fifo a.queueId with senders := insert a.taskId (o.fifo a.queueId).senders } := by
      simp [msgqExec, hfull, fifo, mask_insert, contents]
    rw [hnew, msgqAnswer, hfull]
    exact .sendBlocks hlen
  | false =>
    have hlen : (o.fifo a.queueId).msgs.length < 8 := by
      rw [fifo, length_contents]
      exact lt_of_le_of_ne (h.count_le _) (count_ne_of_not_full hfull)
    have hnew : (msgqExec o .send a).fifo a.queueId =
        ⟨(o.fifo a.queueId).msgs ++ [a.msgDataIn], (o.fifo a.queueId).senders,
          {t | (o.recvWait a.queueId).clear (firstWake (o.recvWait a.queueId)) t = true}⟩ := by
      rw [fifo, contents_send h hfull]
      simp [msgqExec, hfull, fifo]
    rw [hnew, msgqAnswer, hfull]
    exact .sendAccepts hlen (firstWake_wakes (o.recvWait a.queueId))

theorem recv_step : (o.fifo a.queueId).Step a .recv (msgqAnswer o .recv a) (msgqDataOut o .recv a)
    ((msgqExec o .recv a).fifo a.queueId) := by
  cases hempty : o.empty a.queueId with
  | true =>
    have hnil : (o.fifo a.queueId).msgs = [] := by
      apply List.eq_nil_of_length_eq_zero
      exact (length_contents o _).trans ((empty_iff _).1 hempty)
    have hnew : (msgqExec o .recv a).fifo a.queueId =
        { o.fifo a.queueId with receivers := insert a.taskId (o.fifo a.queueId).receivers } := by
      simp [msgqExec, hempty, fifo, mask_insert, contents]
    rw [hnew, msgqAnswer, msgqDataOut, hempty]
    exact .recvBlocks hnil
  | false =>
    have hcons : (o.fifo a.queueId).msgs = o.fifoMem a.queueId (o.rdPtr a.queueId) ::
        (msgqExec o .recv a).contents a.queueId := contents_recv hempty
    have hnew : (msgqExec o .recv a).fifo a.queueId = ⟨(msgqExec o .recv a).contents a.queueId,
        {t | (o.sendWait a.queueId).clear (firstWake (o.sendWait a.queueId)) t = true},
          (o.fifo a.queueId).receivers⟩ := by
      simp [msgqExec, hempty, fifo]
    have hout : msgqDataOut o .recv a = o.fifoMem a.queueId (o.rdPtr a.queueId) := if_pos ⟨rfl, hempty⟩
    rw [hnew, hout, msgqAnswer, hempty]
    exact .recvReturns hcons (firstWake_wakes (o.sendWait a.queueId))

/-- **An operation on a well-formed object is a step of the bounded queues.** -/
theorem abstracted_step (h : o.WellFormed) (op : MsgqOp) :
    FifosStep o.fifo op a (msgqAnswer o op a) (msgqDataOut o op a) (msgqExec o op a).fifo := by
  refine ⟨?_, fun q hq => fifo_other o op a hq⟩
  cases op with
  | nop => exact .nop
  | send => exact send_step h
  | recv => exact recv_step

end MsgqObj

/-! ## Runs -/

/-- the data of a send that a queue accepted -/
def Accepted (q : QueueId) (op : MsgqOp) (a : MsgqArgs) (ans : Answer) : List Word :=
  if op = .send ∧ a.queueId = q ∧ ans.success = true then [a.msgDataIn] else []

/-- the data that a receive returned from a queue -/
def Returned (q : QueueId) (op : MsgqOp) (a : MsgqArgs) (ans : Answer) (out : Word) : List Word :=
  if op = .recv ∧ a.queueId = q ∧ ans.success = true then [out] else []

/-- a step of the bounded queues appends what it accepts and takes what it returns from the front -/
theorem FifosStep.moves {f f' : QueueId → Fifo} {op : MsgqOp} {a : MsgqArgs} {ans : Answer} {out : Word}
    (h : FifosStep f op a ans out f') (q : QueueId) :
    (f q).msgs ++ Accepted q op a ans = Returned q op a ans out ++ (f' q).msgs := by
  by_cases hq : q = a.queueId
  · subst hq
    have hstep := h.here
    generalize f a.queueId = g, f' a.queueId = g' at hstep
    cases hstep with
    | nop => simp [Accepted, Returned]
    | sendBlocks => simp [Accepted, Returned]
    | sendAccepts => simp [Accepted, Returned]
    | recvBlocks => simp [Accepted, Returned]
    | recvReturns hmsgs => simp [Accepted, Returned, hmsgs]
  · rw [h.others q hq, Accepted, Returned, if_neg fun hc => hq hc.2.1.symm, if_neg fun hc => hq hc.2.1.symm]
    simp

namespace HwMsgQueue

/-- one clock edge with the operation on the ports -/
def next (u : HwMsgQueue) (i : MsgqOp × MsgqArgs) : HwMsgQueue := u.step i.1 i.2

def accepts (q : QueueId) (u : HwMsgQueue) (i : MsgqOp × MsgqArgs) : List Word := Accepted q i.1 i.2 (u.next i).ans

def returns (q : QueueId) (u : HwMsgQueue) (i : MsgqOp × MsgqArgs) : List Word :=
  Returned q i.1 i.2 (u.next i).ans (u.next i).msgDataOut

theorem wellFormed_run (ins : ℕ → MsgqOp × MsgqArgs) (n : ℕ) : (trace next reset ins n).obj.WellFormed := by
  induction n with
  | zero => exact ⟨fun _ => Nat.zero_le 8, fun _ => rfl⟩
  | succ n ih => exact ih.step (ins n).1

/-- the registers agree with the queues, and the messages are the ones accepted and not yet returned, in their order -/
structure Refines (f : QueueId → Fifo) (accepted returned : QueueId → List Word) (u : HwMsgQueue) : Prop where
  count : ∀ q, (u.obj.count q).toNat = (f q).msgs.length
  bounded : ∀ q, (f q).msgs.length ≤ 8
  sendWait : ∀ q t, u.obj.sendWait q t = true ↔ t ∈ (f q).senders
  recvWait : ∀ q t, u.obj.recvWait q t = true ↔ t ∈ (f q).receivers
  order : ∀ q, accepted q = returned q ++ (f q).msgs

/-- **The unit is four bounded queues**: for every sequence of operations there is a run of the abstract queues that
gives the same answers and the same data. -/
theorem refines_fifos (ins : ℕ → MsgqOp × MsgqArgs) : ∃ f : ℕ → QueueId → Fifo, (∀ q, f 0 q = Fifo.fresh) ∧ ∀ n,
    FifosStep (f n) (ins n).1 (ins n).2 (trace next reset ins (n + 1)).ans (trace next reset ins (n + 1)).msgDataOut
      (f (n + 1)) ∧
      Refines (f n) (fun q => log (accepts q) next reset ins n) (fun q => log (returns q) next reset ins n)
        (trace next reset ins n) := by
  have hstep (n : ℕ) : FifosStep (trace next reset ins n).obj.fifo (ins n).1 (ins n).2
      (trace next reset ins (n + 1)).ans
      (trace next reset ins (n + 1)).msgDataOut (trace next reset ins (n + 1)).obj.fifo :=
    MsgqObj.abstracted_step (wellFormed_run ins n) (ins n).1
  refine ⟨fun n => (trace next reset ins n).obj.fifo, fun q => ?_, fun n => ⟨hstep n, ?_⟩⟩
  · simp [MsgqObj.fifo, MsgqObj.contents, reset, noWaiters, Fifo.fresh]
  · refine ⟨fun q => ?_, fun q => ?_, fun _ _ => Iff.rfl, fun _ _ => Iff.rfl, fun q => ?_⟩
    · exact (MsgqObj.length_contents _ q).symm
    · exact (MsgqObj.length_contents _ q).trans_le ((wellFormed_run ins n).count_le q)
    · induction n with
      | zero => rfl
      | succ n ih =>
        rw [log_succ, log_succ, ih, List.append_assoc, List.append_assoc]
        exact congrArg (_ ++ ·) ((hstep n).moves q)

end HwMsgQueue

end Vsync
