/-
`hw_semaphore` over whole histories: what it keeps of each semaphore, in terms of the operations and their answers.

- `SemEvent`: an operation with its answer; `SemHistory`: the last `INIT` of a semaphore and the operations on it since.
- `SemLaw`: the count is the initial one with the posts that added a token and without the waits that took one, and the
  wait mask holds the tasks that a wait has blocked and no post has woken since; while it holds one, the count is zero.
- `SemCycle`: a wait takes a token or blocks, a post with waiters wakes the best one and adds a token without, and an
  operation leaves the other semaphores alone.
- `unit_law`: so it is in every run.
-/
import Vsync.Episodes
import Vsync.Rtos.Semaphore

namespace Vsync

open Machine

/-! ## The best waiter -/

/-- the waiter of the highest priority, the lowest id among equals -/
structure BestWaiter (mask : WaitMask) (prio : TaskId → Prio) (t : TaskId) : Prop where
  waits : mask t = true
  first : ∀ j, mask j = true → j ≠ t → prio j < prio t ∨ (prio j = prio t ∧ t < j)

/-- **The scan returns the best waiter.** -/
theorem bestWake_best {mask : WaitMask} {prio : TaskId → Prio} {t : TaskId} (h : bestWake mask prio = some t) :
    BestWaiter mask prio t := by
  have hbest := bestWake_firstBest h
  refine ⟨hbest.holds, fun j hj hne => ?_⟩
  rcases hbest.first j (List.mem_finRange j) hj hne with hlt | ⟨heq, hbefore⟩
  · exact .inl hlt
  · exact .inr ⟨BitVec.eq_of_toNat_eq heq, hbefore⟩

/-! ## Histories -/

structure SemEvent where
  op : SemOp
  args : SemArgs
  ans : Answer

namespace SemEvent

variable (e : SemEvent) (t : TaskId)

/-- a `POST` that incremented the count -/
def added : Bool := e.op == .post && e.ans.success && e.ans.wake.isNone

/-- a `WAIT` that succeeded at once -/
def took : Bool := e.op == .wait && e.ans.success

def Blocked : Prop := e.op = .wait ∧ e.args.taskId = t ∧ e.ans.block = true

def Woke : Prop := e.ans.wake = some t

end SemEvent

/-- the operands of the last `INIT` of a semaphore, and the operations on it since -/
structure SemHistory where
  initCount : ℕ
  maxCount : ℕ
  since : List SemEvent

namespace SemHistory

/-- behind the event `e` -/
def add (x : SemId) (h : SemHistory) (e : SemEvent) : SemHistory :=
  if e.args.semId = x then
    if e.op = .init then ⟨e.args.initCount.toNat, e.args.maxCount.toNat, []⟩ else { h with since := h.since ++ [e] }
  else h

/-- the history of a semaphore; a reset is an `INIT` with zeros -/
def of (x : SemId) (es : List SemEvent) : SemHistory := es.foldl (add x) ⟨0, 0, []⟩

theorem of_snoc (x : SemId) (es : List SemEvent) (e : SemEvent) : of x (es ++ [e]) = (of x es).add x e := by
  rw [of, List.foldl_append]
  rfl

theorem add_since {x : SemId} {e : SemEvent} (h : SemHistory) (hx : e.args.semId = x) (hop : e.op ≠ .init) :
    h.add x e = { h with since := h.since ++ [e] } := by
  rw [add, if_pos hx, if_neg hop]

end SemHistory

/-- the object agrees with the history of the semaphore `x` -/
structure SemLaw (x : SemId) (h : SemHistory) (o : SemObj) : Prop where
  maxCount : (o.maxCount x).toNat = h.maxCount
  /-- over naturals: no count has wrapped -/
  tokens : (o.count x).toNat + h.since.countP SemEvent.took = h.initCount + h.since.countP SemEvent.added
  bound : (o.count x).toNat ≤ max h.initCount h.maxCount
  waiters : ∀ t, o.waitMask x t = true ↔ Outstanding (SemEvent.Blocked · t) (SemEvent.Woke · t) h.since
  empty : (∃ t, o.waitMask x t = true) → o.count x = 0

/-- what an operation on the object `o` does, and what it leaves alone -/
structure SemCycle (o : SemObj) (op : SemOp) (a : SemArgs) (u : HwSemaphore) : Prop where
  /-- a `WAIT` takes a token while there is one, and blocks while there is none -/
  waits : op = .wait → u.ans = ⟨decide (0 < o.count a.semId), decide (o.count a.semId = 0), none⟩
  /-- a `POST` without waiters adds a token up to the maximum -/
  adds : op = .post → (∀ j, o.waitMask a.semId j = false) →
    u.ans = ⟨decide (o.count a.semId < o.maxCount a.semId), false, none⟩ ∧
      u.obj.count a.semId = if o.count a.semId < o.maxCount a.semId then o.count a.semId + 1 else o.count a.semId
  wakes : op = .post → (∃ j, o.waitMask a.semId j = true) → ∃ t, BestWaiter (o.waitMask a.semId) a.prio t ∧
    u.ans = ⟨true, false, some t⟩ ∧ u.obj.waitMask a.semId = Function.update (o.waitMask a.semId) t false ∧
    u.obj.count a.semId = o.count a.semId
  wakesNobody : u.ans.wake ≠ none → op = .post ∧ ∃ j, o.waitMask a.semId j = true
  others : ∀ x ≠ a.semId,
    u.obj.count x = o.count x ∧ u.obj.maxCount x = o.maxCount x ∧ u.obj.waitMask x = o.waitMask x

/-! ## One operation -/

section Operation

variable {x : SemId} {h : SemHistory} {o : SemObj} {a : SemArgs}

theorem law_init (ha : a.semId = x) :
    SemLaw x (h.add x ⟨.init, a, semAnswer o .init a⟩) (semExec o .init a) := by
  subst ha
  refine ⟨?_, ?_, ?_, fun t => ?_, ?_⟩
  · simp [semExec, SemHistory.add]
  · simp [semExec, SemHistory.add]
  · simp [semExec, SemHistory.add]
  · simp [semExec, SemHistory.add, noWaiters, not_outstanding_nil]
  · simp [semExec, noWaiters]

/-- an event that neither blocks nor wakes keeps the waiters -/
theorem waiters_snoc {es : List SemEvent} {e : SemEvent} {t : TaskId} (hb : e.ans.block = false)
    (hw : e.ans.wake = none) :
    Outstanding (SemEvent.Blocked · t) (SemEvent.Woke · t) (es ++ [e]) ↔
      Outstanding (SemEvent.Blocked · t) (SemEvent.Woke · t) es := by
  rw [outstanding_snoc]
  simp [SemEvent.Blocked, SemEvent.Woke, hb, hw]

theorem law_nop (ha : a.semId = x) (hl : SemLaw x h o) :
    SemLaw x (h.add x ⟨.nop, a, semAnswer o .nop a⟩) (semExec o .nop a) := by
  rw [semAnswer_nop, semExec_nop, SemHistory.add_since h ha (by simp)]
  refine ⟨hl.maxCount, ?_, hl.bound, fun t => ?_, hl.empty⟩
  · simpa [SemEvent.took, SemEvent.added] using hl.tokens
  · exact (hl.waiters t).trans (waiters_snoc rfl rfl).symm

theorem law_wait (ha : a.semId = x) (hl : SemLaw x h o) :
    SemLaw x (h.add x ⟨.wait, a, semAnswer o .wait a⟩) (semExec o .wait a) := by
  rw [SemHistory.add_since h ha (by simp)]
  subst ha
  have htokens := hl.tokens
  have hbound := hl.bound
  by_cases hc : 0 < o.count a.semId
  · -- a token is there, so nobody waits
    have hans : semAnswer o .wait a = ⟨true, false, none⟩ := if_pos hc
    have hexec : semExec o .wait a = { o with count := Function.update o.count a.semId (o.count a.semId - 1) } :=
      if_pos hc
    have hcount : (o.count a.semId - 1).toNat + 1 = (o.count a.semId).toNat := by bv_omega
    rw [hans, hexec]
    refine ⟨hl.maxCount, ?_, ?_, fun t => ?_, ?_⟩
    · simp only [Function.update_self, List.countP_append]
      simp [SemEvent.took, SemEvent.added]
      omega
    · simp only [Function.update_self]
      omega
    · exact (hl.waiters t).trans (waiters_snoc rfl rfl).symm
    · intro hw
      rw [hl.empty hw] at hc
      exact absurd hc (by decide)
  · have hzero : o.count a.semId = 0 := by
      by_contra hne
      exact hc ((pos_iff_ne_zero8 _).2 hne)
    have hans : semAnswer o .wait a = ⟨false, true, none⟩ := if_neg hc
    have hexec : semExec o .wait a = { o with
        waitMask := Function.update o.waitMask a.semId
          (Function.update (o.waitMask a.semId) a.taskId true) } := if_neg hc
    rw [hans, hexec]
    refine ⟨hl.maxCount, ?_, hbound, fun t => ?_, fun _ => hzero⟩
    · simpa [SemEvent.took, SemEvent.added] using htokens
    · simp only [outstanding_snoc, ← hl.waiters t, Function.update_self, Function.update_apply]
      by_cases ht : t = a.taskId
      · simp [SemEvent.Blocked, ht]
      · simp [SemEvent.Blocked, SemEvent.Woke, ht, Ne.symm ht]

theorem law_wake {w : TaskId} (ha : a.semId = x) (hl : SemLaw x h o)
    (hw : bestWake (o.waitMask a.semId) a.prio = some w) :
    SemLaw x (h.add x ⟨.post, a, semAnswer o .post a⟩) (semExec o .post a) := by
  have hans : semAnswer o .post a = ⟨true, false, some w⟩ := by simp [semAnswer, hw]
  have hexec : semExec o .post a = { o with
      waitMask := Function.update o.waitMask a.semId (Function.update (o.waitMask a.semId) w false) } := by
    simp [semExec, hw]
  rw [SemHistory.add_since h ha (by simp), hans, hexec]
  subst ha
  refine ⟨hl.maxCount, ?_, hl.bound, fun t => ?_, fun _ => hl.empty ⟨w, bestWake_mem hw⟩⟩
  · simpa [SemEvent.took, SemEvent.added] using hl.tokens
  · simp only [outstanding_snoc, ← hl.waiters t, Function.update_self, Function.update_apply]
    by_cases ht : t = w
    · simp [SemEvent.Blocked, SemEvent.Woke, ht]
    · simp [SemEvent.Blocked, SemEvent.Woke, ht, Ne.symm ht]

theorem law_add (ha : a.semId = x) (hl : SemLaw x h o) (hw : bestWake (o.waitMask a.semId) a.prio = none) :
    SemLaw x (h.add x ⟨.post, a, semAnswer o .post a⟩) (semExec o .post a) := by
  have hnobody := bestWake_eq_none.1 hw
  have htokens := hl.tokens
  rw [SemHistory.add_since h ha (by simp)]
  subst ha
  by_cases hc : o.count a.semId < o.maxCount a.semId
  · have hans : semAnswer o .post a = ⟨true, false, none⟩ := by simp [semAnswer, hw, hc]
    have hexec : semExec o .post a = { o with count := Function.update o.count a.semId (o.count a.semId + 1) } := by
      simp [semExec, hw, hc]
    have hmax := hl.maxCount
    have hcount : (o.count a.semId + 1).toNat = (o.count a.semId).toNat + 1 := by bv_omega
    have hlt : (o.count a.semId).toNat < (o.maxCount a.semId).toNat := hc
    rw [hans, hexec]
    refine ⟨hmax, ?_, ?_, fun t => ?_, ?_⟩
    · simp only [Function.update_self, List.countP_append, hcount]
      simp [SemEvent.took, SemEvent.added]
      omega
    · simp only [Function.update_self, hcount]
      omega
    · exact (hl.waiters t).trans (waiters_snoc rfl rfl).symm
    · rintro ⟨t, ht⟩
      exact absurd ht (by simp [hnobody t])
  · have hans : semAnswer o .post a = .idle := by simp [semAnswer, hw, hc]
    have hexec : semExec o .post a = o := by simp [semExec, hw, hc]
    rw [hans, hexec]
    refine ⟨hl.maxCount, ?_, hl.bound, fun t => ?_, hl.empty⟩
    · simpa [SemEvent.took, SemEvent.added, Answer.idle] using htokens
    · exact (hl.waiters t).trans (waiters_snoc rfl rfl).symm

theorem law_other {op : SemOp} (ha : a.semId ≠ x) (hl : SemLaw x h o) :
    SemLaw x (h.add x ⟨op, a, semAnswer o op a⟩) (semExec o op a) := by
  obtain ⟨hcount, hmax, hmask⟩ := semExec_other o op a (Ne.symm ha)
  have hadd : h.add x ⟨op, a, semAnswer o op a⟩ = h := by simp [SemHistory.add, ha]
  rw [hadd]
  refine ⟨?_, ?_, ?_, fun t => ?_, ?_⟩
  · rw [hmax, hl.maxCount]
  · rw [hcount, hl.tokens]
  · rw [hcount]
    exact hl.bound
  · rw [hmask]
    exact hl.waiters t
  · rw [hmask, hcount]
    exact hl.empty

/-- **One operation keeps the law.** -/
theorem law_step (op : SemOp) (hl : SemLaw x h o) : SemLaw x (h.add x ⟨op, a, semAnswer o op a⟩) (semExec o op a) := by
  by_cases ha : a.semId = x
  · cases op with
    | nop => exact law_nop ha hl
    | init => exact law_init ha
    | wait => exact law_wait ha hl
    | post =>
      cases hw : bestWake (o.waitMask a.semId) a.prio with
      | some w => exact law_wake ha hl hw
      | none => exact law_add ha hl hw
  · exact law_other ha hl

theorem semCycle (u : HwSemaphore) (op : SemOp) (a : SemArgs) : SemCycle u.obj op a (u.step op a) := by
  refine ⟨?_, ?_, ?_, ?_, fun x hx => semExec_other u.obj op a hx⟩
  · rintro rfl
    by_cases hc : 0 < u.obj.count a.semId
    · have hans : semAnswer u.obj .wait a = ⟨true, false, none⟩ := if_pos hc
      rw [HwSemaphore.step_ans, hans, decide_eq_true hc, decide_eq_false ((pos_iff_ne_zero8 _).1 hc)]
    · have hz : u.obj.count a.semId = 0 := by
        by_contra hne
        exact hc ((pos_iff_ne_zero8 _).2 hne)
      have hans : semAnswer u.obj .wait a = ⟨false, true, none⟩ := if_neg hc
      rw [HwSemaphore.step_ans, hans, decide_eq_false hc, decide_eq_true hz]
  · intro hop hnobody
    subst hop
    have hw : bestWake (u.obj.waitMask a.semId) a.prio = none := bestWake_eq_none.2 hnobody
    by_cases hc : u.obj.count a.semId < u.obj.maxCount a.semId <;> simp [semAnswer, semExec, hw, hc, Answer.idle]
  · rintro rfl ⟨j, hj⟩
    cases hw : bestWake (u.obj.waitMask a.semId) a.prio with
    | none => exact absurd (bestWake_eq_none.1 hw j) (by simp [hj])
    | some t =>
      refine ⟨t, bestWake_best hw, ?_, ?_, ?_⟩
      · simp [semAnswer, hw]
      · simp [semExec, hw]
      · simp [semExec, hw]
  · intro hwake
    cases op with
    | nop => exact absurd rfl hwake
    | init => exact absurd rfl hwake
    | wait =>
      simp only [HwSemaphore.step_ans, semAnswer] at hwake
      split_ifs at hwake <;> exact absurd rfl hwake
    | post =>
      cases hw : bestWake (u.obj.waitMask a.semId) a.prio with
      | some t => exact ⟨rfl, t, bestWake_mem hw⟩
      | none =>
        simp only [HwSemaphore.step_ans, semAnswer, hw] at hwake
        split_ifs at hwake <;> exact absurd rfl hwake

end Operation

/-! ## Runs -/

namespace HwSemaphore

/-- one clock edge with the operation on the ports -/
def next (u : HwSemaphore) (i : SemOp × SemArgs) : HwSemaphore := u.step i.1 i.2

def events (u : HwSemaphore) (i : SemOp × SemArgs) : List SemEvent := [⟨i.1, i.2, (u.next i).ans⟩]

theorem law_run (ins : ℕ → SemOp × SemArgs) (n : ℕ) (x : SemId) :
    SemLaw x (SemHistory.of x (log events next reset ins n)) (trace next reset ins n).obj := by
  induction n with
  | zero =>
    refine ⟨rfl, rfl, Nat.zero_le _, fun t => ?_, fun _ => rfl⟩
    simp [SemHistory.of, reset, noWaiters, not_outstanding_nil]
  | succ n ih =>
    rw [log_succ, events, SemHistory.of_snoc]
    exact law_step (ins n).1 ih

/-- **The law of the unit**: for every sequence of operations, of any tasks with any priorities, each semaphore agrees
with its history after every cycle, and the next cycle is a `SemCycle`. -/
theorem unit_law (ins : ℕ → SemOp × SemArgs) (n : ℕ) :
    (∀ x, SemLaw x (SemHistory.of x (log events next reset ins n)) (trace next reset ins n).obj) ∧
      SemCycle (trace next reset ins n).obj (ins n).1 (ins n).2 (trace next reset ins (n + 1)) :=
  ⟨law_run ins n, semCycle _ (ins n).1 (ins n).2⟩

end HwSemaphore

end Vsync
