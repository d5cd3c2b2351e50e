/-
The semaphore syscalls and their tokens.

`SemWatch` runs the system beside a tally for each semaphore: the value of the last `sem_init`, the posts that woke
nobody and the waits that took a token since then. A call counts in the cycle in which the unit executes its request for
the first time. The unit executes it again in each cycle it still holds the code, the RTOS accepts the held request once
more when it is back in `S_IDLE`, and `sem_getvalue` and `sem_destroy` reach the unit as `INIT`.

- `law_iff`: one cycle keeps the token law exactly when it is `Undisturbed`.
- `token_law_iff`: so does a run.
- `init_loses_value`: `sem_init` with 5 leaves the count at 0.
-/
import Vsync.Posix.System

namespace Vsync

/-- an execution leaves every count as it is -/
def semKeepsCount (o : SemObj) (op : SemOp) (a : SemArgs) : Prop :=
  match op with
  | .nop => True
  | .init => o.count a.semId = a.initCount
  | .wait => o.count a.semId = 0
  | .post => bestWake (o.waitMask a.semId) a.prio ≠ none ∨ ¬ o.count a.semId < o.maxCount a.semId

/-- an execution leaves every wait mask as it is -/
def semKeepsWaiters (o : SemObj) (op : SemOp) (a : SemArgs) : Prop :=
  match op with
  | .nop => True
  | .init => ∀ t, o.waitMask a.semId t = false
  | .wait => 0 < o.count a.semId ∨ o.waitMask a.semId a.taskId = true
  | .post => ∀ t, o.waitMask a.semId t = false

theorem semExec_count_eq_iff (o : SemObj) (op : SemOp) (a : SemArgs) :
    (semExec o op a).count = o.count ↔ semKeepsCount o op a := by
  cases op with
  | nop => simp [semKeepsCount]
  | init =>
    simp only [semExec, semKeepsCount, Function.update_eq_self_iff]
    exact eq_comm
  | wait =>
    simp only [semExec, semKeepsCount]
    split_ifs with hc
    · have hz : o.count a.semId ≠ 0 := (pos_iff_ne_zero8 _).1 hc
      rw [Function.update_eq_self_iff]
      exact ⟨fun h => absurd h (by bv_omega), fun h => absurd h hz⟩
    · have hz : o.count a.semId = 0 := by
        by_contra h; exact hc ((pos_iff_ne_zero8 _).2 h)
      exact ⟨fun _ => hz, fun _ => rfl⟩
  | post =>
    simp only [semExec, semKeepsCount]
    cases hb : bestWake (o.waitMask a.semId) a.prio with
    | some w => simp
    | none =>
      simp only [ne_eq, not_true_eq_false, false_or]
      split_ifs with hc
      · rw [Function.update_eq_self_iff]
        exact ⟨fun h => absurd h (by bv_omega), fun h => absurd hc h⟩
      · exact ⟨fun _ => hc, fun _ => rfl⟩

theorem semExec_waitMask_eq_iff (o : SemObj) (op : SemOp) (a : SemArgs) :
    (semExec o op a).waitMask = o.waitMask ↔ semKeepsWaiters o op a := by
  cases op with
  | nop => simp [semKeepsWaiters]
  | init =>
    simp only [semExec, semKeepsWaiters, Function.update_eq_self_iff]
    exact ⟨fun h t => by rw [← h]; rfl, fun h => (funext h).symm⟩
  | wait =>
    simp only [semExec, semKeepsWaiters]
    split_ifs with hc
    · exact ⟨fun _ => Or.inl hc, fun _ => rfl⟩
    · rw [Function.update_eq_self_iff, Function.update_eq_self_iff]
      exact ⟨fun h => Or.inr h.symm, fun h => (h.resolve_left hc).symm⟩
  | post =>
    simp only [semExec, semKeepsWaiters]
    cases hb : bestWake (o.waitMask a.semId) a.prio with
    | some w =>
      have hw := bestWake_mem hb
      rw [Function.update_eq_self_iff, Function.update_eq_self_iff, hw]
      exact ⟨fun h => absurd h (by decide), fun h => (h w).symm.trans hw⟩
    | none =>
      have h := bestWake_eq_none.1 hb
      split_ifs <;> exact ⟨fun _ => h, fun _ => rfl⟩

namespace System

def semArg (s : System) : SemId := lowId 8 s.posix.arg0

/-- the RTOS issues the semaphore request of the layer in this cycle -/
def issuesSem (s : System) (i : SysIn) : Bool := s.rtos.issues (s.rtosIn i) == some .sem

theorem sem_of_semOp {s : System} (ho : s.OwnCategory) (h : s.posix.semOp ≠ 0) :
    s.posix.category = 2 ∧ s.posix.state ≠ .idle ∧ s.posix.semOp = PosixLayer.semCode s.posix.subop ∧
      s.posix.semId = s.semArg := by
  unfold PosixLayer.semOp PosixLayer.semId at *
  split_ifs at h ⊢ with hs
  · simp only [PosixLayer.serves, Bool.or_eq_true, Bool.and_eq_true, beq_iff_eq] at hs
    rcases hs with hs | ⟨hs, hc⟩
    · exact ⟨ho.2.2.1 hs, by simp [hs], rfl, rfl⟩
    · exact ⟨hc, by simp [hs], rfl, rfl⟩
  · exact absurd rfl h

/-- what is issued for the semaphore unit is on the request lines -/
theorem semOp_ne_zero_of_issues {s : System} {i : SysIn} (h : s.issuesSem i = true) : s.posix.semOp ≠ 0 := by
  simp only [issuesSem, beq_iff_eq, HwRtos.issues] at h
  split_ifs at h
  by_contra hz
  simp only [HwRtos.objRequest, rtosIn, hz, ne_eq, not_true_eq_false, if_false] at h
  split_ifs at h <;> simp at h

end System

/-- the value of the last `sem_init`, and the posts and takes since -/
structure Tally where
  base : ℕ
  posts : ℕ
  takes : ℕ
  deriving DecidableEq, Repr

structure SemWatch where
  sys : System
  tally : SemId → Tally
  /-- the request of the call in progress has been issued -/
  issued : Bool
  /-- the unit executes the request of the call in progress for the first time -/
  first : Bool
  /-- the call in progress is a `sem_getvalue` or a `sem_trywait` that found no token -/
  still : Bool

namespace SemWatch

variable (w : SemWatch)

def obj : SemObj := w.sys.rtos.sem.obj

def op : SemOp := SemOp.ofCode w.sys.rtos.semOpInt

def args (i : SysIn) : SemArgs := w.sys.rtos.semArgs (w.sys.rtosIn i)

/-- a wait or trywait takes a token at once -/
def Takes : Prop := 0 < w.obj.count w.sys.semArg

/-- a post succeeds and wakes nobody -/
def Adds : Prop :=
  bestWake (w.obj.waitMask w.sys.semArg) w.sys.rtos.prio = none ∧
    w.obj.count w.sys.semArg < w.obj.maxCount w.sys.semArg

instance : Decidable w.Takes := by unfold Takes; infer_instance

instance : Decidable w.Adds := by unfold Adds; infer_instance

/-- what the call in progress does to the tally of its semaphore -/
def tallyCall (t : Tally) : Tally :=
  match w.sys.posix.subop with
  | 0 => ⟨(w.sys.posix.arg1.setWidth 8).toNat, 0, 0⟩
  | 1 => if w.Takes then { t with takes := t.takes + 1 } else t
  | 2 => if w.Takes then { t with takes := t.takes + 1 } else t
  | 3 => if w.Takes then { t with takes := t.takes + 1 } else t
  | 4 => if w.Adds then { t with posts := t.posts + 1 } else t
  | 6 => ⟨0, 0, 0⟩
  | _ => t

/-- the call in progress must leave counts and waiters alone in this cycle -/
def MustKeep : Prop :=
  if w.first then w.sys.posix.subop = 5 ∨ w.sys.posix.subop = 2 ∧ ¬ w.Takes else w.still = true

instance : Decidable w.MustKeep := by unfold MustKeep; infer_instance

def reset : SemWatch := ⟨System.reset, fun _ => ⟨0, 0, 0⟩, false, false, false⟩

def step (i : SysIn) : SemWatch where
  sys := w.sys.step i
  tally := if w.first then Function.update w.tally w.sys.semArg (w.tallyCall (w.tally w.sys.semArg)) else w.tally
  issued := w.sys.issuesSem i || (w.issued && w.sys.posix.state != .semOp)
  first := w.sys.issuesSem i && !(w.issued && w.sys.posix.state != .semOp)
  still := !(w.sys.posix.latches (w.sys.posixIn i)) && decide w.MustKeep

def stateAt (ins : ℕ → SysIn) (n : ℕ) : SemWatch := Machine.trace step reset ins n

theorem stateAt_sys (ins : ℕ → SysIn) (n : ℕ) : (stateAt ins n).sys = System.stateAt ins n := by
  induction n with
  | zero => rfl
  | succ n ih => rw [System.stateAt_succ, ← ih]; rfl

/-- each count is the value of the last `sem_init`, plus the posts, minus the takes -/
def Tokens : Prop :=
  ∀ id, (w.obj.count id).toNat + (w.tally id).takes = (w.tally id).base + (w.tally id).posts

/-- the token law of one cycle -/
structure Law (w w' : SemWatch) : Prop where
  tokens : w'.Tokens
  keeps : w.MustKeep → w'.obj.count = w.obj.count ∧ w'.obj.waitMask = w.obj.waitMask

/-- the first execution of a call finds what its call promises; a further execution changes no count, and no waiters
where the call must keep them -/
def Undisturbed (i : SysIn) : Prop :=
  if w.first then
    match w.sys.posix.subop with
    | 0 => w.sys.posix.semValue = w.sys.posix.arg1.setWidth 8
    | 2 => w.Takes ∨ w.obj.waitMask w.sys.semArg w.sys.rtos.currentTaskIdR = true
    | 5 => w.obj.count w.sys.semArg = 0 ∧ ∀ t, w.obj.waitMask w.sys.semArg t = false
    | _ => True
  else
    semKeepsCount w.obj w.op (w.args i) ∧ (w.still = true → semKeepsWaiters w.obj w.op (w.args i))

/-- a first execution is of the code and the semaphore of the call -/
def FirstOk : Prop :=
  w.first = true → w.op = SemOp.ofCode (PosixLayer.semCode w.sys.posix.subop) ∧
    PosixLayer.semCode w.sys.posix.subop ≠ 0 ∧ w.sys.rtos.semIdInt = w.sys.semArg

theorem step_firstOk (i : SysIn) (ho : w.sys.OwnCategory) : (w.step i).FirstOk := by
  intro hf
  simp only [step, Bool.and_eq_true] at hf
  have h0 := System.semOp_ne_zero_of_issues hf.1
  obtain ⟨-, hst, hcode, hid⟩ := System.sem_of_semOp ho h0
  have hi : w.sys.rtos.issues (w.sys.rtosIn i) = some .sem := by simpa [System.issuesSem] using hf.1
  have hop : (w.sys.step i).rtos.semOpInt = w.sys.posix.semOp := by
    simp only [System.step, HwRtos.step, HwRtos.opIntNext, hi, if_true]; rfl
  have hsid : (w.sys.step i).rtos.semIdInt = w.sys.posix.semId := by
    simp only [System.step, HwRtos.step, hi, if_true]; rfl
  have harg : (w.sys.step i).semArg = w.sys.semArg := by simp [System.semArg, (System.step_num hst).2.1]
  refine ⟨?_, ?_, ?_⟩
  · simp only [op, step, hop, System.step_subop hst, hcode]
  · simp only [step, System.step_subop hst, ← hcode]; exact h0
  · simp only [step, hsid, harg, hid]

variable {w}

theorem step_obj (i : SysIn) : (w.step i).obj = semExec w.obj w.op (w.args i) := rfl

/-- the operands of a first execution -/
theorem args_first (i : SysIn) (hf : w.FirstOk) (h : w.first = true) :
    w.args i = ⟨w.sys.semArg, w.sys.rtos.currentTaskIdR, w.sys.posix.semValue, 0xFF, w.sys.rtos.prio⟩ := by
  simp [args, HwRtos.semArgs, (hf h).2.2, System.rtosIn]

/-! ## One cycle -/

/-- a further execution keeps the law exactly when it changes no count, nor the waiters it must keep -/
theorem law_iff_again (i : SysIn) (ht : w.Tokens) (h : w.first = false) : Law w (w.step i) ↔ w.Undisturbed i := by
  have htally : (w.step i).tally = w.tally := by simp [step, h]
  have hkeep : w.MustKeep ↔ w.still = true := by simp [MustKeep, h]
  have htok : (w.step i).Tokens ↔ semKeepsCount w.obj w.op (w.args i) := by
    rw [← semExec_count_eq_iff, ← step_obj]
    constructor
    · intro h'
      funext id
      have h1 := ht id
      have h2 := h' id
      rw [htally] at h2
      exact BitVec.eq_of_toNat_eq (by omega)
    · intro h' id
      rw [htally, h']
      exact ht id
  simp only [Undisturbed, h, Bool.false_eq_true, if_false, ← htok, ← semExec_waitMask_eq_iff, ← step_obj]
  constructor
  · rintro ⟨h1, h2⟩
    exact ⟨h1, fun hs => (h2 (hkeep.2 hs)).2⟩
  · rintro ⟨h1, h2⟩
    refine ⟨h1, fun hs => ⟨?_, h2 (hkeep.1 hs)⟩⟩
    have := htok.1 h1
    rwa [← semExec_count_eq_iff, ← step_obj] at this

theorem exec_other (o : SemObj) (op : SemOp) (a : SemArgs) {x : SemId} (hx : x ≠ a.semId) :
    (semExec o op a).count x = o.count x := (semExec_other o op a hx).1

/-- the tally after a first execution balances everywhere if it does at the semaphore of the call -/
theorem tokens_first (i : SysIn) (ht : w.Tokens) (hf : w.FirstOk) (h : w.first = true) :
    (w.step i).Tokens ↔
      ((w.step i).obj.count w.sys.semArg).toNat + (w.tallyCall (w.tally w.sys.semArg)).takes =
        (w.tallyCall (w.tally w.sys.semArg)).base + (w.tallyCall (w.tally w.sys.semArg)).posts := by
  have htally : (w.step i).tally = Function.update w.tally w.sys.semArg (w.tallyCall (w.tally w.sys.semArg)) := by
    simp [step, h]
  constructor
  · intro h'
    have := h' w.sys.semArg
    rwa [htally, Function.update_self] at this
  · intro h' id
    rw [htally]
    by_cases hid : id = w.sys.semArg
    · subst hid; rwa [Function.update_self]
    · rw [Function.update_of_ne hid, step_obj, exec_other _ _ _ (by rw [args_first i hf h]; exact hid)]
      exact ht id

theorem mustKeep_first (h : w.first = true) :
    w.MustKeep ↔ w.sys.posix.subop = 5 ∨ w.sys.posix.subop = 2 ∧ ¬ w.Takes := by
  simp [MustKeep, h]

theorem count_first (i : SysIn) (hf : w.FirstOk) (h : w.first = true) :
    (w.step i).obj = semExec w.obj (SemOp.ofCode (PosixLayer.semCode w.sys.posix.subop))
      ⟨w.sys.semArg, w.sys.rtos.currentTaskIdR, w.sys.posix.semValue, 0xFF, w.sys.rtos.prio⟩ := by
  rw [step_obj, (hf h).1, args_first i hf h]

/-- a first `WAIT` balances -/
theorem tokens_wait (i : SysIn) (ht : w.Tokens) (hf : w.FirstOk) (h : w.first = true)
    (hcode : PosixLayer.semCode w.sys.posix.subop = 0b10)
    (hcall : ∀ t, w.tallyCall t = if w.Takes then { t with takes := t.takes + 1 } else t) : (w.step i).Tokens := by
  rw [tokens_first i ht hf h, count_first i hf h, hcode, hcall]
  have hid := ht w.sys.semArg
  simp only [SemOp.ofCode, semExec]
  by_cases hc : 0 < w.obj.count w.sys.semArg
  · have htk : w.Takes := hc
    simp only [hc, htk, if_true]
    have : (w.obj.count w.sys.semArg - 1).toNat + 1 = (w.obj.count w.sys.semArg).toNat := by bv_omega
    simp only [reduceIte, BitVec.reduceEq, Function.update_self]
    omega
  · have htk : ¬ w.Takes := hc
    simp only [hc, htk, if_false, reduceIte, BitVec.reduceEq]
    exact hid

/-- a first `POST` balances -/
theorem tokens_post (i : SysIn) (ht : w.Tokens) (hf : w.FirstOk) (h : w.first = true) (hs : w.sys.posix.subop = 4) :
    (w.step i).Tokens := by
  rw [tokens_first i ht hf h, count_first i hf h, hs]
  have hid := ht w.sys.semArg
  simp only [PosixLayer.semCode, SemOp.ofCode, semExec, tallyCall, hs, reduceIte, BitVec.reduceEq]
  cases hb : bestWake (w.obj.waitMask w.sys.semArg) w.sys.rtos.prio with
  | some x =>
    have hn : ¬ w.Adds := by simp [Adds, hb]
    simpa only [hn, if_false] using hid
  | none =>
    by_cases hc : w.obj.count w.sys.semArg < w.obj.maxCount w.sys.semArg
    · have ha : w.Adds := ⟨hb, hc⟩
      simp only [hc, ha, if_true, Function.update_self]
      have : (w.obj.count w.sys.semArg + 1).toNat = (w.obj.count w.sys.semArg).toNat + 1 := by bv_omega
      omega
    · have ha : ¬ w.Adds := fun ha => hc ha.2
      simpa only [hc, ha, if_false] using hid

/-- the law of a first execution, for the calls that promise nothing about waiters -/
theorem law_of_tokens (i : SysIn) (h : w.first = true) (h5 : w.sys.posix.subop ≠ 5) (h2 : w.sys.posix.subop ≠ 2)
    (ht : (w.step i).Tokens) : Law w (w.step i) :=
  ⟨ht, fun hk => (((mustKeep_first h).1 hk).elim h5 fun h' => h2 h'.1).elim⟩

/-- what a first `sem_getvalue` or `sem_destroy` counts: both reach the unit as `INIT`, and the value port is 0 -/
theorem obj_first_zero (i : SysIn) (hf : w.FirstOk) (h : w.first = true)
    (hs : w.sys.posix.subop = 5 ∨ w.sys.posix.subop = 6) :
    (w.step i).obj = semExec w.obj .init ⟨w.sys.semArg, w.sys.rtos.currentTaskIdR, 0, 0xFF, w.sys.rtos.prio⟩ := by
  rw [count_first i hf h]
  rcases hs with hs | hs <;> simp [PosixLayer.semCode, PosixLayer.semValue, SemOp.ofCode, hs]

/-- a first `sem_trywait` keeps what it must exactly when it takes a token or its task waits already -/
theorem law_trywait (i : SysIn) (ht : w.Tokens) (hf : w.FirstOk) (h : w.first = true) (hs : w.sys.posix.subop = 2) :
    Law w (w.step i) ↔ w.Takes ∨ w.obj.waitMask w.sys.semArg w.sys.rtos.currentTaskIdR = true := by
  have htok : (w.step i).Tokens := tokens_wait i ht hf h (by rw [hs]; rfl) fun t => by simp [tallyCall, hs]
  have hobj := count_first i hf h
  rw [hs] at hobj
  change (w.step i).obj = semExec w.obj .wait _ at hobj
  constructor
  · intro hl
    by_cases hk : w.Takes
    · exact Or.inl hk
    · have hmask := (hl.keeps ((mustKeep_first h).2 (Or.inr ⟨hs, hk⟩))).2
      rw [hobj, semExec_waitMask_eq_iff] at hmask
      exact Or.inr (hmask.resolve_left hk)
  · intro hc
    refine ⟨htok, fun hk => ?_⟩
    have hnt : ¬ w.Takes := by
      rcases (mustKeep_first h).1 hk with h5 | ⟨-, hnt⟩
      · exact absurd (hs.symm.trans h5) (by decide)
      · exact hnt
    rw [hobj, semExec_count_eq_iff, semExec_waitMask_eq_iff]
    refine ⟨?_, Or.inr (hc.resolve_left hnt)⟩
    by_contra hz
    exact hnt ((pos_iff_ne_zero8 _).2 hz)

/-- a first `sem_getvalue` keeps what it must exactly when there is nothing to lose -/
theorem law_getvalue (i : SysIn) (ht : w.Tokens) (hf : w.FirstOk) (h : w.first = true) (hs : w.sys.posix.subop = 5) :
    Law w (w.step i) ↔ w.obj.count w.sys.semArg = 0 ∧ ∀ t, w.obj.waitMask w.sys.semArg t = false := by
  have hobj := obj_first_zero i hf h (Or.inl hs)
  have hk : w.MustKeep := (mustKeep_first h).2 (Or.inl hs)
  constructor
  · intro hl
    have hkeep := hl.keeps hk
    rw [hobj, semExec_count_eq_iff, semExec_waitMask_eq_iff] at hkeep
    exact hkeep
  · intro hc
    have hkeep : (w.step i).obj.count = w.obj.count ∧ (w.step i).obj.waitMask = w.obj.waitMask := by
      rw [hobj, semExec_count_eq_iff, semExec_waitMask_eq_iff]
      exact hc
    refine ⟨?_, fun _ => hkeep⟩
    rw [tokens_first i ht hf h, hkeep.1]
    simpa [tallyCall, hs] using ht w.sys.semArg

/-- **One cycle keeps the token law if and only if it is undisturbed.** -/
theorem law_iff (i : SysIn) (ht : w.Tokens) (hf : w.FirstOk) : Law w (w.step i) ↔ w.Undisturbed i := by
  cases h : w.first with
  | false => exact law_iff_again i ht h
  | true =>
    have hkeep := mustKeep_first h
    have hwait (k : ℕ) (hs : w.sys.posix.subop = k) (hk : k = 1 ∨ k = 3) : Law w (w.step i) := by
      refine law_of_tokens i h (by omega) (by omega) (tokens_wait i ht hf h ?_ fun t => ?_)
      · rcases hk with rfl | rfl <;> rw [hs] <;> rfl
      · rcases hk with rfl | rfl <;> simp [tallyCall, hs]
    simp only [Undisturbed, h, if_true]
    rcases hs : w.sys.posix.subop with _ | _ | _ | _ | _ | _ | _ | n
    · -- sem_init
      have htok : (w.step i).Tokens ↔ w.sys.posix.semValue = w.sys.posix.arg1.setWidth 8 := by
        rw [tokens_first i ht hf h, count_first i hf h]
        simp only [PosixLayer.semCode, SemOp.ofCode, semExec, tallyCall, hs, reduceIte, BitVec.reduceEq,
          Function.update_self, Nat.add_zero]
        exact BitVec.toNat_inj
      rw [← htok]
      exact ⟨fun hl => hl.tokens, law_of_tokens i h (by omega) (by omega)⟩
    · exact iff_of_true (hwait 1 hs (by simp)) trivial
    · exact law_trywait i ht hf h hs
    · exact iff_of_true (hwait 3 hs (by simp)) trivial
    · exact iff_of_true (law_of_tokens i h (by omega) (by omega) (tokens_post i ht hf h hs)) trivial
    · exact law_getvalue i ht hf h hs
    · -- sem_destroy
      refine iff_of_true (law_of_tokens i h (by omega) (by omega) ?_) trivial
      rw [tokens_first i ht hf h, obj_first_zero i hf h (Or.inr hs)]
      simp [semExec, tallyCall, hs]
    · exact absurd (by simp [hs, PosixLayer.semCode]) (hf h).2.1

/-! ## Runs -/

theorem stateAt_succ (ins : ℕ → SysIn) (n : ℕ) : stateAt ins (n + 1) = (stateAt ins n).step (ins n) := rfl

theorem firstOk (ins : ℕ → SysIn) (n : ℕ) : (stateAt ins n).FirstOk := by
  cases n with
  | zero => intro h; exact Bool.noConfusion h
  | succ n =>
    rw [stateAt_succ]
    refine step_firstOk _ _ ?_
    rw [stateAt_sys]
    exact System.ownCategory ins n

/-- **Tokens are conserved exactly as long as no cycle is disturbed.** -/
theorem token_law_iff (ins : ℕ → SysIn) (n : ℕ) :
    (∀ k < n, Law (stateAt ins k) (stateAt ins (k + 1))) ↔ ∀ k < n, (stateAt ins k).Undisturbed (ins k) := by
  have htok (hlaw : ∀ k < n, (stateAt ins k).Tokens → Law (stateAt ins k) (stateAt ins (k + 1))) :
      ∀ k ≤ n, (stateAt ins k).Tokens := by
    intro k
    induction k with
    | zero => intro _ id; rfl
    | succ k ih => intro hk; exact (hlaw k hk (ih (by omega))).tokens
  constructor
  · intro h k hk
    exact (law_iff (ins k) (htok (fun j hj _ => h j hj) k hk.le) (firstOk ins k)).1 (h k hk)
  · intro h k hk
    have hstep : ∀ j < n, (stateAt ins j).Tokens → Law (stateAt ins j) (stateAt ins (j + 1)) :=
      fun j hj ht => (law_iff (ins j) ht (firstOk ins j)).2 (h j hj)
    exact hstep k hk (htok hstep k hk.le)

def initRun (k : ℕ) : SysIn := if k = 0 then SysIn.call 0x20 0 5 0 else SysIn.quiet

/-- **A `sem_init` loses its value.** The RTOS is back in `S_IDLE` while the layer still holds the request of the
`sem_init` with 5, accepts it once more, and the unit executes it when the layer no longer drives the value. -/
theorem init_loses_value :
    (stateAt initRun 6).obj.count 0 = 5 ∧ (stateAt initRun 7).obj.count 0 = 0 ∧
      (stateAt initRun 7).tally 0 = ⟨5, 0, 0⟩ ∧ ¬ Law (stateAt initRun 6) (stateAt initRun (6 + 1)) := by
  have h : (stateAt initRun 6).obj.count 0 = 5 ∧ (stateAt initRun 7).obj.count 0 = 0 ∧
      (stateAt initRun 7).tally 0 = ⟨5, 0, 0⟩ := by decide +kernel
  obtain ⟨h1, h2, h3⟩ := h
  refine ⟨h1, h2, h3, fun hl => ?_⟩
  have := hl.tokens 0
  rw [h2, h3] at this
  exact absurd this (by decide)

end SemWatch

end Vsync
