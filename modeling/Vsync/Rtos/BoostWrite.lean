/-
The write-back of a priority boost in `hw_rtos`.

The boost of `hw_mutex` is latched, and two cycles later the TCB array is written. The multiplexer in front of the write
port looks at the latch of one cycle before: it sees the boost only when another one follows in the next cycle.

- `BoostWritten`: the write changes the priority of the boosted task and nothing else.
- `one_write`: each boost has one write, two cycles later.
- `Repeats`: the mutex unit executes an operation again that gives the same boost; an operation is held for two cycles.
- `boost_written_iff`: a boost is written as it should be exactly when it repeats, up to a write of entry 0 that changes
  nothing. Failing input:
- `unlock_overwrites`: task 1 locks and unlocks a mutex; its last boost writes its TCB over entry 0.
-/
import Vsync.Rtos.Phases

namespace Vsync.HwRtos

/-- the write in this cycle sets the priority of entry `id` and leaves its other fields and the other entries to the
other ports -/
structure BoostWritten (s : HwRtos) (i : RtosIn) (id : TaskId) (val : Prio) : Prop where
  write : s.tcbWr = some (id, { s.tcb id with prioLevel := val })
  entry : (s.step i).tcb id = Tcb.reload id (Tcb.stateWrite id { s.tcb id with prioLevel := val } s.stateWr) s.tsReload
  others : ∀ j ≠ id, (s.step i).tcb j = s.tcb.step { s.tcbPorts with tcbWr := none } j

/-- the unit executes an operation in this cycle that gives this boost: a lock that raises the owner, or an unlock that
restores the priority of the current task -/
def Repeats (s : HwRtos) (id : TaskId) (val : Prio) : Prop :=
  s.mutex.obj.locked s.mutexIdInt = true ∧ s.mutex.obj.ownerId s.mutexIdInt = id ∧
    match MutexOp.ofCode s.mutexOpInt with
    | .nop => False
    | .lock => s.prio id < s.prio s.currentTaskIdR ∧ s.prio s.currentTaskIdR = val
    | .unlock => id = s.currentTaskIdR ∧ s.mutex.obj.originalPrio s.mutexIdInt = val

variable {s : HwRtos} {i : RtosIn} {id : TaskId} {val : Prio}

/-! ## One write -/

/-- a write of the priority alone leaves the rest to the other ports -/
theorem boostWritten_of_write (h : s.tcbWr = some
    (id, { s.tcb id with prioLevel := val })) : BoostWritten s i id val := by
  refine ⟨h, ?_, fun j hj => ?_⟩
  · change s.tcb.step s.tcbPorts id = _
    rw [TcbArray.step, tcbPorts, h, Tcb.write, if_pos rfl]
  · change s.tcb.step s.tcbPorts j = _
    rw [TcbArray.step, TcbArray.step, tcbPorts, h, Tcb.write, if_neg (Ne.symm hj)]
    rfl

/-- the boost that the unit registers in this cycle -/
theorem step_boost_iff : (s.step i).mutex.boost = some (id, val) ↔ Repeats s id val := by
  change mutexBoost s.mutex.obj (MutexOp.ofCode s.mutexOpInt) s.mutexArgs = _ ↔ _
  rw [Repeats]
  cases MutexOp.ofCode s.mutexOpInt with
  | nop => simp [mutexBoost]
  | lock =>
    by_cases hboost : s.mutex.obj.locked s.mutexIdInt = true ∧
      s.prio (s.mutex.obj.ownerId s.mutexIdInt) < s.prio s.currentTaskIdR
    · have hb : mutexBoost s.mutex.obj .lock s.mutexArgs =
          some (s.mutex.obj.ownerId s.mutexIdInt, s.prio s.currentTaskIdR) :=
        if_pos hboost
      rw [hb, Option.some.injEq, Prod.mk.injEq]
      constructor
      · rintro ⟨rfl, hval⟩
        exact ⟨hboost.1, rfl, hboost.2, hval⟩
      · rintro ⟨-, hid, -, hval⟩
        exact ⟨hid, hval⟩
    · have hb : mutexBoost s.mutex.obj .lock s.mutexArgs = none := if_neg hboost
      rw [hb]
      refine ⟨fun h => absurd h (by simp), ?_⟩
      rintro ⟨hlocked, rfl, hlt, -⟩
      exact absurd ⟨hlocked, hlt⟩ hboost
  | unlock =>
    by_cases hboost : s.mutex.obj.locked s.mutexIdInt = true ∧ s.mutex.obj.ownerId s.mutexIdInt = s.currentTaskIdR
    · have hb : mutexBoost s.mutex.obj .unlock s.mutexArgs =
          some (s.currentTaskIdR, s.mutex.obj.originalPrio s.mutexIdInt) :=
        if_pos hboost
      rw [hb, Option.some.injEq, Prod.mk.injEq]
      constructor
      · rintro ⟨hid, hval⟩
        exact ⟨hboost.1, hboost.2.trans hid, hid.symm, hval⟩
      · rintro ⟨-, -, hid, hval⟩
        exact ⟨hid.symm, hval⟩
    · have hb : mutexBoost s.mutex.obj .unlock s.mutexArgs = none := if_neg hboost
      rw [hb]
      refine ⟨fun h => absurd h (by simp), ?_⟩
      rintro ⟨hlocked, howner, hid, -⟩
      exact absurd ⟨hlocked, howner.trans hid⟩ hboost

/-! ## From the boost to the write -/

section Run

variable {ins : ℕ → RtosIn} {t : ℕ}

/-- the boost of a cycle is the one of the operation before it -/
theorem boost_succ_iff (ins : ℕ → RtosIn) (t : ℕ) (id : TaskId) (val : Prio) :
    (stateAt ins (t + 1)).mutex.boost = some (id, val) ↔ Repeats (stateAt ins t) id val := step_boost_iff

/-- the write enable is the boost of two cycles before -/
theorem tcbWrEn_eq (ins : ℕ → RtosIn) (t : ℕ) : (stateAt ins (t + 2)).tcbWrEn =
    (stateAt ins t).mutex.boost.isSome := rfl

/-- **Each boost has one write**, two cycles behind it. -/
theorem one_write (ins : ℕ → RtosIn) (t : ℕ) : (stateAt ins (t + 2)).tcbWr.isSome =
    (stateAt ins t).mutex.boost.isSome := by
  rw [tcbWr, tcbWrEn_eq]
  cases (stateAt ins t).mutex.boost.isSome with
  | true => rfl
  | false => rfl

/-- the write when another boost follows: of that boost -/
theorem tcbWr_of_next {id' : TaskId} {val' : Prio} (h : (stateAt ins t).mutex.boost = some (id, val))
    (hnext : (stateAt ins (t + 1)).mutex.boost = some (id', val')) :
    (stateAt ins (t + 2)).tcbWr = some (id', { (stateAt ins (t + 2)).tcb id' with prioLevel := val' }) := by
  have hpending : (stateAt ins (t + 2)).prioBoostWrPending = true := by
    change (stateAt ins (t + 1)).mutex.boost.isSome = true
    rw [hnext]
    rfl
  have hid : (stateAt ins (t + 2)).prioBoostIdR = id' := by
    rw [stateAt_succ, step]
    simp only [hnext]
  have hval : (stateAt ins (t + 2)).prioBoostValR = val' := by
    rw [stateAt_succ, step]
    simp only [hnext]
  have hrd : (stateAt ins (t + 2)).tcbRdId = id' := ((phased_run ins (t + 2)).boosts).trans hid
  rw [tcbWr, tcbWrEn_eq, h, hpending, hid, hval, hrd]
  rfl

/-- the write when none follows: the TCB that was to be boosted, as it is, over entry 0 -/
theorem tcbWr_of_last (h : (stateAt ins t).mutex.boost = some (id, val))
    (hnext : (stateAt ins (t + 1)).mutex.boost = none) :
    (stateAt ins (t + 2)).tcbWr = some (0, (stateAt ins (t + 2)).tcb id) := by
  have hpending : (stateAt ins (t + 2)).prioBoostWrPending = false := by
    change (stateAt ins (t + 1)).mutex.boost.isSome = false
    rw [hnext]
    rfl
  have hrd : (stateAt ins (t + 2)).tcbRdId = id := by
    rw [stateAt_succ, step]
    simp only [hnext]
    rw [stateAt_succ, step]
    simp only [h]
  rw [tcbWr, tcbWrEn_eq, h, hpending, hrd]
  rfl

end Run

/-- **When a boost is written**: the write of a boost changes the priority of its task and nothing else exactly when the
unit gives the same boost again in the next cycle, or when it gives none and the write of entry 0 is one of what it
holds. -/
theorem boost_written_iff (ins : ℕ → RtosIn) (t : ℕ) (id : TaskId) (val : Prio)
    (h : (stateAt ins t).mutex.boost = some (id, val)) :
    BoostWritten (stateAt ins (t + 2)) (ins (t + 2)) id val ↔ Repeats (stateAt ins t) id val ∨
      (∀ id' val', ¬ Repeats (stateAt ins t) id' val') ∧ id = 0 ∧ ((stateAt ins (t + 2)).tcb 0).prioLevel = val := by
  simp only [← boost_succ_iff]
  cases hnext : (stateAt ins (t + 1)).mutex.boost with
  | some b =>
    obtain ⟨id', val'⟩ := b
    have hwr := tcbWr_of_next h hnext
    constructor
    · intro hw
      rw [hw.write] at hwr
      obtain ⟨rfl, htcb⟩ := Prod.mk.inj (Option.some.inj hwr)
      obtain rfl : val = val' := congrArg Tcb.prioLevel htcb
      exact .inl rfl
    · rintro (heq | ⟨hno, -⟩)
      · obtain ⟨rfl, rfl⟩ := Prod.mk.inj (Option.some.inj heq)
        exact boostWritten_of_write hwr
      · exact absurd rfl (hno id' val')
  | none =>
    have hwr := tcbWr_of_last h hnext
    constructor
    · intro hw
      rw [hw.write] at hwr
      obtain ⟨rfl, htcb⟩ := Prod.mk.inj (Option.some.inj hwr)
      exact .inr ⟨by simp, rfl, (congrArg Tcb.prioLevel htcb).symm⟩
    · rintro (heq | ⟨-, rfl, hval⟩)
      · exact absurd heq (by simp)
      · refine boostWritten_of_write (hwr.trans ?_)
        rw [← hval]

def lockTwice (k : ℕ) : RtosIn :=
  { RtosIn.quiet with
    taskCreate := k == 6
    createArgs := ⟨0x100, 0x800, 3⟩
    mutexOp := if k = 0 ∨ k = 36 then 0b01 else 0 }

/-- the witness: the lock is executed in cycles 37 and 38, and its first boost is written -/
theorem first_boost_written : BoostWritten (stateAt lockTwice 40) (lockTwice 40) 0 3 := by
  have hagain : (stateAt lockTwice 39).mutex.boost = some (0, 3) := by decide +kernel
  exact (boost_written_iff lockTwice 38 0 3 (by decide +kernel)).2 (.inl ((boost_succ_iff lockTwice 38 0 3).1 hagain))

/-! ## An unlock -/

section Unlock

variable {ins : ℕ → RtosIn} {n : ℕ} {m : MutexId}

/-- what the operation register of a cycle makes of the object and of the boost -/
theorem executed (op : MutexOp) (hop : MutexOp.ofCode (stateAt ins n).mutexOpInt = op) :
    (stateAt ins (n + 1)).mutex.obj = mutexExec (stateAt ins n).mutex.obj op (stateAt ins n).mutexArgs ∧
      (stateAt ins (n + 1)).mutex.boost = mutexBoost (stateAt ins n).mutex.obj op (stateAt ins n).mutexArgs := by
  rw [← hop]
  exact ⟨rfl, rfl⟩

theorem kept_of_nop (ins : ℕ → RtosIn) (n : ℕ) (hop : (stateAt ins n).mutexOpInt = 0) :
    (stateAt ins (n + 1)).mutex.obj = (stateAt ins n).mutex.obj :=
  (executed .nop (by rw [hop]; rfl)).1

theorem owner_of_relock (ins : ℕ → RtosIn) (n : ℕ) (hop : (stateAt ins n).mutexOpInt = 0b01)
    (hid : (stateAt ins n).mutexIdInt = m) (hlocked : (stateAt ins n).mutex.obj.locked m = true) :
    (stateAt ins (n + 1)).mutex.obj.locked = (stateAt ins n).mutex.obj.locked ∧
      (stateAt ins (n + 1)).mutex.obj.ownerId = (stateAt ins n).mutex.obj.ownerId ∧
        (stateAt ins (n + 1)).mutex.obj.originalPrio = (stateAt ins n).mutex.obj.originalPrio := by
  have hheld : (stateAt ins n).mutex.obj.locked (stateAt ins n).mutexArgs.mutexId = true := by
    rw [mutexArgs, hid]
    exact hlocked
  rw [(executed .lock (by rw [hop]; rfl)).1, mutexExec, if_pos hheld]
  exact ⟨rfl, rfl, rfl⟩

/-- a task that locks a mutex, finds it held by itself and unlocks it gets its priority back -/
theorem boost_of_unlock (ins : ℕ → RtosIn) (n : ℕ) (hlock : (stateAt ins n).mutexOpInt = 0b01)
    (hm : (stateAt ins n).mutexIdInt = m) (hlocked : (stateAt ins n).mutex.obj.locked m = true)
    (howner : (stateAt ins n).mutex.obj.ownerId m = id) (hprio : (stateAt ins n).mutex.obj.originalPrio m = val)
    (hnop : (stateAt ins (n + 1)).mutexOpInt = 0) (hop : (stateAt ins (n + 2)).mutexOpInt = 0b10)
    (hm' : (stateAt ins (n + 2)).mutexIdInt = m) (hcur : (stateAt ins (n + 2)).currentTaskIdR = id) :
    (stateAt ins (n + 3)).mutex.boost = some (id, val) := by
  obtain ⟨h1, h2, h3⟩ := owner_of_relock ins n hlock hm hlocked
  rw [boost_succ_iff, Repeats, kept_of_nop ins (n + 1) hnop, h1, h2, h3, hm', hop, hcur]
  exact ⟨hlocked, howner, rfl, hprio⟩

theorem unlock_succeeds (o : MutexObj) (a : MutexArgs) : (mutexAnswer o .unlock a).success = true := by
  rw [mutexAnswer]
  split <;> rfl

/-- an unlock leaves the operation register one cycle behind its first execution -/
theorem unlock_leaves (hop : (stateAt ins n).mutexOpInt = 0b10) (hfsm : (stateAt ins (n + 1)).fsmState = .blockTask) :
    (stateAt ins (n + 2)).mutexOpInt = 0 := by
  have hanswer : ((stateAt ins (n + 1)).answerOf .mutex).success = true := by
    change (mutexAnswer (stateAt ins n).mutex.obj (MutexOp.ofCode (stateAt ins n).mutexOpInt) _).success = true
    rw [hop]
    exact unlock_succeeds _ _
  have hissues : (stateAt ins (n + 1)).issues (ins (n + 1)) ≠ some .mutex := by
    rw [issues, if_neg (by simp [hfsm])]
    simp
  change (stateAt ins (n + 1)).opIntNext (ins (n + 1)) .mutex _ _ = 0
  rw [opIntNext, if_neg hissues, hanswer]
  split <;> rfl

/-- a boost of another entry than 0 with no operation in the next cycle is not written -/
theorem not_written_of_last (h : (stateAt ins n).mutex.boost = some (id, val)) (hid : id ≠ 0)
    (hnext : (stateAt ins (n + 1)).mutex.boost = none) : ¬ BoostWritten (stateAt ins (n + 2)) (ins (n + 2)) id val := by
  intro hw
  have hwrite := hw.write
  rw [tcbWr_of_last h hnext] at hwrite
  exact hid (congrArg Prod.fst (Option.some.inj hwrite)).symm

/-- **An unlock of a task other than 0 leaves a boost behind that is not written**: its last one, in whichever of its
two cycles that is. -/
theorem unlock_not_written (ins : ℕ → RtosIn) (n : ℕ) (hop : (stateAt ins n).mutexOpInt = 0b10)
    (hop' : (stateAt ins (n + 1)).mutexOpInt = 0b10)
    (hfsm : (stateAt ins (n + 1)).fsmState = .blockTask) (hcur : (stateAt ins (n + 1)).currentTaskIdR ≠ 0)
    (hid : id ≠ 0)
    (h : (stateAt ins (n + 1)).mutex.boost = some (id, val)) :
    ¬ ∀ t id val, (stateAt ins t).mutex.boost = some (id, val) →
      BoostWritten (stateAt ins (t + 2)) (ins (t + 2)) id val := by
  intro hall
  have hnop := unlock_leaves hop hfsm
  cases hlast : (stateAt ins (n + 2)).mutex.boost with
  | none => exact not_written_of_last h hid hlast (hall (n + 1) id val h)
  | some b =>
    obtain ⟨id', val'⟩ := b
    have hnone : (stateAt ins (n + 3)).mutex.boost = none := (executed .nop (by rw [hnop]; rfl)).2
    have hagain : Repeats (stateAt ins (n + 1)) id' val' := (boost_succ_iff ins (n + 1) id' val').1 hlast
    have hid' : id' = (stateAt ins (n + 1)).currentTaskIdR := by
      rw [Repeats, hop'] at hagain
      exact hagain.2.2.1
    exact not_written_of_last hlast (hid'.trans_ne hcur) hnone (hall (n + 2) id' val' hlast)

end Unlock

/-- task 1 runs from cycle 24 on, locks mutex 0 in cycle 24 and unlocks it in cycle 27 -/
def unlockTwice (k : ℕ) : RtosIn :=
  { RtosIn.quiet with
    taskCreate := k == 0
    createArgs := ⟨0x100, 0x800, 3⟩
    mutexOp := if k = 24 then 0b01 else if k = 27 then 0b10 else 0 }

/-- the lock is executed in cycles 25 and 26 and the unlock in cycle 28 -/
theorem unlockTwice_boost : (stateAt unlockTwice 29).mutex.boost = some (1, 3) :=
  @boost_of_unlock 1 3 0 unlockTwice 26 (by decide +kernel) (by decide +kernel) (by decide +kernel) (by decide +kernel)
    (by decide +kernel) (by decide +kernel) (by decide +kernel) (by decide +kernel) (by decide +kernel)

/-- **The last boost of task 1 overwrites entry 0.** -/
theorem unlock_overwrites : ¬ ∀ (ins : ℕ → RtosIn) (t : ℕ) (id : TaskId) (val : Prio),
    (stateAt ins t).mutex.boost = some (id, val) → BoostWritten (stateAt ins (t + 2)) (ins (t + 2)) id val := by
  intro h
  exact unlock_not_written unlockTwice 28 (by decide +kernel) (by decide +kernel) (by decide +kernel)
    (by decide +kernel) (by decide) unlockTwice_boost (h unlockTwice)

end Vsync.HwRtos
