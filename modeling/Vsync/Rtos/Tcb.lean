/-
`tcb_array.sv`: the task control blocks and their update ports.

A write port of the source (an enable with its id and data) is an `Option`: `none` is the enable low. The entry a cycle
leaves is computed per id; the order of the updates is the order of the assignments in the source, so that a later port
wins over an earlier one.
-/
import Vsync.Pkg

namespace Vsync

/-- `create_pc`, `create_sp`, `create_prio` -/
structure CreateArgs where
  pc : Word
  sp : Word
  prio : Prio
  deriving DecidableEq, Repr

/-- the write ports in one cycle -/
structure TcbPorts where
  create : Option (TaskId × CreateArgs)
  delete : Option TaskId
  tcbWr : Option (TaskId × Tcb)
  stateWr : Option (TaskId × TaskState)
  tsReload : Option (TaskId × Slice)

abbrev TcbArray := TaskId → Tcb

def TcbArray.reset : TcbArray := fun i => ⟨i, 0, .dormant, 0, 0, 0, false⟩

/-- the automatic decrement of a running task's time slice -/
def Tcb.tick (e : Tcb) : Tcb :=
  if e.valid = true ∧ e.state = .running ∧ 0 < e.timeSlice then { e with timeSlice := e.timeSlice - 1 } else e

def Tcb.create (i : TaskId) (e : Tcb) : Option (TaskId × CreateArgs) → Tcb
  | some (c, a) => if c = i then ⟨i, a.prio, .ready, a.pc, a.sp, 0xFFFF, true⟩ else e
  | none => e

def Tcb.delete (i : TaskId) (e : Tcb) : Option TaskId → Tcb
  | some d => if d = i then { e with state := .dormant, valid := false } else e
  | none => e

def Tcb.write (i : TaskId) (e : Tcb) : Option (TaskId × Tcb) → Tcb
  | some (w, d) => if w = i then d else e
  | none => e

def Tcb.stateWrite (i : TaskId) (e : Tcb) : Option (TaskId × TaskState) → Tcb
  | some (w, st) => if w = i then { e with state := st } else e
  | none => e

def Tcb.reload (i : TaskId) (e : Tcb) : Option (TaskId × Slice) → Tcb
  | some (w, v) => if w = i then { e with timeSlice := v } else e
  | none => e

/-- one clock edge of the array -/
def TcbArray.step (t : TcbArray) (p : TcbPorts) : TcbArray := fun i =>
  Tcb.reload i
    (Tcb.stateWrite i (Tcb.write i (Tcb.delete i (Tcb.create i (t i).tick p.create) p.delete) p.tcbWr) p.stateWr)
    p.tsReload

/-- `free_task_id` / `free_task_found`: the first invalid entry, entry 0 left out -/
def freeTask (t : TcbArray) : Option TaskId :=
  ((List.finRange 16).drop 1).find? fun i => !(t i).valid

theorem freeTask_some {t : TcbArray} {i : TaskId} (h : freeTask t = some i) : i ≠ 0 ∧ (t i).valid = false := by
  refine ⟨?_, by simpa using List.find?_some h⟩
  rintro rfl
  exact absurd (List.mem_of_find?_eq_some h) (by decide)

/-! ## The fields after a cycle -/

section Fields

variable (i : TaskId) (e : Tcb)

@[simp] theorem Tcb.tick_valid : e.tick.valid = e.valid := by unfold Tcb.tick; split_ifs <;> rfl

@[simp] theorem Tcb.tick_state : e.tick.state = e.state := by unfold Tcb.tick; split_ifs <;> rfl

@[simp] theorem Tcb.tick_prioLevel : e.tick.prioLevel = e.prioLevel := by unfold Tcb.tick; split_ifs <;> rfl

@[simp] theorem Tcb.tick_pc : e.tick.pc = e.pc := by unfold Tcb.tick; split_ifs <;> rfl

@[simp] theorem Tcb.tick_sp : e.tick.sp = e.sp := by unfold Tcb.tick; split_ifs <;> rfl

@[simp] theorem Tcb.create_none : Tcb.create i e none = e := rfl

@[simp] theorem Tcb.delete_none : Tcb.delete i e none = e := rfl

@[simp] theorem Tcb.write_none : Tcb.write i e none = e := rfl

@[simp] theorem Tcb.stateWrite_none : Tcb.stateWrite i e none = e := rfl

@[simp] theorem Tcb.reload_none : Tcb.reload i e none = e := rfl

@[simp] theorem Tcb.stateWrite_valid (p : Option (TaskId × TaskState)) : (Tcb.stateWrite i e p).valid = e.valid := by
  rcases p with _ | ⟨w, st⟩
  · rfl
  · simp only [Tcb.stateWrite]; split_ifs <;> rfl

@[simp] theorem Tcb.reload_valid (p : Option (TaskId × Slice)) : (Tcb.reload i e p).valid = e.valid := by
  rcases p with _ | ⟨w, v⟩
  · rfl
  · simp only [Tcb.reload]; split_ifs <;> rfl

@[simp] theorem Tcb.reload_state (p : Option (TaskId × Slice)) : (Tcb.reload i e p).state = e.state := by
  rcases p with _ | ⟨w, v⟩
  · rfl
  · simp only [Tcb.reload]; split_ifs <;> rfl

@[simp] theorem Tcb.stateWrite_pc (p : Option (TaskId × TaskState)) : (Tcb.stateWrite i e p).pc = e.pc := by
  rcases p with _ | ⟨w, st⟩
  · rfl
  · simp only [Tcb.stateWrite]; split_ifs <;> rfl

@[simp] theorem Tcb.reload_pc (p : Option (TaskId × Slice)) : (Tcb.reload i e p).pc = e.pc := by
  rcases p with _ | ⟨w, v⟩
  · rfl
  · simp only [Tcb.reload]; split_ifs <;> rfl

@[simp] theorem Tcb.stateWrite_sp (p : Option (TaskId × TaskState)) : (Tcb.stateWrite i e p).sp = e.sp := by
  rcases p with _ | ⟨w, st⟩
  · rfl
  · simp only [Tcb.stateWrite]; split_ifs <;> rfl

@[simp] theorem Tcb.reload_sp (p : Option (TaskId × Slice)) : (Tcb.reload i e p).sp = e.sp := by
  rcases p with _ | ⟨w, v⟩
  · rfl
  · simp only [Tcb.reload]; split_ifs <;> rfl

@[simp] theorem Tcb.stateWrite_prioLevel (p : Option (TaskId × TaskState)) :
    (Tcb.stateWrite i e p).prioLevel = e.prioLevel := by
  rcases p with _ | ⟨w, st⟩
  · rfl
  · simp only [Tcb.stateWrite]; split_ifs <;> rfl

@[simp] theorem Tcb.reload_prioLevel (p : Option (TaskId × Slice)) : (Tcb.reload i e p).prioLevel = e.prioLevel := by
  rcases p with _ | ⟨w, v⟩
  · rfl
  · simp only [Tcb.reload]; split_ifs <;> rfl

theorem Tcb.create_of_ne {p : Option (TaskId × CreateArgs)} (h : ∀ a, p ≠ some (i, a)) : Tcb.create i e p = e := by
  rcases p with _ | ⟨c, a⟩
  · rfl
  · have hc : c ≠ i := fun hc => h a (by rw [hc])
    simp [Tcb.create, hc]

theorem Tcb.delete_of_ne {p : Option TaskId} (h : p ≠ some i) : Tcb.delete i e p = e := by
  rcases p with _ | d
  · rfl
  · have hd : d ≠ i := fun hd => h (by rw [hd])
    simp [Tcb.delete, hd]

theorem Tcb.stateWrite_of_ne {p : Option (TaskId × TaskState)} (h : ∀ st, p ≠ some (i, st)) :
    Tcb.stateWrite i e p = e := by
  rcases p with _ | ⟨w, st⟩
  · rfl
  · have hw : w ≠ i := fun hw => h st (by rw [hw])
    simp [Tcb.stateWrite, hw]

theorem Tcb.delete_valid_iff (p : Option TaskId) :
    (Tcb.delete i e p).valid = true ↔ p ≠ some i ∧ e.valid = true := by
  by_cases h : p = some i
  · simp [h, Tcb.delete]
  · simp [Tcb.delete_of_ne i e h, h]

theorem Tcb.create_valid_iff (p : Option (TaskId × CreateArgs)) :
    (Tcb.create i e p).valid = true ↔ e.valid = true ∨ ∃ a, p = some (i, a) := by
  by_cases h : ∃ a, p = some (i, a)
  · obtain ⟨a, rfl⟩ := h
    simp [Tcb.create]
  · rw [Tcb.create_of_ne i e fun a ha => h ⟨a, ha⟩]
    simp [h]

variable {e} {e' : Tcb}

/-- a created entry is READY and a deleted one is not valid: a valid entry in another state has neither behind it -/
theorem Tcb.of_create_delete {c : Option (TaskId × CreateArgs)} {d : Option TaskId} {st : TaskState} (hst : st ≠ .ready)
    (hv : (Tcb.delete i (Tcb.create i e c) d).valid = true) (hs : (Tcb.delete i (Tcb.create i e c) d).state = st) :
    e.valid = true ∧ e.state = st := by
  have hd : d ≠ some i := ((Tcb.delete_valid_iff i _ d).1 hv).1
  rw [Tcb.delete_of_ne i _ hd] at hv hs
  by_cases hc : ∃ a, c = some (i, a)
  · obtain ⟨a, rfl⟩ := hc
    simp only [Tcb.create, if_true] at hs
    exact absurd hs.symm hst
  · rw [Tcb.create_of_ne i e fun a ha => hc ⟨a, ha⟩] at hv hs
    exact ⟨hv, hs⟩

theorem Tcb.create_valid_congr (p : Option (TaskId × CreateArgs)) (h : e.valid = e'.valid) :
    (Tcb.create i e p).valid = (Tcb.create i e' p).valid := by
  rcases p with _ | ⟨c, a⟩
  · exact h
  · simp only [Tcb.create]; split_ifs <;> [rfl; exact h]

theorem Tcb.create_state_congr (p : Option (TaskId × CreateArgs)) (h : e.state = e'.state) :
    (Tcb.create i e p).state = (Tcb.create i e' p).state := by
  rcases p with _ | ⟨c, a⟩
  · exact h
  · simp only [Tcb.create]; split_ifs <;> [rfl; exact h]

theorem Tcb.delete_valid_congr (p : Option TaskId) (h : e.valid = e'.valid) :
    (Tcb.delete i e p).valid = (Tcb.delete i e' p).valid := by
  rcases p with _ | d
  · exact h
  · simp only [Tcb.delete]; split_ifs <;> [rfl; exact h]

theorem Tcb.delete_state_congr (p : Option TaskId) (h : e.state = e'.state) :
    (Tcb.delete i e p).state = (Tcb.delete i e' p).state := by
  rcases p with _ | d
  · exact h
  · simp only [Tcb.delete]; split_ifs <;> [rfl; exact h]

end Fields

theorem TcbArray.step_valid (t : TcbArray) (p : TcbPorts) (i : TaskId) :
    (t.step p i).valid = (Tcb.write i (Tcb.delete i (Tcb.create i (t i).tick p.create) p.delete) p.tcbWr).valid := by
  simp [TcbArray.step]

theorem TcbArray.step_state (t : TcbArray) (p : TcbPorts) (i : TaskId) :
    (t.step p i).state =
      (Tcb.stateWrite i (Tcb.write i (Tcb.delete i
        (Tcb.create i (t i).tick p.create) p.delete) p.tcbWr) p.stateWr).state := by
  simp [TcbArray.step]

end Vsync
