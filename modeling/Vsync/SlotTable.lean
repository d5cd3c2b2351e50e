/-
Tables of numbered slots: an allocation takes the lowest free slot, a release gives one slot back, and some slots are
reserved. Nothing in this file is about a particular table.

- `lowest_eq_some_iff`, `lowest_eq_none_iff`: which slot an allocation takes.
- `apply_kept`, `run_kept`: what is in a slot stays until the release of that slot.
- `apply_reserved`, `run_reserved`: a reserved slot never changes.
-/
import Mathlib.Data.Finset.Max
import Mathlib.Data.Fintype.Basic
import Mathlib.Tactic

namespace Vsync

abbrev SlotTable (ι α : Type*) := ι → Option α

namespace SlotTable

variable {ι α : Type*}

inductive Op (ι α : Type*) where
  | alloc (a : α)
  | release (i : ι)

variable [Fintype ι] [LinearOrder ι] (reserved : Finset ι) (t : SlotTable ι α)

/-- the slots that an allocation may take -/
def free : Finset ι := Finset.univ.filter fun i => i ∉ reserved ∧ (t i).isNone = true

def lowest : Option ι := if h : (free reserved t).Nonempty then some ((free reserved t).min' h) else none

def apply : Op ι α → SlotTable ι α
  | .alloc a =>
    match lowest reserved t with
    | some i => Function.update t i (some a)
    | none => t
  | .release i => if i ∈ reserved then t else Function.update t i none

def run (ops : List (Op ι α)) : SlotTable ι α := ops.foldl (apply reserved) t

variable {reserved t}

theorem mem_free {i : ι} : i ∈ free reserved t ↔ i ∉ reserved ∧ t i = none := by
  simp [free]

theorem lowest_eq_some_iff {i : ι} : lowest reserved t = some i ↔ IsLeast {j | j ∉ reserved ∧ t j = none} i := by
  have hset : {j | j ∉ reserved ∧ t j = none} = (free reserved t : Set ι) := by
    ext j
    simp [mem_free]
  rw [hset]
  unfold lowest
  split
  · next h =>
    have hmin := (free reserved t).isLeast_min' h
    refine ⟨fun heq => ?_, fun hi => congrArg some (hmin.unique hi)⟩
    rw [← Option.some.inj heq]
    exact hmin
  · next h =>
    refine ⟨fun heq => absurd heq (Option.some_ne_none i).symm, fun hi => ?_⟩
    exact absurd ⟨i, Finset.mem_coe.1 hi.1⟩ h

theorem lowest_eq_none_iff : lowest reserved t = none ↔ ∀ j, j ∉ reserved → t j ≠ none := by
  unfold lowest
  split
  · next h =>
    refine ⟨fun heq => absurd heq (Option.some_ne_none _), fun hall => ?_⟩
    obtain ⟨j, hj⟩ := h
    exact absurd (mem_free.1 hj).2 (hall j (mem_free.1 hj).1)
  · next h =>
    refine ⟨fun _ j hj hnone => h ⟨j, mem_free.2 ⟨hj, hnone⟩⟩, fun _ => rfl⟩

theorem apply_reserved {i : ι} (hi : i ∈ reserved) (op : Op ι α) : apply reserved t op i = t i := by
  cases op with
  | alloc a =>
    simp only [apply]
    cases hl : lowest reserved t with
    | none => rfl
    | some j =>
      have hne : i ≠ j := fun heq => (lowest_eq_some_iff.1 hl).1.1 (heq ▸ hi)
      exact Function.update_of_ne hne _ _
  | release j =>
    simp only [apply]
    split
    · rfl
    · next hj =>
      have hne : i ≠ j := fun heq => hj (heq ▸ hi)
      exact Function.update_of_ne hne _ _

/-- **What is in a slot stays until that slot is released.** -/
theorem apply_kept {i : ι} {a : α} (h : t i = some a) {op : Op ι α} (hop : op ≠ .release i) :
    apply reserved t op i = some a := by
  cases op with
  | alloc b =>
    simp only [apply]
    cases hl : lowest reserved t with
    | none => exact h
    | some j =>
      have hne : i ≠ j := by
        intro heq
        rw [heq, (lowest_eq_some_iff.1 hl).1.2] at h
        exact Option.some_ne_none a h.symm
      exact (Function.update_of_ne hne _ _).trans h
  | release j =>
    simp only [apply]
    have hne : i ≠ j := fun heq => hop (heq ▸ rfl)
    split
    · exact h
    · exact (Function.update_of_ne hne _ _).trans h

theorem run_append (ops ops' : List (Op ι α)) : run reserved t (ops ++ ops') = run reserved (run reserved t ops) ops' :=
  List.foldl_append

theorem run_reserved {i : ι} (hi : i ∈ reserved) (ops : List (Op ι α)) : run reserved t ops i = t i := by
  induction ops generalizing t with
  | nil => rfl
  | cons op ops ih =>
    calc run reserved t (op :: ops) i = run reserved (apply reserved t op) ops i := rfl
      _ = apply reserved t op i := ih
      _ = t i := apply_reserved hi op

theorem run_kept {i : ι} {a : α} (h : t i = some a) {ops : List (Op ι α)} (hops : Op.release i ∉ ops) :
    run reserved t ops i = some a := by
  induction ops generalizing t with
  | nil => exact h
  | cons op ops ih =>
    simp only [List.mem_cons, not_or] at hops
    exact ih (apply_kept h (Ne.symm hops.1)) hops.2

end SlotTable

end Vsync
