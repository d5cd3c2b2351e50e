/-
The lock bit of `pmp_unit.sv`.

- `Protects`: entry `i` matches the same addresses as in a given state, with the same permissions.
- `step_entry`: a write reaches neither the configuration nor the address register of a locked entry.
- `Moves`: a write of the address register below a locked TOR entry, which is the base of its range.
- `protected_iff`: an entry that was locked keeps its range in all later states exactly when no step moves it.
Failing input:
- `base_moves`: entry 1 is locked with the range from 0x100 to 0x200; a write of `pmpaddr` 0 takes 0x100 out of it.
-/
import Vsync.Rtos.PmpUnit

namespace Vsync.PmpUnit

/-- what entry `i` does in the second state is what it does in the first -/
structure Protects (u v : PmpUnit) (i : Fin 8) : Prop where
  range : ∀ a, v.regionMatch a i = u.regionMatch a i
  perms : v.perms i = u.perms i

/-- a write of the unlocked address register below the locked entry gives its range another base -/
def Moves (u : PmpUnit) (w : PmpWrites) (i : Fin 8) : Prop :=
  i ≠ 0 ∧ u.mode i = 0b01#2 ∧ u.lock (i - 1) = false ∧
    ∃ d, w.addr = some (i - 1, d) ∧ low30 d ≠ low30 (u.pmpaddr (i - 1)) ∧
      (low30 d < low30 (u.pmpaddr i) ∨ low30 (u.pmpaddr (i - 1)) < low30 (u.pmpaddr i))

variable {u v : PmpUnit} {w : PmpWrites} {i : Fin 8}

/-! ## One step -/

theorem step_entry (h : u.lock i = true) : (u.step w).pmpcfg i = u.pmpcfg i ∧ (u.step w).pmpaddr i = u.pmpaddr i := by
  constructor
  · rw [step]
    cases w.cfg with
    | none => rfl
    | some c => exact if_neg (by simp [h])
  · rw [step]
    cases w.addr with
    | none => rfl
    | some c => exact if_neg (by simp [h])

/-- the range of an entry is a function of its two registers and, in TOR mode, of the base -/
theorem regionMatch_congr (hcfg : v.pmpcfg i = u.pmpcfg i) (haddr : v.pmpaddr i = u.pmpaddr i)
    (hbase : i ≠ 0 → u.mode i = 0b01#2 → low30 (v.pmpaddr (i - 1)) = low30 (u.pmpaddr (i - 1))) (a : Word) :
    v.regionMatch a i = u.regionMatch a i := by
  have hmode : v.mode i = u.mode i := by rw [mode, mode, hcfg]
  rw [regionMatch, regionMatch, hmode, bound, bound, haddr]
  split
  case isTrue htor =>
    split
    case isTrue => rfl
    case isFalse hi => rw [bound, bound, hbase hi htor]
  case isFalse => rfl

/-! ## The base of a range -/

theorem toNat_bytes (x : BitVec 30) : (x ++ 0#2).toNat = x.toNat * 4 := by
  rw [BitVec.toNat_append, Nat.shiftLeft_eq]
  simp

theorem bytes_lt_iff {x y : BitVec 30} : x ++ 0#2 < y ++ 0#2 ↔ x < y := by
  rw [BitVec.lt_def, BitVec.lt_def, toNat_bytes, toNat_bytes]
  omega

/-- a range that starts below its top matches its first address -/
theorem base_matches (x t : BitVec 30) : (x ++ 0#2 ≤ x ++ 0#2 ∧ x ++ 0#2 < t ++ 0#2) ↔ x < t := by
  rw [bytes_lt_iff]
  exact and_iff_right (BitVec.le_refl _)

/-- two ranges below one top are the same when their bases are, or when both are empty -/
theorem range_eq_iff (x y t : BitVec 30) :
    (∀ a : Word, (y ++ 0#2 ≤ a ∧ a < t ++ 0#2) ↔ (x ++ 0#2 ≤ a ∧ a < t ++ 0#2)) ↔ ¬ (y ≠ x ∧ (y < t ∨ x < t)) := by
  constructor
  · rintro h ⟨hne, hlt⟩
    have hbases : y < t ∧ x ++ 0#2 ≤ y ++ 0#2 ∨ x < t ∧ y ++ 0#2 ≤ x ++ 0#2 := by
      rcases hlt with hy | hx
      · exact .inl ⟨hy, ((h (y ++ 0#2)).1 ((base_matches y t).2 hy)).1⟩
      · exact .inr ⟨hx, ((h (x ++ 0#2)).2 ((base_matches x t).2 hx)).1⟩
    simp only [BitVec.le_def, BitVec.lt_def, toNat_bytes] at hbases
    rcases hbases with ⟨hy, hle⟩ | ⟨hx, hle⟩
    · have hx : x < t := BitVec.lt_def.2 (by omega)
      have := ((h (x ++ 0#2)).2 ((base_matches x t).2 hx)).1
      rw [BitVec.le_def, toNat_bytes, toNat_bytes] at this
      exact hne (BitVec.eq_of_toNat_eq (by omega))
    · have hy : y < t := BitVec.lt_def.2 (by omega)
      have := ((h (y ++ 0#2)).1 ((base_matches y t).2 hy)).1
      rw [BitVec.le_def, toNat_bytes, toNat_bytes] at this
      exact hne (BitVec.eq_of_toNat_eq (by omega))
  · intro h a
    by_cases hne : y = x
    · rw [hne]
    · have hempty : ¬ (y < t ∨ x < t) := fun hlt => h ⟨hne, hlt⟩
      simp only [BitVec.le_def, BitVec.lt_def, toNat_bytes] at hempty ⊢
      omega

/-- a TOR entry other than the first matches from the address register below it to its own -/
theorem regionMatch_tor (hi : i ≠ 0) (htor : u.mode i = 0b01#2) (a : Word) :
    u.regionMatch a i = true ↔ low30 (u.pmpaddr (i - 1)) ++ 0#2 ≤ a ∧ a < low30 (u.pmpaddr i) ++ 0#2 := by
  rw [regionMatch, if_pos htor, if_neg hi, Bool.and_eq_true, decide_eq_true_iff, decide_eq_true_iff]
  exact Iff.rfl

/-- the address register below a locked entry is written in a step, or it stays -/
theorem step_pmpaddr (j : Fin 8) : (u.step w).pmpaddr j = u.pmpaddr j ∨
    u.lock j = false ∧ ∃ d, w.addr = some (j, d) ∧ (u.step w).pmpaddr j = d := by
  cases hw : w.addr with
  | none => exact .inl (by rw [step, hw])
  | some c =>
    by_cases hc : j = c.1 ∧ u.lock j = false
    · refine .inr ⟨hc.2, c.2, by rw [hc.1], ?_⟩
      rw [step, hw]
      exact if_pos hc
    · refine .inl ?_
      rw [step, hw]
      exact if_neg hc

/-- a step keeps a locked entry as it is, or gives its range another base -/
theorem step_protects_iff (h : u.lock i = true) : Protects u (u.step w) i ↔ ¬ Moves u w i := by
  obtain ⟨hcfg, haddr⟩ := step_entry (w := w) h
  constructor
  · rintro hp ⟨hi, htor, hopen, d, hw, hd⟩
    have hbase : (u.step w).pmpaddr (i - 1) = d := by
      rw [step, hw]
      exact if_pos ⟨rfl, hopen⟩
    have htor' : (u.step w).mode i = 0b01#2 := by rw [mode, hcfg]; exact htor
    refine (range_eq_iff (low30 (u.pmpaddr (i - 1))) (low30 d) (low30 (u.pmpaddr i))).1 (fun a => ?_) hd
    rw [← regionMatch_tor hi htor, ← hp.range a, regionMatch_tor hi htor', hbase, haddr]
  · intro hm
    refine ⟨fun a => ?_, by rw [perms, perms, hcfg]⟩
    rcases step_pmpaddr (u := u) (w := w) (i - 1) with hbase | ⟨hopen, d, hw, hbase⟩
    · exact regionMatch_congr hcfg haddr (fun _ _ => by rw [hbase]) a
    · by_cases hrange : i ≠ 0 ∧ u.mode i = 0b01#2
      · obtain ⟨hi, htor⟩ := hrange
        have htor' : (u.step w).mode i = 0b01#2 := by rw [mode, hcfg]; exact htor
        rw [Bool.eq_iff_iff, regionMatch_tor hi htor', regionMatch_tor hi htor, hbase, haddr]
        exact (range_eq_iff _ _ _).2 (fun hd => hm ⟨hi, htor, hopen, d, hw, hd⟩) a
      · exact regionMatch_congr hcfg haddr (fun hi htor => absurd ⟨hi, htor⟩ hrange) a

/-! ## Runs -/

theorem Protects.trans {x : PmpUnit} (h : Protects u v i) (h' : Protects v x i) : Protects u x i :=
  ⟨fun a => (h'.range a).trans (h.range a), h'.perms.trans h.perms⟩

theorem Protects.symm (h : Protects u v i) : Protects v u i := ⟨fun a => (h.range a).symm, h.perms.symm⟩

theorem lock_run (h : u.lock i = true) (ins : ℕ → PmpWrites) (n : ℕ) : (Machine.trace step u ins n).lock i = true := by
  induction n with
  | zero => exact h
  | succ n ih => rw [Machine.trace_succ, lock, (step_entry ih).1]; exact ih

/-- an entry that was locked keeps its range and permissions exactly as long as no write moves its base -/
theorem protected_iff (u : PmpUnit) (i : Fin 8) (h : u.lock i = true) (ins : ℕ → PmpWrites) (n : ℕ) :
    (∀ m ≤ n, Protects u (Machine.trace step u ins m) i) ↔ ∀ m < n, ¬ Moves (Machine.trace step u ins m) (ins m) i := by
  constructor
  · intro hp m hm
    rw [← step_protects_iff (lock_run h ins m)]
    exact (hp m hm.le).symm.trans (hp (m + 1) hm)
  · intro hm m hmn
    induction m with
    | zero => exact ⟨fun _ => rfl, rfl⟩
    | succ m ih =>
      refine (ih (Nat.le_of_succ_le hmn)).trans ?_
      rw [Machine.trace_succ, step_protects_iff (lock_run h ins m)]
      exact hm m hmn

def lockedRange : PmpUnit where
  pmpcfg i := if i = 1 then 0x89#8 else 0
  pmpaddr i := if i = 0 then 0x40#32 else if i = 1 then 0x80#32 else 0

/-- the witness: a write of the locked entry itself does nothing -/
theorem lockedRange_kept :
    Protects lockedRange (Machine.trace step lockedRange (fun _ => ⟨some (0, 0), some (1, 0)⟩) 1) 1 := by
  refine (protected_iff lockedRange 1 (by decide) _ 1).2 (fun m hm => ?_) 1 (le_refl 1)
  obtain rfl : m = 0 := by omega
  rintro ⟨-, -, -, d, hw, -⟩
  exact absurd hw (by simp)

/-- a write of address register 0 takes 0x100 out of the locked range -/
theorem base_moves : ¬ ∀ (u : PmpUnit) (i : Fin 8), u.lock i = true → ∀ (ins : ℕ → PmpWrites) (n : ℕ),
    Protects u (Machine.trace step u ins n) i := by
  intro h
  have hp := (h lockedRange 1 (by decide) (fun _ => ⟨none, some (0, 0x60#32)⟩) 1).range 0x100#32
  exact absurd hp (by decide +kernel)

end Vsync.PmpUnit
