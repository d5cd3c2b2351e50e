/-
The executions of the instructions of a run, told apart.

An instruction of the program is executed again and again, and a trap leaves it for later. `Instances` runs beside the
core and gives each execution a number: the oldest instruction that has not left EX is an instance, the one behind it is
a new one, a trap keeps the instance that it interrupts under the pc that it saves, and the `mret` to that pc goes on
with it.

- `Fresh`, `step_fresh`: nothing has the numbers that are to come, and no instance stands at two places.
- `Behind`, `step_behind`: an instance that has left EX does not come back.
- `behind_of_ecall`: an `ecall` that is dispatched without a trap has left EX.
-/
import Vsync.Core.Interrupt

namespace Vsync

structure Instances where
  /-- the oldest instruction that has not left EX -/
  next : ℕ
  /-- the numbers from here on are new -/
  fresh : ℕ
  /-- what a trap has left at a pc -/
  left : Word → Option ℕ

namespace Instances

def reset : Instances := ⟨0, 1, fun _ => none⟩

def advance (g : Instances) : Instances := ⟨g.fresh, g.fresh + 1, g.left⟩

def interrupt (g : Instances) (pc here : Word) : Instances :=
  ⟨g.fresh, g.fresh + 1, Function.update g.left pc (if pc = here then some g.next else none)⟩

def resume (g : Instances) (pc : Word) : Instances :=
  ⟨(g.left pc).getD g.fresh, g.fresh + 1, Function.update g.left pc none⟩

def step (g : Instances) (s : Rv32imCore) (i : CoreIn) : Instances :=
  match s.trap i with
  | .taken _ pc _ _ => g.interrupt pc s.resumePc
  | .mret pc => g.resume pc
  | .nothing =>
    if s.ecallDetected || (!s.stallEx i && !s.flushEx i && s.idEx.valid) then g.advance else g

/-- the instance at work and those that traps have left are different, and have their numbers already -/
structure Fresh (g : Instances) : Prop where
  next : g.next < g.fresh
  left : ∀ p e, g.left p = some e → e < g.fresh ∧ e ≠ g.next
  apart : ∀ p q e, g.left p = some e → g.left q = some e → p = q

/-- the instance `e` has left EX for good -/
structure Behind (e : ℕ) (g : Instances) : Prop where
  old : e < g.fresh
  next : g.next ≠ e
  left : ∀ p, g.left p ≠ some e

section Step

variable {g : Instances} {s : Rv32imCore} {i : CoreIn} {e : ℕ}

theorem fresh_reset : Fresh reset := ⟨Nat.zero_lt_one, nofun, nofun⟩

theorem fresh_advance (h : Fresh g) : Fresh g.advance :=
  ⟨Nat.lt_succ_self _, fun p e hp => ⟨(h.left p e hp).1.trans (Nat.lt_succ_self _), (h.left p e hp).1.ne⟩, h.apart⟩

/-- what an interrupt keeps is the instance at work, or was kept before -/
theorem left_interrupt {p pc here : Word} (h : (g.interrupt pc here).left p = some e) :
    (p = pc ∧ e = g.next) ∨ g.left p = some e := by
  by_cases hp : p = pc
  · subst hp
    simp only [interrupt, Function.update_self] at h
    split_ifs at h
    exact Or.inl ⟨rfl, (Option.some.inj h).symm⟩
  · simp only [interrupt, Function.update_of_ne hp] at h
    exact Or.inr h

theorem left_resume {p pc : Word} (h : (g.resume pc).left p = some e) : p ≠ pc ∧ g.left p = some e := by
  by_cases hp : p = pc
  · subst hp
    simp [resume] at h
  · simp only [resume, Function.update_of_ne hp] at h
    exact ⟨hp, h⟩

theorem fresh_interrupt (h : Fresh g) (pc here : Word) : Fresh (g.interrupt pc here) := by
  refine ⟨Nat.lt_succ_self _, fun p e hp => ?_, fun p q e hp hq => ?_⟩
  · have he : e < g.fresh := by
      rcases left_interrupt hp with ⟨-, rfl⟩ | hp
      · exact h.next
      · exact (h.left p e hp).1
    exact ⟨he.trans (Nat.lt_succ_self _), he.ne⟩
  · rcases left_interrupt hp with ⟨rfl, he⟩ | hp
    · rcases left_interrupt hq with ⟨rfl, -⟩ | hq
      · rfl
      · exact absurd he (h.left q e hq).2
    · rcases left_interrupt hq with ⟨-, he⟩ | hq
      · exact absurd he (h.left p e hp).2
      · exact h.apart p q e hp hq

theorem fresh_resume (h : Fresh g) (pc : Word) : Fresh (g.resume pc) := by
  refine ⟨?_, fun p e hp => ?_, fun p q e hp hq => h.apart p q e (left_resume hp).2 (left_resume hq).2⟩
  · cases hl : g.left pc with
    | none => simp [resume, hl]
    | some e => simpa [resume, hl] using (h.left pc e hl).1.trans (Nat.lt_succ_self _)
  · obtain ⟨hne, hp⟩ := left_resume hp
    have hlt := (h.left p e hp).1
    refine ⟨hlt.trans (Nat.lt_succ_self _), ?_⟩
    cases hl : g.left pc with
    | none => simpa [resume, hl] using hlt.ne
    | some e' =>
      simp only [resume, hl, Option.getD_some]
      rintro rfl
      exact hne (h.apart p pc e hp hl)

theorem step_fresh (h : Fresh g) : Fresh (g.step s i) := by
  unfold step
  split
  · exact fresh_interrupt h _ _
  · exact fresh_resume h _
  · split_ifs
    · exact fresh_advance h
    · exact h

theorem behind_advance (h : Fresh g) : Behind g.next g.advance :=
  ⟨h.next.trans (Nat.lt_succ_self _), h.next.ne', fun p hp => (h.left p _ hp).2 rfl⟩

/-- an `ecall` that is dispatched without a trap has left EX -/
theorem behind_of_ecall (h : Fresh g) (ht : s.trap i = .nothing) (he : s.ecallDetected = true) :
    Behind g.next (g.step s i) := by
  have hs : g.step s i = g.advance := by simp [step, ht, he]
  rw [hs]
  exact behind_advance h

/-- **An instance that has left EX does not come back.** -/
theorem step_behind (h : Behind e g) : Behind e (g.step s i) := by
  have hold : e < g.fresh + 1 := h.old.trans (Nat.lt_succ_self _)
  unfold step
  split
  · refine ⟨hold, h.old.ne', fun p hp => ?_⟩
    rcases left_interrupt hp with ⟨-, he⟩ | hp
    · exact h.next he.symm
    · exact h.left p hp
  · rename_i pc _
    refine ⟨hold, ?_, fun p hp => h.left p (left_resume hp).2⟩
    cases hl : g.left pc with
    | none => simpa [resume, hl] using h.old.ne'
    | some e' =>
      simp only [resume, hl, Option.getD_some]
      rintro rfl
      exact h.left pc hl
  · split_ifs
    · exact ⟨hold, h.old.ne', h.left⟩
    · exact h

end Step

end Instances

namespace Ledger

section Run

variable (prog : Program) (mem : DataMem) (ins : ℕ → BoardIn)

def instancesAt : ℕ → Instances
  | 0 => .reset
  | n + 1 => (instancesAt n).step (stateAt prog mem ins n).core ((stateAt prog mem ins n).coreIn (ins n))

def instanceAt (n : ℕ) : ℕ := (instancesAt prog mem ins n).next

theorem instancesAt_fresh (n : ℕ) : (instancesAt prog mem ins n).Fresh := by
  induction n with
  | zero => exact Instances.fresh_reset
  | succ n ih => exact Instances.step_fresh ih

variable {prog mem ins}

/-- what is behind in some cycle is behind in every later one -/
theorem behind_run {e t u : ℕ} (h : Instances.Behind e (instancesAt prog mem ins t)) (hu : t ≤ u) :
    Instances.Behind e (instancesAt prog mem ins u) := by
  induction u, hu using Nat.le_induction with
  | base => exact h
  | succ u hu ih => exact Instances.step_behind ih

end Run

end Ledger

end Vsync
