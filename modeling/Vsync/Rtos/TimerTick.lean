/-
The tick latch of `hw_rtos`.

- `TickKept`: a tick is pending from the next cycle on, up to the `S_TIMER_UPDATE` that serves it.
- `tick_pending`, `pending_run`: the cycle of the tick, and the cycles behind it.
- `tick_kept_iff`: a tick is kept exactly when it does not arrive in `S_TIMER_UPDATE`.
Failing input:
- `second_tick_lost`: ticks in cycles 0 and 2; the FSM serves the first in cycle 2, and the second leaves no trace.
-/
import Vsync.Rtos.Phases

namespace Vsync.HwRtos

/-- the tick of cycle `t` is pending in all cycles up to the first `S_TIMER_UPDATE` behind it -/
def TickKept (ins : ℕ → RtosIn) (t : ℕ) : Prop :=
  ∀ n > t, (∀ k, t < k → k < n → (stateAt ins k).fsmState ≠ .timerUpdate) → (stateAt ins n).timerTickPending = true

section Run

variable {ins : ℕ → RtosIn} {t : ℕ}

/-- `S_TIMER_UPDATE` clears the latch, a tick or none -/
theorem pending_of_update (h : (stateAt ins t).fsmState = .timerUpdate) :
    (stateAt ins (t + 1)).timerTickPending = false := by
  rw [stateAt_succ]
  exact if_pos h

theorem tick_pending (hen : (ins t).schedulerEn = true) (htick : (ins t).timerTick = true)
    (h : (stateAt ins t).fsmState ≠ .timerUpdate) : (stateAt ins (t + 1)).timerTickPending = true := by
  rw [stateAt_succ]
  change (stateAt ins t).timerTickPendingNext (ins t) = true
  rw [timerTickPendingNext, if_neg h, hen, htick]
  exact Bool.or_true _

theorem pending_holds (hp : (stateAt ins t).timerTickPending = true) (h : (stateAt ins t).fsmState ≠ .timerUpdate) :
    (stateAt ins (t + 1)).timerTickPending = true := by
  rw [stateAt_succ]
  change (stateAt ins t).timerTickPendingNext (ins t) = true
  rw [timerTickPendingNext, if_neg h, hp, Bool.true_or]

theorem pending_run (hp : (stateAt ins (t + 1)).timerTickPending = true) (d : ℕ)
    (h : ∀ k, t < k → k < t + 1 + d → (stateAt ins k).fsmState ≠ .timerUpdate) :
    (stateAt ins (t + 1 + d)).timerTickPending = true := by
  induction d with
  | zero => exact hp
  | succ d ih => exact pending_holds (ih fun k h1 h2 => h k h1 (by omega)) (h (t + 1 + d) (by omega) (by omega))

end Run

/-- **A tick is kept exactly when the FSM is not in `S_TIMER_UPDATE` in its cycle.** -/
theorem tick_kept_iff (ins : ℕ → RtosIn) (t : ℕ) (hen : (ins t).schedulerEn = true) (htick : (ins t).timerTick = true) :
    TickKept ins t ↔ (stateAt ins t).fsmState ≠ .timerUpdate := by
  constructor
  · intro hk hupdate
    have hnone : ∀ k, t < k → k < t + 1 → (stateAt ins k).fsmState ≠ .timerUpdate := fun k h1 h2 => by omega
    have := hk (t + 1) (Nat.lt_succ_self t) hnone
    rw [pending_of_update hupdate] at this
    exact absurd this (by simp)
  · intro h n hn hno
    obtain ⟨d, rfl⟩ := Nat.exists_eq_add_of_le hn
    exact pending_run (tick_pending hen htick h) d hno

def twoTicks (k : ℕ) : RtosIn := { RtosIn.quiet with timerTick := k == 0 || k == 2 }

/-- the witness: the tick of cycle 0 is kept -/
theorem first_tick_kept : TickKept twoTicks 0 :=
  (tick_kept_iff twoTicks 0 rfl rfl).2 (by decide +kernel)

/-- **The second tick is lost**: it arrives while the first is served. -/
theorem second_tick_lost : ¬ ∀ ins : ℕ → RtosIn, (∀ n, (ins n).schedulerEn = true) → ∀ t, (ins t).timerTick = true →
    TickKept ins t := by
  intro h
  have hpending := h twoTicks (fun _ => rfl) 2 rfl 3 (by decide) fun k h1 h2 => by omega
  exact absurd hpending (by decide +kernel)

end Vsync.HwRtos
