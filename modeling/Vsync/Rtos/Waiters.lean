/-
Wait masks and the two waiter selections of the kernel objects.

`bestWake` is the priority scan that `hw_semaphore` and `hw_mutex` share (highest priority, lowest id on ties);
`firstWake` is the scan of `hw_msgqueue` (lowest id). Both run over the ids in order, as the `for` loops do.
-/
import Vsync.Pkg
import Vsync.PriorityScan

namespace Vsync

open PriorityScan

/-- `logic [MAX_TASKS-1:0]`: one bit per task -/
abbrev WaitMask := TaskId → Bool

def noWaiters : WaitMask := fun _ => false

/-- the loop body of the priority scan: `best` is the best waiter among the ids before `i` -/
def bestWakeStep (mask : WaitMask) (prio : TaskId → Prio) (best : Option TaskId) (i : TaskId) : Option TaskId :=
  if mask i then
    match best with
    | none => some i
    | some b => if prio b < prio i then some i else some b
  else best

/-- `best_wake_found` / `best_wake_id` -/
def bestWake (mask : WaitMask) (prio : TaskId → Prio) : Option TaskId :=
  (List.finRange 16).foldl (bestWakeStep mask prio) none

/-- `send_wake_found` / `send_wake_id` and their `recv` twins -/
def firstWake (mask : WaitMask) : Option TaskId :=
  (List.finRange 16).find? fun i => mask i

/-! ## What the priority scan returns -/

theorem bestWakeStep_eq_keep (mask : WaitMask) (prio : TaskId → Prio) :
    bestWakeStep mask prio = keep mask fun t => (prio t).toNat := by
  funext best i
  unfold bestWakeStep keep
  cases best with
  | none => rfl
  | some b => simp only [BitVec.lt_def]

theorem bestWake_eq_scan (mask : WaitMask) (prio : TaskId → Prio) :
    bestWake mask prio = scan mask (fun t => (prio t).toNat) (List.finRange 16) := by
  rw [bestWake, bestWakeStep_eq_keep]
  rfl

theorem bestWake_firstBest {mask : WaitMask} {prio : TaskId → Prio} {t : TaskId} (h : bestWake mask prio = some t) :
    FirstBest mask (fun t => (prio t).toNat) (List.finRange 16) t := by
  have hsorted : (List.finRange 16).Pairwise (· < ·) := by decide
  rw [bestWake_eq_scan] at h
  exact scan_some hsorted h

theorem bestWake_mem {mask : WaitMask} {prio : TaskId → Prio} {t : TaskId} (h : bestWake mask prio = some t) :
    mask t = true :=
  (bestWake_firstBest h).holds

/-- the scan finds nobody exactly when nobody waits -/
theorem bestWake_eq_none {mask : WaitMask} {prio : TaskId → Prio} :
    bestWake mask prio = none ↔ ∀ t, mask t = false := by
  rw [bestWake_eq_scan, scan_none]
  exact ⟨fun h t => h t (List.mem_finRange t), fun h t _ => h t⟩

theorem bestWake_max {mask : WaitMask} {prio : TaskId → Prio} {t : TaskId} (h : bestWake mask prio = some t)
    (j : TaskId) (hj : mask j = true) : prio j ≤ prio t :=
  (bestWake_firstBest h).le (List.mem_finRange j) hj

end Vsync
