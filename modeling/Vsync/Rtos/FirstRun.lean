/-
The first run of a created task.

`S_TASK_CREATE` writes the entry point and the stack pointer in `tcb_array`. What the CPU gets comes from the banks of
`context_switch`, which a creation leaves as they are; and a task that is dispatched directly gets nothing at all.

- `deliveredPc`, `restored`: what the unit has delivered to the CPU last.
- `delivered_of_last`: it is the content of the bank that the last transaction loaded.
- `starts_at_entry_iff`: a created task starts at its entry point exactly when that bank holds it.
- `created_starts_nowhere`: the first task of a run starts without a pc.
-/
import Vsync.Rtos.Moves

namespace Vsync.HwRtos

section Names

variable (ins : ℕ → RtosIn)

/-- the pc that the last transaction before cycle `n` has delivered on `ctx_restore_pc` -/
def deliveredPc : ℕ → Option Word
  | 0 => none
  | n + 1 => if (unit ins n).switchDone then some (unit ins n).restorePcReg else deliveredPc n

def restored (r : RegAddr) : ℕ → Option Word
  | 0 => none
  | n + 1 =>
    if (unit ins n).cpuRegWe && (unit ins n).cpuRegAddr == r then some (unit ins n).cpuRegWdata else restored r n

/-- in cycle `c` task `j` is created, and in cycle `m` it is dispatched for the first time since -/
structure FirstRun (c : ℕ) (j : TaskId) (args : CreateArgs) (m : ℕ) : Prop where
  created : (stateAt ins c).createNext (ins c) = some (j, args)
  after : c < m
  dispatched : (stateAt ins m).fsmState = .dispatch ∧ (stateAt ins m).nextTaskIdR = j
  first : ∀ l, c < l → l < m → ¬ ((stateAt ins l).fsmState = .dispatch ∧ (stateAt ins l).nextTaskIdR = j)

def StartsAtEntry (args : CreateArgs) (m : ℕ) : Prop :=
  deliveredPc ins m = some args.pc ∧ restored ins 2 m = some args.sp

/-- the last transaction before cycle `m` loads the bank of `B`, and is requested in cycle `a` -/
structure LastLoad (a : ℕ) (B : TaskId) (m : ℕ) : Prop where
  before : a < m
  request : ∃ A, (stateAt ins a).csSwitchReq = some (A, B)
  last : ∀ l, a < l → l < m → (stateAt ins l).csSwitchReq = none

end Names

section Run

variable {ins : ℕ → RtosIn}

theorem preempt_pair {p : ℕ} (hf : (stateAt ins p).fsmState = .preemptCheck) :
    (stateAt ins p).currentTaskIdR ≠ (stateAt ins p).nextTaskIdR := by
  cases p with
  | zero => simp [stateAt, reset] at hf
  | succ q =>
    obtain ⟨hfs, -, hne⟩ := fsmNext_preemptCheck (s := stateAt ins q) (i := ins q) hf
    rw [stateAt_succ]
    simp only [step, currentTaskIdNext, nextTaskIdNext, hfs]
    simpa [(phased_run ins q).comparing hfs] using hne.symm

theorem request_pair {a : ℕ} {A B : TaskId} (hr : (stateAt ins a).csSwitchReq = some (A, B)) : A ≠ B := by
  cases a with
  | zero => simp [stateAt, reset] at hr
  | succ l =>
    change (stateAt ins l).csSwitchReqNext = _ at hr
    have hsw := (switchPhased_run ins l).active
    cases hf : (stateAt ins l).fsmState with
    | preemptCheck =>
      have hne := preempt_pair hf
      simp only [csSwitchReqNext, hf, hsw (Or.inl hf), if_true, Option.some.injEq, Prod.mk.injEq] at hr
      rw [← hr.1, ← hr.2]
      exact hne
    | contextSave =>
      obtain ⟨p, -, hfp, -, hcp, hnp⟩ := switch_source ins l (Or.inr (Or.inl hf))
      have hne := preempt_pair hfp
      rw [hcp, hnp] at hne
      simp only [csSwitchReqNext, hf] at hr
      split_ifs at hr
      simp only [Option.some.injEq, Prod.mk.injEq] at hr
      rw [← hr.1, ← hr.2]
      exact hne
    | _ => simp [csSwitchReqNext, hf] at hr

/-- without a request the unit rests, and delivers nothing -/
theorem rests_run {t m : ℕ} (htm : t ≤ m) (hidle : (unit ins t).state = .idle)
    (hno : ∀ l, t ≤ l → l < m → (stateAt ins l).csSwitchReq = none) :
    (unit ins m).state = .idle ∧ deliveredPc ins m = deliveredPc ins t ∧ ∀ r, restored ins r m = restored ins r t := by
  induction m, htm using Nat.le_induction with
  | base => exact ⟨hidle, rfl, fun _ => rfl⟩
  | succ m htm ih =>
    obtain ⟨h1, h2, h3⟩ := ih fun l hl1 hl2 => hno l hl1 (by omega)
    have hreq := hno m htm (Nat.lt_succ_self m)
    refine ⟨?_, ?_, fun r => ?_⟩
    · rw [runs_unit ins m]
      simp [ContextSwitch.step, h1, hreq]
    · simp [deliveredPc, ContextSwitch.switchDone, h1, h2]
    · simp [restored, ContextSwitch.cpuRegWe, h1, h3]

/-- what a transaction has delivered when it is over -/
theorem delivered_of_request {a : ℕ} {A B : TaskId} (hr : (stateAt ins a).csSwitchReq = some (A, B)) :
    (unit ins (a + 64)).state = .idle ∧ deliveredPc ins (a + 64) = some ((unit ins a).savedPc B) ∧
      restored ins 2 (a + 64) = some ((unit ins a).regBanks B 2) := by
  have hu := runs_unit ins
  have hidle : (unit ins a).state = .idle := (switchPhased_run ins a).request (by rw [hr]; simp)
  obtain ⟨hload, -⟩ := moves_of_request hr (request_pair hr)
  refine ⟨(ContextSwitch.done_of_request hu hidle hr).2, ?_, ?_⟩
  · rw [show a + 64 = a + 63 + 1 by omega, deliveredPc, if_pos hload.done, hload.pc]
  · have h2 : restored ins 2 (a + 34) = some ((unit ins a).regBanks B 2) := by
      obtain ⟨hwe, haddr, hdata⟩ := hload.regs 2 (by decide)
      change (unit ins (a + 33)).cpuRegWe = true at hwe
      change (unit ins (a + 33)).cpuRegAddr = 2 at haddr
      change (unit ins (a + 33)).cpuRegWdata = _ at hdata
      rw [restored, hwe, haddr, hdata]
      rfl
    have hkeep : ∀ d, d ≤ 30 → restored ins 2 (a + 34 + d) = some ((unit ins a).regBanks B 2) := by
      intro d hd
      induction d with
      | zero => exact h2
      | succ d ih =>
        have hnot : ((unit ins (a + 34 + d)).cpuRegWe && (unit ins (a + 34 + d)).cpuRegAddr == 2) = false := by
          rcases Nat.lt_or_ge d 29 with hlt | hge
          · -- the load has passed x2
            obtain ⟨hst, hidx⟩ := ContextSwitch.load_run hu hidle hr (d + 2) (by omega)
            rw [show a + 34 + d = a + 32 + (d + 2) by omega]
            have hne : BitVec.ofNat 5 (d + 2 + 1) ≠ 2 := by
              intro hc
              have := congrArg BitVec.toNat hc
              rw [BitVec.toNat_ofNat] at this
              change (d + 2 + 1) % 32 = 2 at this
              omega
            simp only [ContextSwitch.cpuRegAddr, hst, hidx, Bool.and_eq_false_imp]
            intro _
            exact beq_eq_false_iff_ne.2 hne
          · have hd' : d = 29 := by omega
            have hdone := (ContextSwitch.done_of_request hu hidle hr).1
            rw [hd']
            simp [ContextSwitch.cpuRegWe, hdone]
        rw [← Nat.add_assoc, restored, hnot]
        exact ih (by omega)
    exact hkeep 30 (le_refl 30)

/-- **What the CPU has got is the bank that was loaded last**, as it was when that load was requested. -/
theorem delivered_of_last {a m : ℕ} {B : TaskId} (hl : LastLoad ins a B m) (hrest : (unit ins m).state = .idle) :
    deliveredPc ins m = some ((unit ins a).savedPc B) ∧ restored ins 2 m = some ((unit ins a).regBanks B 2) := by
  obtain ⟨A, hr⟩ := hl.request
  have hu := runs_unit ins
  have hidle : (unit ins a).state = .idle := (switchPhased_run ins a).request (by rw [hr]; simp)
  have hlate : a + 64 ≤ m := by
    by_contra hc
    rcases Nat.lt_or_ge m (a + 32) with hlt | hge
    · have := (ContextSwitch.save_run hu hidle hr (m - (a + 1)) (by omega)).1
      have hb := hl.before
      rw [show a + 1 + (m - (a + 1)) = m by omega, hrest] at this
      exact absurd this (by decide)
    · rcases Nat.lt_or_ge m (a + 63) with hlt | hge'
      · have := (ContextSwitch.load_run hu hidle hr (m - (a + 32)) (by omega)).1
        rw [show a + 32 + (m - (a + 32)) = m by omega, hrest] at this
        exact absurd this (by decide)
      · have := (ContextSwitch.done_of_request hu hidle hr).1
        rw [show a + 63 = m by omega, hrest] at this
        exact absurd this (by decide)
  obtain ⟨h1, h2, h3⟩ := delivered_of_request hr
  obtain ⟨-, hpc, hregs⟩ := rests_run hlate h1 fun l hl1 hl2 => hl.last l (by omega) hl2
  exact ⟨hpc.trans h2, (hregs 2).trans h3⟩

/-- before a cycle some load was the last one, or there was none -/
theorem last_load_or_none (m : ℕ) : (∃ a B, LastLoad ins a B m) ∨ ∀ l < m, (stateAt ins l).csSwitchReq = none := by
  induction m with
  | zero => exact Or.inr fun l hl => absurd hl (Nat.not_lt_zero l)
  | succ m ih =>
    rcases hr : (stateAt ins m).csSwitchReq with _ | ⟨A, B⟩
    · rcases ih with ⟨a, B, hl⟩ | hno
      · refine Or.inl ⟨a, B, Nat.lt_succ_of_lt hl.before, hl.request, fun l h1 h2 => ?_⟩
        rcases Nat.lt_succ_iff_lt_or_eq.1 h2 with h2 | rfl
        · exact hl.last l h1 h2
        · exact hr
      · refine Or.inr fun l hl => ?_
        rcases Nat.lt_succ_iff_lt_or_eq.1 hl with hl | rfl
        · exact hno l hl
        · exact hr
    · exact Or.inl ⟨m, B, Nat.lt_succ_self m, ⟨A, hr⟩, fun l h1 h2 => by omega⟩

end Run

/-- **A created task starts at its entry point exactly when** the bank that was loaded last, before its first dispatch,
holds the entry point and the stack pointer. -/
theorem starts_at_entry_iff (ins : ℕ → RtosIn) (c m : ℕ) (j : TaskId) (args : CreateArgs)
    (h : FirstRun ins c j args m) :
    StartsAtEntry ins args m ↔
      ∃ a B, LastLoad ins a B m ∧ (unit ins a).savedPc B = args.pc ∧ (unit ins a).regBanks B 2 = args.sp := by
  have hrest : (unit ins m).state = .idle :=
    ((switchPhased_run ins m).rest (by rw [h.dispatched.1]; simp [Switching])).1
  constructor
  · rintro ⟨hpc, hsp⟩
    rcases @last_load_or_none ins m with ⟨a, B, hl⟩ | hno
    · obtain ⟨h1, h2⟩ := delivered_of_last hl hrest
      rw [h1] at hpc
      rw [h2] at hsp
      exact ⟨a, B, hl, Option.some.inj hpc, Option.some.inj hsp⟩
    · obtain ⟨-, hnone, -⟩ := @rests_run ins 0 m (Nat.zero_le m) rfl fun l _ hl => hno l hl
      rw [hnone] at hpc
      exact absurd hpc (by simp [deliveredPc])
  · rintro ⟨a, B, hl, hpc, hsp⟩
    obtain ⟨h1, h2⟩ := delivered_of_last hl hrest
    rw [hpc] at h1
    rw [hsp] at h2
    exact ⟨h1, h2⟩

theorem oneTask_firstRun : FirstRun (oneTaskRun none) 1 1 ⟨0x100, 0x800, 3⟩ 23 := by
  have hcheck := Machine.check_all step reset (oneTaskRun none)
    (fun l s => decide (1 < l → s.fsmState ≠ .dispatch)) 23 (by decide +kernel)
  refine ⟨by decide +kernel, by decide, by decide +kernel, fun l h1 h2 hd => ?_⟩
  exact of_decide_eq_true (hcheck l h2) h1 hd.1

/-- what that says of the first task of a run -/
theorem starts_at_entry_iff_oneTask : StartsAtEntry (oneTaskRun none) ⟨0x100, 0x800, 3⟩ 23 ↔
    ∃ a B, LastLoad (oneTaskRun none) a B 23 ∧ (unit (oneTaskRun none) a).savedPc B = 0x100 ∧
      (unit (oneTaskRun none) a).regBanks B 2 = 0x800 :=
  starts_at_entry_iff (oneTaskRun none) 1 23 1 ⟨0x100, 0x800, 3⟩ oneTask_firstRun

/-- **The first task starts nowhere.** It is created for pc 0x100 and dispatched in cycle 23; no pc has been delivered.
-/
theorem created_starts_nowhere : FirstRun (oneTaskRun none) 1 1 ⟨0x100, 0x800, 3⟩ 23 ∧
    deliveredPc (oneTaskRun none) 23 = none ∧ ¬ StartsAtEntry (oneTaskRun none) ⟨0x100, 0x800, 3⟩ 23 := by
  have hnone : deliveredPc (oneTaskRun none) 23 = none := by decide +kernel
  refine ⟨oneTask_firstRun, hnone, fun h => ?_⟩
  rw [StartsAtEntry, hnone] at h
  exact absurd h.1 (by simp)

end Vsync.HwRtos
