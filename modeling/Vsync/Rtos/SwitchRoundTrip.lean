/-
`context_switch` with an ideal register file.

- `SwitchUnit`: the unit and the registers of the CPU. While the unit is busy only its write port changes them; while it
  is idle they and the PC are whatever the CPU makes of them.
- `Accepts`: a cycle in which a switch begins; `SavedLast`: the last one that saved a task.
- `Keeps`: from then on the bank and the saved PC of the task hold what the CPU had as the unit began to copy.
- `switch_phases`: a switch is 31 saves, 31 loads and one `switch_done`.
- `round_trip_law`: a switch into a task that was saved gives back what was saved; x0 is never written.
-/
import Vsync.Machine
import Vsync.Rtos.Transaction

namespace Vsync

open Machine

/-- the unit, and the register file of the CPU -/
structure SwitchUnit where
  unit : ContextSwitch
  regs : RegAddr → Word

/-- one cycle: `switch_req` with its ids, `cpu_pc`, and the registers that an idle cycle leaves -/
structure SwitchUnitIn where
  req : Option (TaskId × TaskId)
  pc : Word
  regs : RegAddr → Word

namespace SwitchUnit

def reset (regs : RegAddr → Word) : SwitchUnit := ⟨.reset, regs⟩

def restorePc (s : SwitchUnit) : Word := s.unit.restorePcReg

/-- one clock edge: the register file is read at `cpu_reg_addr` -/
def step (s : SwitchUnit) (i : SwitchUnitIn) : SwitchUnit where
  unit := s.unit.step i.req (s.regs s.unit.cpuRegAddr) i.pc
  regs :=
    if s.unit.busy then
      if s.unit.cpuRegWe then Function.update s.regs s.unit.cpuRegAddr s.unit.cpuRegWdata else s.regs
    else i.regs

def Accepts (s : SwitchUnit) (i : SwitchUnitIn) (old new : TaskId) : Prop :=
  s.unit.state = .idle ∧ i.req = some (old, new)

/-- the bank of `t` holds the registers `R`, and its saved PC is `pc`; both copies agree with them as far as they got -/
structure Keeps (t : TaskId) (R : RegAddr → Word) (pc : Word) (s : SwitchUnit) : Prop where
  savedPc : s.unit.savedPc t = pc
  bank : ¬ (s.unit.state = .save ∧ s.unit.oldIdLatched = t) → ∀ r ≠ 0, s.unit.regBanks t r = R r
  saving : s.unit.state = .save → s.unit.oldIdLatched = t →
    s.regs = R ∧ ∀ r ≠ 0, r < s.unit.regIdx → s.unit.regBanks t r = R r
  loading : s.unit.state = .load → s.unit.newIdLatched = t → ∀ r ≠ 0, r < s.unit.regIdx → s.regs r = R r
  loaded : s.unit.state = .done → s.unit.newIdLatched = t → (∀ r ≠ 0, s.regs r = R r) ∧ s.restorePc = pc

variable {s : SwitchUnit} {i : SwitchUnitIn} {t old new : TaskId} {R : RegAddr → Word} {pc : Word}

/-! ## One cycle -/

theorem step_of_idle (h : s.unit.state = .idle) :
    s.step i = ⟨s.unit.step i.req (s.regs s.unit.cpuRegAddr) i.pc, i.regs⟩ := by
  rw [step, ContextSwitch.busy, h]
  rfl

/-- only the load writes a register -/
theorem step_regs_of_quiet (hbusy : s.unit.state ≠ .idle) (hload : s.unit.state ≠ .load) :
    (s.step i).regs = s.regs := by
  simp [step, ContextSwitch.busy, ContextSwitch.cpuRegWe, hbusy, hload]

theorem step_regs_of_load (h : s.unit.state = .load) :
    (s.step i).regs = Function.update s.regs s.unit.regIdx (s.unit.regBanks s.unit.newIdLatched s.unit.regIdx) := by
  simp [step, ContextSwitch.busy, ContextSwitch.cpuRegWe, ContextSwitch.cpuRegAddr, ContextSwitch.cpuRegWdata, h]

theorem step_unit_of_save (h : s.unit.state = .save) :
    (s.step i).unit = { s.unit with
      regBanks := Function.update s.unit.regBanks s.unit.oldIdLatched
        (Function.update (s.unit.regBanks s.unit.oldIdLatched) s.unit.regIdx (s.regs s.unit.regIdx))
      state := if s.unit.regIdx = 31#5 then .load else .save
      regIdx := if s.unit.regIdx = 31#5 then 1 else s.unit.regIdx + 1 } := by
  have haddr : s.unit.cpuRegAddr = s.unit.regIdx := by simp [ContextSwitch.cpuRegAddr, h]
  rw [step, haddr]
  by_cases hlast : s.unit.regIdx = 31#5
  · rw [ContextSwitch.step_of_save_last h hlast, if_pos hlast, if_pos hlast]
    rfl
  · rw [ContextSwitch.step_of_save h hlast, if_neg hlast, if_neg hlast, ← h]
    rfl

/-- the copies made before an index and at it are the copies made before the next -/
theorem below_next {P : RegAddr → Prop} {k : RegAddr} (h : ∀ r ≠ 0, r < k → P r) (hk : P k) :
    ∀ r ≠ 0, r < k + 1 → P r := by
  intro r hr hlt
  by_cases heq : r = k
  · rw [heq]
    exact hk
  · exact h r hr (by bv_omega)

/-- before the last index and at it are all of them -/
theorem below_last {P : RegAddr → Prop} (h : ∀ r ≠ 0, r < 31#5 → P r) (hk : P 31#5) : ∀ r ≠ 0, P r := by
  intro r hr
  by_cases heq : r = 31#5
  · rw [heq]
    exact hk
  · exact h r hr (by bv_omega)

theorem not_below_one {r : RegAddr} (hr : r ≠ 0) : ¬ r < 1 := by bv_omega

/-- a switch that saves the task begins to keep what the CPU has -/
theorem keeps_of_accepts (h : s.Accepts i t new) : Keeps t i.regs i.pc (s.step i) := by
  obtain ⟨hidle, hreq⟩ := h
  rw [step_of_idle hidle, ContextSwitch.step_of_request hidle hreq]
  refine ⟨Function.update_self .., fun hno => absurd ⟨rfl, rfl⟩ hno, fun _ _ => ⟨rfl, fun r hr hlt => ?_⟩, ?_, ?_⟩
  · exact absurd hlt (not_below_one hr)
  · intro hload
    exact absurd hload (by simp)
  · intro hdone
    exact absurd hdone (by simp)

theorem Keeps.step_idle (h : Keeps t R pc s) (hidle : s.unit.state = .idle) (hno : ∀ new, ¬ s.Accepts i t new) :
    Keeps t R pc (s.step i) := by
  have hbank := h.bank (by simp [hidle])
  rw [step_of_idle hidle]
  cases hreq : i.req with
  | none =>
    have hsame : s.unit.step none (s.regs s.unit.cpuRegAddr) i.pc = s.unit := by simp [ContextSwitch.step, hidle]
    rw [hsame]
    refine ⟨h.savedPc, fun _ => hbank, ?_, ?_, ?_⟩ <;> · intro hst; exact absurd (hidle.symm.trans hst) (by simp)
  | some ids =>
    obtain ⟨old, new⟩ := ids
    have hne : t ≠ old := fun heq => hno new ⟨hidle, by rw [hreq, heq]⟩
    rw [ContextSwitch.step_of_request hidle rfl]
    refine ⟨?_, fun _ => hbank, fun _ hold => absurd hold.symm hne, ?_, ?_⟩
    · exact (Function.update_of_ne hne ..).trans h.savedPc
    · intro hst
      exact absurd hst (by simp)
    · intro hst
      exact absurd hst (by simp)

/-- the bank that is written is that of the task -/
theorem Keeps.step_save_own (h : Keeps t R pc s) (hsave : s.unit.state = .save) (hold : s.unit.oldIdLatched = t) :
    Keeps t R pc (s.step i) := by
  have hregs : (s.step i).regs = s.regs := step_regs_of_quiet (by simp [hsave]) (by simp [hsave])
  have hunit := step_unit_of_save (i := i) hsave
  obtain ⟨hR, hcopied⟩ := h.saving hsave hold
  -- the bank behind the cycle
  have hnew (r : RegAddr) (hr : s.unit.regBanks t r = R r ∨ r = s.unit.regIdx) :
      (s.step i).unit.regBanks t r = R r := by
    rw [hunit]
    dsimp only
    rw [hold, Function.update_self, hR]
    by_cases heq : r = s.unit.regIdx
    · rw [heq, Function.update_self]
    · rw [Function.update_of_ne heq]
      exact hr.resolve_right heq
  by_cases hlast : s.unit.regIdx = 31#5
  · have hst : (s.step i).unit.state = .load := by simp [hunit, hlast]
    have hidx : (s.step i).unit.regIdx = 1 := by simp [hunit, hlast]
    refine ⟨by simpa [hunit] using h.savedPc, fun _ => ?_, ?_, ?_, ?_⟩
    · apply below_last
      · intro r hr hlt
        exact hnew r (.inl (hcopied r hr (by rw [hlast]; exact hlt)))
      · exact hnew _ (.inr hlast.symm)
    · intro hc
      exact absurd (hst.symm.trans hc) (by simp)
    · intro _ _ r hr hlt
      rw [hidx] at hlt
      exact absurd hlt (not_below_one hr)
    · intro hc
      exact absurd (hst.symm.trans hc) (by simp)
  · have hst : (s.step i).unit.state = .save := by simp [hunit, hlast]
    have hidx : (s.step i).unit.regIdx = s.unit.regIdx + 1 := by simp [hunit, hlast]
    have hid : (s.step i).unit.oldIdLatched = t := by simp [hunit, hold]
    refine ⟨by simpa [hunit] using h.savedPc, fun hno => absurd ⟨hst, hid⟩ hno, fun _ _ => ⟨hregs.trans hR, ?_⟩, ?_, ?_⟩
    · rw [hidx]
      exact below_next (fun r hr hlt => hnew r (.inl (hcopied r hr hlt))) (hnew _ (.inr rfl))
    · intro hc
      exact absurd (hst.symm.trans hc) (by simp)
    · intro hc
      exact absurd (hst.symm.trans hc) (by simp)

/-- another bank is written -/
theorem Keeps.step_save_other (h : Keeps t R pc s) (hsave : s.unit.state = .save) (hold : s.unit.oldIdLatched ≠ t) :
    Keeps t R pc (s.step i) := by
  have hunit := step_unit_of_save (i := i) hsave
  have hid : (s.step i).unit.oldIdLatched ≠ t := by simpa [hunit] using hold
  have hbank : ∀ r ≠ 0, (s.step i).unit.regBanks t r = R r := by
    intro r hr
    rw [hunit]
    dsimp only
    rw [Function.update_of_ne (Ne.symm hold)]
    exact h.bank (fun hc => hold hc.2) r hr
  refine ⟨by simpa [hunit] using h.savedPc, fun _ => hbank, fun _ hc => absurd hc hid, ?_, ?_⟩
  · intro hst _ r hr hlt
    have hlast : s.unit.regIdx = 31#5 := by
      by_contra hne
      simp [hunit, hne] at hst
    have hidx : (s.step i).unit.regIdx = 1 := by simp [hunit, hlast]
    rw [hidx] at hlt
    exact absurd hlt (not_below_one hr)
  · intro hst
    rw [hunit] at hst
    dsimp only at hst
    split at hst <;> exact absurd hst (by simp)

theorem Keeps.step_save (h : Keeps t R pc s) (hsave : s.unit.state = .save) : Keeps t R pc (s.step i) := by
  by_cases hold : s.unit.oldIdLatched = t
  · exact h.step_save_own hsave hold
  · exact h.step_save_other hsave hold

theorem Keeps.step_load (h : Keeps t R pc s) (hload : s.unit.state = .load) : Keeps t R pc (s.step i) := by
  have hbank := h.bank (by simp [hload])
  have hregs := step_regs_of_load (i := i) hload
  -- the registers behind the cycle
  have hnew (hid : s.unit.newIdLatched = t) (r : RegAddr) (hr : r ≠ 0) (hold : s.regs r = R r ∨ r = s.unit.regIdx) :
      (s.step i).regs r = R r := by
    rw [hregs, hid]
    by_cases heq : r = s.unit.regIdx
    · rw [heq, Function.update_self]
      exact hbank _ (by rw [← heq]; exact hr)
    · rw [Function.update_of_ne heq]
      exact hold.resolve_right heq
  by_cases hlast : s.unit.regIdx = 31#5
  · have hunit : (s.step i).unit =
        { s.unit with state := .done, restorePcReg := s.unit.savedPc s.unit.newIdLatched } := by
      simp [SwitchUnit.step, ContextSwitch.step, hload, hlast]
    refine ⟨by rw [hunit]; exact h.savedPc, fun _ => by rw [hunit]; exact hbank, ?_, ?_, ?_⟩
    · intro hst
      rw [hunit] at hst
      exact absurd hst (by simp)
    · intro hst
      rw [hunit] at hst
      exact absurd hst (by simp)
    · intro _ hid
      have hid' : s.unit.newIdLatched = t := by rw [hunit] at hid; exact hid
      refine ⟨below_last ?_ ?_, ?_⟩
      · intro r hr hlt
        exact hnew hid' r hr (.inl (h.loading hload hid' r hr (by rw [hlast]; exact hlt)))
      · exact hnew hid' _ (by decide) (.inr hlast.symm)
      · rw [restorePc, hunit]
        dsimp only
        rw [hid', h.savedPc]
  · have hunit : (s.step i).unit = { s.unit with regIdx := s.unit.regIdx + 1 } := by
      rw [SwitchUnit.step]
      exact ContextSwitch.step_of_load hload hlast
    refine ⟨by rw [hunit]; exact h.savedPc, fun _ => by rw [hunit]; exact hbank, ?_, ?_, ?_⟩
    · intro hst
      rw [hunit] at hst
      exact absurd (hload.symm.trans hst) (by simp)
    · intro _ hid
      have hid' : s.unit.newIdLatched = t := by rw [hunit] at hid; exact hid
      intro r hr hlt
      rw [hunit] at hlt
      by_cases heq : r = s.unit.regIdx
      · exact hnew hid' r hr (.inr heq)
      · exact hnew hid' r hr (.inl (h.loading hload hid' r hr (by dsimp only at hlt; bv_omega)))
    · intro hst
      rw [hunit] at hst
      exact absurd (hload.symm.trans hst) (by simp)

theorem Keeps.step_done (h : Keeps t R pc s) (hdone : s.unit.state = .done) : Keeps t R pc (s.step i) := by
  have hunit : (s.step i).unit = { s.unit with state := .idle } := by
    simp [SwitchUnit.step, ContextSwitch.step, hdone]
  refine ⟨by rw [hunit]; exact h.savedPc, fun _ => ?_, ?_, ?_, ?_⟩
  · rw [hunit]
    exact h.bank (by simp [hdone])
  all_goals
    intro hst
    rw [hunit] at hst
    exact absurd hst (by simp)

/-- **One cycle**: what the unit holds of a task stays until a switch begins to save the task again. -/
theorem Keeps.step (h : Keeps t R pc s) (hno : ∀ new, ¬ s.Accepts i t new) : Keeps t R pc (s.step i) := by
  cases hst : s.unit.state with
  | idle => exact h.step_idle hst hno
  | save => exact h.step_save hst
  | load => exact h.step_load hst
  | done => exact h.step_done hst

/-! ## Runs -/

section Run

variable (regs : RegAddr → Word) (ins : ℕ → SwitchUnitIn)

/-- the unit and the register file before cycle `n` -/
def stateAt (n : ℕ) : SwitchUnit := trace SwitchUnit.step (reset regs) ins n

theorem stateAt_succ (n : ℕ) : stateAt regs ins (n + 1) = (stateAt regs ins n).step (ins n) := trace_succ ..

def Begins (n : ℕ) (old new : TaskId) : Prop := (stateAt regs ins n).Accepts (ins n) old new

/-- the last switch up to cycle `n` that saved the task `t` began in cycle `k` -/
def SavedLast (n : ℕ) (t : TaskId) (k : ℕ) : Prop :=
  k ≤ n ∧ (∃ new, Begins regs ins k t new) ∧ ∀ m, k < m → m ≤ n → ∀ new, ¬ Begins regs ins m t new

variable {regs ins} {n k : ℕ}

theorem unit_runs : ContextSwitch.Runs (fun n => (stateAt regs ins n).unit) (fun n => (ins n).req)
    (fun n => (stateAt regs ins n).regs (stateAt regs ins n).unit.cpuRegAddr) fun n => (ins n).pc := by
  intro n
  change (stateAt regs ins (n + 1)).unit = _
  rw [stateAt_succ]
  rfl

/-- **The phases of a switch**: 31 saves, 31 loads, one `switch_done`, and the unit is idle again. -/
theorem switch_phases (h : Begins regs ins n old new) :
    (∀ j < 31, (stateAt regs ins (n + 1 + j)).unit.state = .save) ∧
      (∀ j < 31, (stateAt regs ins (n + 32 + j)).unit.state = .load) ∧
        (stateAt regs ins (n + 63)).unit.state = .done ∧ (stateAt regs ins (n + 64)).unit.state = .idle := by
  obtain ⟨hidle, hreq⟩ := h
  refine ⟨fun j hj => ?_, fun j hj => ?_, ?_⟩
  · exact (ContextSwitch.save_run unit_runs hidle hreq j hj).1
  · exact (ContextSwitch.load_run unit_runs hidle hreq j hj).1
  · exact ContextSwitch.done_of_request unit_runs hidle hreq

/-- the unit is busy in all cycles of a switch, and `switch_done` is up in the last -/
theorem switch_busy (h : Begins regs ins n old new) {m : ℕ} (hlt : n < m) (hle : m ≤ n + 63) :
    (stateAt regs ins m).unit.state ≠ .idle ∧ ((stateAt regs ins m).unit.switchDone = true ↔ m = n + 63) := by
  obtain ⟨hsave, hload, hdone, -⟩ := switch_phases h
  rcases Nat.lt_or_ge m (n + 32) with h1 | h1
  · obtain ⟨j, rfl⟩ : ∃ j, m = n + 1 + j := ⟨m - (n + 1), by omega⟩
    have hst := hsave j (by omega)
    refine ⟨by simp [hst], ?_⟩
    simp only [ContextSwitch.switchDone, hst]
    exact ⟨fun hc => absurd hc (by simp), fun hc => absurd hc (by omega)⟩
  · rcases Nat.lt_or_ge m (n + 63) with h2 | h2
    · obtain ⟨j, rfl⟩ : ∃ j, m = n + 32 + j := ⟨m - (n + 32), by omega⟩
      have hst := hload j (by omega)
      refine ⟨by simp [hst], ?_⟩
      simp only [ContextSwitch.switchDone, hst]
      exact ⟨fun hc => absurd hc (by simp), fun hc => absurd hc (by omega)⟩
    · obtain rfl : m = n + 63 := by omega
      refine ⟨by simp [hdone], ?_⟩
      simp [ContextSwitch.switchDone, hdone]

/-- in a busy cycle a switch is under way -/
theorem begun_of_busy (hbusy : (stateAt regs ins n).unit.state ≠ .idle) :
    ∃ k old new, Begins regs ins k old new ∧ k < n ∧ n ≤ k + 63 := by
  induction n with
  | zero => exact absurd rfl hbusy
  | succ n ih =>
    by_cases hidle : (stateAt regs ins n).unit.state = .idle
    · cases hreq : (ins n).req with
      | none =>
        rw [stateAt_succ, step_of_idle hidle, hreq] at hbusy
        simp [ContextSwitch.step, hidle] at hbusy
      | some ids => exact ⟨n, ids.1, ids.2, ⟨hidle, hreq⟩, Nat.lt_succ_self n, by omega⟩
    · obtain ⟨k, old, new, hk, hlt, hle⟩ := ih hidle
      refine ⟨k, old, new, hk, by omega, ?_⟩
      by_contra hgt
      obtain rfl : n = k + 63 := by omega
      exact hbusy (switch_phases hk).2.2.2

/-- the copies never touch x0 -/
theorem regIdx_ne_zero (n : ℕ) (h : (stateAt regs ins n).unit.state = .save ∨ (stateAt regs ins n).unit.state = .load) :
    (stateAt regs ins n).unit.regIdx ≠ 0 := by
  have hbusy : (stateAt regs ins n).unit.state ≠ .idle := by rcases h with h | h <;> simp [h]
  have hcount {j : ℕ} (hj : j < 31) : BitVec.ofNat 5 (j + 1) ≠ 0 := by
    intro hc
    have := congrArg BitVec.toNat hc
    rw [BitVec.toNat_ofNat] at this
    change (j + 1) % 32 = 0 at this
    omega
  obtain ⟨k, old, new, hk, hlt, hle⟩ := begun_of_busy hbusy
  rcases Nat.lt_or_ge n (k + 32) with h1 | h1
  · obtain ⟨j, rfl⟩ : ∃ j, n = k + 1 + j := ⟨n - (k + 1), by omega⟩
    rw [(ContextSwitch.save_run unit_runs hk.1 hk.2 j (by omega)).2.1]
    exact hcount (by omega)
  · rcases Nat.lt_or_ge n (k + 63) with h2 | h2
    · obtain ⟨j, rfl⟩ : ∃ j, n = k + 32 + j := ⟨n - (k + 32), by omega⟩
      rw [(ContextSwitch.load_run unit_runs hk.1 hk.2 j (by omega)).2]
      exact hcount (by omega)
    · obtain rfl : n = k + 63 := by omega
      have hdone := (switch_phases hk).2.2.1
      rcases h with h | h <;> exact absurd (hdone.symm.trans h) (by simp)

theorem x0_not_written (n : ℕ) (h : (stateAt regs ins n).unit.cpuRegWe = true) :
    (stateAt regs ins n).unit.cpuRegAddr ≠ 0 := by
  have hload : (stateAt regs ins n).unit.state = .load := by simpa [ContextSwitch.cpuRegWe] using h
  have haddr : (stateAt regs ins n).unit.cpuRegAddr = (stateAt regs ins n).unit.regIdx := by
    simp [ContextSwitch.cpuRegAddr, hload]
  rw [haddr]
  exact regIdx_ne_zero n (.inr hload)

/-- from the cycle behind the last save of the task on, the unit holds what the CPU had then -/
theorem keeps_run (h : SavedLast regs ins n t k) {m : ℕ} (hkm : k < m) (hm : m ≤ n + 1) :
    Keeps t (stateAt regs ins (k + 1)).regs (ins k).pc (stateAt regs ins m) := by
  obtain ⟨-, ⟨new, hbegin⟩, hlast⟩ := h
  induction m with
  | zero => exact absurd hkm (Nat.not_lt_zero k)
  | succ m ih =>
    rcases (Nat.lt_succ_iff.1 hkm).eq_or_lt with rfl | hlt
    · have hregs : (stateAt regs ins (k + 1)).regs = (ins k).regs := by rw [stateAt_succ, step_of_idle hbegin.1]
      rw [hregs, stateAt_succ]
      exact keeps_of_accepts hbegin
    · rw [stateAt_succ]
      exact (ih hlt (Nat.le_of_succ_le hm)).step (hlast m hlt (Nat.le_of_succ_le_succ hm))

/-- **A switch into a task that was saved** ends with the registers and the PC that the CPU had as the last switch that
saved the task began; a switch from a task to itself is one of them. -/
theorem delivers (h : Begins regs ins n old t) (hsaved : SavedLast regs ins n t k) :
    (∀ r ≠ 0, (stateAt regs ins (n + 63)).regs r = (stateAt regs ins (k + 1)).regs r) ∧
      (stateAt regs ins (n + 63)).restorePc = (ins k).pc := by
  have hnext : SavedLast regs ins (n + 62) t k := by
    obtain ⟨hle, hbegin, hlast⟩ := hsaved
    refine ⟨by omega, hbegin, fun m hm hmn new hc => ?_⟩
    rcases Nat.lt_or_ge n m with hlt | hge
    · exact (switch_busy h hlt (by omega)).1 hc.1
    · exact hlast m hm hge new hc
  have hk := hsaved.1
  obtain ⟨hdone, -⟩ := (switch_phases h).2.2
  have hnew : (stateAt regs ins (n + 63)).unit.newIdLatched = t := by
    obtain ⟨hst, hidx⟩ := ContextSwitch.load_run unit_runs h.1 h.2 30 (by omega)
    obtain ⟨hnew, -⟩ := ContextSwitch.load_frame unit_runs h.1 h.2 30 (by omega)
    rw [show n + 63 = n + 32 + 30 + 1 by omega, stateAt_succ]
    simpa [SwitchUnit.step, ContextSwitch.step, hst, hidx] using hnew
  exact (keeps_run hnext (by omega) (le_refl _)).loaded hdone hnew

/-- **The law of the unit**, for every sequence of requests and whatever the CPU does while the unit is idle. The PC of
a switch is the one in the cycle of the request, its registers are the ones that this cycle leaves. -/
theorem round_trip_law (regs : RegAddr → Word) (ins : ℕ → SwitchUnitIn) :
    (∀ n old new, Begins regs ins n old new →
      (∀ m, n < m → m ≤ n + 63 → ((stateAt regs ins m).unit.switchDone = true ↔ m = n + 63)) ∧
        (stateAt regs ins (n + 64)).unit.state = .idle) ∧
      (∀ m, (stateAt regs ins m).unit.switchDone = true → ∃ n old new, Begins regs ins n old new ∧ m = n + 63) ∧
        (∀ n, (stateAt regs ins n).unit.cpuRegWe = true → (stateAt regs ins n).unit.cpuRegAddr ≠ 0) ∧
          ∀ n old t k, Begins regs ins n old t → SavedLast regs ins n t k →
            (∀ r ≠ 0, (stateAt regs ins (n + 63)).regs r = (stateAt regs ins (k + 1)).regs r) ∧
              (stateAt regs ins (n + 63)).restorePc = (ins k).pc := by
  refine ⟨fun n old new h => ⟨fun m hlt hle => (switch_busy h hlt hle).2, (switch_phases h).2.2.2⟩, ?_, x0_not_written,
    fun n old t k => delivers⟩
  intro m hdone
  have hst : (stateAt regs ins m).unit.state = .done := by simpa [ContextSwitch.switchDone] using hdone
  have hbusy : (stateAt regs ins m).unit.state ≠ .idle := by simp [hst]
  obtain ⟨n, old, new, h, hlt, hle⟩ := begun_of_busy hbusy
  exact ⟨n, old, new, h, (switch_busy h hlt hle).2.1 hdone⟩

end Run

end SwitchUnit

end Vsync
