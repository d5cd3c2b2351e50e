/-
Synchronous redirects: the traps of the instruction in EX, and `mret`.

- `redirect_precise_iff`: such a redirect is precise exactly when no store traps in MEM, and every cycle up to the one
  in which EX/MEM moves on is accurate.
- `redirect_precise_load`: behind a load that waits for memory, a trap is precise.
- `redirect_loses_write`: the instruction before a trap never writes its register.
-/
import Vsync.Core.Drain

namespace Vsync.Ledger

/-! ## Synchronous redirects -/

def EcallOnly (c : Ctrl) : Prop :=
  c.ecall = true → c.illegalInstr = false ∧ c.ebreak = false ∧ c.mret = false ∧ c.branch = false ∧ c.jal = false ∧
    c.jalr = false

theorem ecallOnly_ctrl (instr : Word) : EcallOnly (Decode.ctrl instr) := by
  have h := Decode.decoded_ctrl instr
  generalize Decode.ctrl instr = c at h
  cases h <;> simp [EcallOnly, Ctrl.idle]

/-- ID/EX holds a decoded instruction, and nothing valid while a syscall is in progress -/
structure IdExInv (w : Ledger) : Prop where
  ecall : EcallOnly w.core.idEx.ctrl
  sys : w.core.sysState ≠ .idle → w.core.idEx.valid = false

theorem step_idExInv {prog : Program} {w : Ledger} {i : BoardIn} (h : IdExInv w) : IdExInv (step prog w i) where
  ecall := by
    change EcallOnly (w.core.idExNext (w.coreIn i)).ctrl
    unfold Rv32imCore.idExNext
    split_ifs
    · simp [EcallOnly, IdEx.bubble, Ctrl.idle]
    · exact h.ecall
    · exact ecallOnly_ctrl _
  sys hs := by
    change (w.core.idExNext (w.coreIn i)).valid = false
    have hs' : w.core.sysNext (w.coreIn i) ≠ .idle := hs
    unfold Rv32imCore.idExNext
    by_cases hact : w.core.sysState = .idle
    · have he : w.core.ecallDetected = true := by
        by_contra hc
        simp [Rv32imCore.sysNext, hact, hc] at hs'
      simp [Rv32imCore.flushId, he, IdEx.bubble]
    · have hst : w.core.stallId (w.coreIn i) = true := by
        simp [Rv32imCore.stallId, Rv32imCore.stallEx, Rv32imCore.stallMem, Rv32imCore.syscallActive, hact]
      rw [if_pos hst]
      split_ifs
      · rfl
      · exact h.sys hact

theorem idExInv (prog : Program) (mem : DataMem) (ins : ℕ → BoardIn) (n : ℕ) : IdExInv (stateAt prog mem ins n) :=
  Machine.trace_inv (step prog) (reset mem) ins ⟨by simp [EcallOnly, reset, core, Board.reset, Rv32imCore.reset,
    IdEx.bubble, Ctrl.idle], fun h => absurd rfl h⟩ (fun _ _ h => step_idExInv h) n

/-- the instruction in EX redirects: an illegal instruction, a breakpoint, a misaligned target, or an `mret` -/
def SyncRedirect (w : Ledger) (i : BoardIn) : Prop :=
  w.NoIrq i ∧ w.core.idEx.valid = true ∧
    (w.core.idEx.ctrl.illegalInstr = true ∨ w.core.idEx.ctrl.ebreak = true ∨ w.core.instrMisalign = true ∨
      w.core.idEx.ctrl.mret = true)

instance (w : Ledger) (i : BoardIn) : Decidable (w.SyncRedirect i) := by unfold SyncRedirect; infer_instance

/-- the fetch stage starts over at the redirect target, with nothing valid behind EX/MEM -/
def Restarts (w : Ledger) (target : Word) : Prop :=
  w.core.pc = target ∧ w.core.suppressValid = true ∧ w.core.ifId.valid = false ∧ w.core.idEx.valid = false

section Sync

variable {prog : Program} {w : Ledger} {i : BoardIn}

theorem SyncRedirect.flushAll (h : w.SyncRedirect i) : w.core.flushAll (w.coreIn i) = true := by
  obtain ⟨hq, hv, hr⟩ := h
  unfold NoIrq at hq
  unfold Rv32imCore.flushAll Rv32imCore.trap ExcIn.trap
  rw [hq]
  rcases hr with h | h | h | h <;> simp [ExcIn.anyException, Rv32imCore.excIn, h, hv, Trap.redirects]
  split_ifs <;> rfl

theorem SyncRedirect.noEcall (h : w.SyncRedirect i) (hi : IdExInv w) : w.core.ecallDetected = false := by
  by_contra hc
  simp only [Rv32imCore.ecallDetected, Bool.not_eq_false, Bool.and_eq_true] at hc
  obtain ⟨h1, h2, h3, h4, h5, h6⟩ := hi.ecall hc.1.2
  rcases h.2.2 with hr | hr | hr | hr
  · simp [h1] at hr
  · simp [h2] at hr
  · simp [Rv32imCore.instrMisalign, Rv32imCore.branchTaken, BranchUnit.taken, h4, h5, h6] at hr
  · simp [h3] at hr

theorem restarts_of_flushAll (h : w.core.flushAll (w.coreIn i) = true) :
    (step prog w i).Restarts (w.core.trap (w.coreIn i)).redirectPc := by
  have hr : w.core.redirect (w.coreIn i) = some (w.core.trap (w.coreIn i)).redirectPc := by
    simp [Rv32imCore.redirect, h]
  refine ⟨?_, ?_, ?_, ?_⟩
  · change w.core.pcNext (w.coreIn i) = _
    simp [Rv32imCore.pcNext, hr]
  · change w.core.suppressNext (w.coreIn i) = true
    simp [Rv32imCore.suppressNext, hr]
  · change (w.core.ifIdNext (w.coreIn i)).valid = false
    simp [Rv32imCore.ifIdNext, Rv32imCore.flushIf, h, IfId.bubble]
  · change (w.core.idExNext (w.coreIn i)).valid = false
    simp [Rv32imCore.idExNext, Rv32imCore.flushId, h, IdEx.bubble]

end Sync

/-- a precise redirect in cycle `t`: the fetch stage starts over at the target, and what the older instructions owe is
done, and nothing else, before anything else reaches EX/MEM -/
structure PreciseRedirect (prog : Program) (mem : DataMem) (ins : ℕ → BoardIn) (t : ℕ) : Prop where
  restarts : (stateAt prog mem ins (t + 1)).Restarts
    ((stateAt prog mem ins t).core.trap ((stateAt prog mem ins t).coreIn (ins t))).redirectPc
  drained : Drained prog mem ins t

/-- **A synchronous redirect is precise exactly when** no store traps in MEM in its cycle, and every cycle up to the one
in which EX/MEM moves on has dropped no register write, repeated no access, and put none on the bus that traps. The
memory answers again and again. -/
theorem redirect_precise_iff (prog : Program) (mem : DataMem) (ins : ℕ → BoardIn) (t : ℕ)
    (ha : ∀ n, ∃ k ≥ n, (ins k).answer = true) (hr : (stateAt prog mem ins t).SyncRedirect (ins t)) :
    PreciseRedirect prog mem ins t ↔
      (stateAt prog mem ins t).core.storeMisalign = false ∧
        ∀ k, HeldFrom prog mem ins t k → Accurate prog mem ins k := by
  have hinv := idExInv prog mem ins t
  have hsys : (stateAt prog mem ins t).core.sysState = .idle := by
    by_contra hc
    have := hinv.sys hc
    simp [hr.2.1] at this
  rw [← drained_iff hr.flushAll (hr.noEcall hinv) hsys ha]
  exact ⟨fun h => h.drained, fun h => ⟨restarts_of_flushAll hr.flushAll, h⟩⟩

def trapProgram (first : Word) : Program := fun a => if a = 0 then first else 0

/-- the memory answers at once, and there are no interrupts -/
def calmRun (_ : ℕ) : BoardIn := { BoardIn.quiet with answer := true }

/-- the memory answers from cycle `n` on, and there are no interrupts -/
def slowRun (n k : ℕ) : BoardIn := { BoardIn.quiet with answer := decide (n ≤ k) }

/-- behind `lw x1, 0(x0)`, which waits for memory up to cycle 9, the trap of the illegal instruction in cycle 4 is
precise -/
theorem redirect_precise_load : PreciseRedirect (trapProgram 0x00002083) (fun _ => 0) (slowRun 9) 4 :=
  (redirect_precise_iff (trapProgram 0x00002083) (fun _ => 0) (slowRun 9) 4
    (fun n => ⟨max n 9, le_max_left _ _, decide_eq_true (le_max_right n 9)⟩) (by decide +kernel)).2
      ⟨by decide +kernel, accurate_of_moves (m := 9) (by decide) (by decide +kernel) (by decide +kernel)⟩

/-- **An instruction before a trap never writes its register.** `addi x1, x0, 5` is in EX/MEM when the illegal
instruction behind it traps in cycle 4; it owes a write to `x1`, and the pipeline is empty in cycle 5 with nothing done.
-/
theorem redirect_loses_write :
    (stateAt (trapProgram 0x00500093) (fun _ => 0) calmRun 4).SyncRedirect (calmRun 4) ∧
      (stateAt (trapProgram 0x00500093) (fun _ => 0) calmRun 4).owed = [.write 0 1] ∧
      (stateAt (trapProgram 0x00500093) (fun _ => 0) calmRun 5).done = [] ∧
      ¬ PreciseRedirect (trapProgram 0x00500093) (fun _ => 0) calmRun 4 := by
  have h : (stateAt (trapProgram 0x00500093) (fun _ => 0) calmRun 4).SyncRedirect (calmRun 4) ∧
      (stateAt (trapProgram 0x00500093) (fun _ => 0) calmRun 4).owed = [.write 0 1] ∧
      (stateAt (trapProgram 0x00500093) (fun _ => 0) calmRun 5).done = [] ∧
      (stateAt (trapProgram 0x00500093) (fun _ => 0) calmRun 5).Emptied := by decide +kernel
  obtain ⟨h1, h2, h3, h4⟩ := h
  refine ⟨h1, h2, h3, fun hp => ?_⟩
  obtain ⟨m, hm, -, hf, hd⟩ := hp.drained
  have hm5 : m = 5 := by
    by_contra hne
    exact hf 5 (by omega) (by omega) h4
  subst hm5
  rw [h2, h3] at hd
  exact absurd hd (by decide)

end Vsync.Ledger
