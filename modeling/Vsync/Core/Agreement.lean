/-
The run beside the sequential machine.

- `agrees_front`, `agrees_regs`, `agrees_mem`: one cycle keeps the agreement; `executes`: the instruction that leaves
  EX.
- `agrees`: as long as every cycle is orderly, the core agrees with the sequential machine.
- `ecall_sequential_iff`: when an `ecall` presents the registers of the sequential machine and leaves them, but for
  `a0`.
- `ecall_loses_ret`: the instruction before the `ecall`, which sets `a0`, writes it again over the result.
-/
import Vsync.Core.Sequential

namespace Vsync

namespace Sequential

section Step

variable {prog : Program} {q : Sequential} {w : Ledger} {i : BoardIn}

/-- while nothing leaves EX, only the pc moves -/
theorem moved_of_stays (hi : w.issues i = false) :
    (q.moved prog w i).regs = q.arch.regs ∧ (q.moved prog w i).mem = q.arch.mem := by
  unfold moved
  simp only [hi, Bool.false_eq_true, if_false]
  split_ifs <;> exact ⟨rfl, rfl⟩

theorem moved_of_issues (hi : w.issues i = true) : q.moved prog w i = q.arch.execute prog q.csr := by
  have hf : w.core.flushAll (w.coreIn i) = false := (Ledger.moves_of_issues hi).2
  have he : w.core.ecallDetected = false := by
    by_contra he
    rw [Ledger.issues_of_ecall (Bool.eq_true_of_not_eq_false he)] at hi
    exact Bool.noConfusion hi
  simp [moved, hf, he, hi]

theorem step_pc : (q.step prog w i).arch.pc = (q.moved prog w i).pc := by
  unfold step
  cases w.syscallResult i <;> rfl

theorem step_mem : (q.step prog w i).arch.mem = (q.moved prog w i).mem := by
  unfold step
  cases w.syscallResult i <;> rfl

theorem step_arch (h : w.core.sysState ≠ .wait) : (q.step prog w i).arch = q.moved prog w i := by
  have hr : w.syscallResult i = none := if_neg h
  unfold step
  rw [hr]

theorem step_of_hold (h : w.core.sysState ≠ .wait) (hs : w.stallId i = true) (hm : q.moved prog w i = q.arch) :
    q.step prog w i = q := by
  have harch : (q.step prog w i).arch = q.arch := (step_arch h).trans hm
  have hcsr : (q.step prog w i).csr = q.csr := if_pos hs
  cases q
  exact congrArg₂ Sequential.mk harch hcsr

theorem execute_pc (q : Sequential) : (q.arch.execute prog q.csr).pc = (q.effect prog).nextPc := by
  unfold Isa.State.execute
  split_ifs <;> rfl

end Step

end Sequential

namespace Ledger

open Vsync.Sequential

theorem Front.retarget {prog : Program} {w : Ledger} {pc target : Word} (h : Front prog w pc target)
    (hv : w.core.idEx.valid = false) (target' : Word) : Front prog w pc target' :=
  ⟨h.idEx, h.next, fun hc => by simp [hv] at hc⟩

section Agreement

variable {prog : Program} {mem : DataMem} {ins : ℕ → BoardIn} {n : ℕ}

theorem seqAt_succ (n : ℕ) :
    seqAt prog mem ins (n + 1) = (seqAt prog mem ins n).step prog (stateAt prog mem ins n) (ins n) := rfl

/-! ## The front -/

theorem not_spurious (ha : Agrees prog mem ins n) (ho : Orderly prog mem ins n) :
    ¬ ((stateAt prog mem ins n).TargetTrap (ins n) ∧
      ((seqAt prog mem ins n).effect prog).nextPc.extractLsb' 0 2 = 0#2) := by
  rintro ⟨ht, hz⟩
  have hm := ht.2.2.2
  simp only [Rv32imCore.instrMisalign, Bool.and_eq_true, bne_iff_ne] at hm
  rw [branchTarget_of_consults ha ho (Or.inr (Or.inr ht)) hm.1] at hm
  exact hm.2 hz

/-- the instruction that leaves EX, or the empty EX, goes where the sequential machine goes -/
theorem goesTo (ha : Agrees prog mem ins n) (ho : Orderly prog mem ins n) (hr : (stateAt prog mem ins n).Runs (ins n))
    (hs : (stateAt prog mem ins n).stallId (ins n) = false) :
    (stateAt prog mem ins n).GoesTo (seqAt prog mem ins n).arch.pc ((seqAt prog mem ins n).effect prog).nextPc
      ((seqAt prog mem ins n).moved prog (stateAt prog mem ins n) (ins n)).pc := by
  have hs' : (stateAt prog mem ins n).core.stallId ((stateAt prog mem ins n).coreIn (ins n)) = false := hs
  simp only [Rv32imCore.stallId, Rv32imCore.loadUse, Bool.or_eq_false_iff] at hs'
  obtain ⟨⟨hid, hex⟩, hst⟩ := hs'
  have hissue : (stateAt prog mem ins n).issues (ins n) = (stateAt prog mem ins n).core.idEx.valid := by
    have hc : (stateAt prog mem ins n).core.ctxState = .idle := hr.plain.1
    have hst' : (stateAt prog mem ins n).stallEx (ins n) = false := hst
    simp [issues, Rv32imCore.flushEx, Rv32imCore.loadUse, hid, hex, hst', hr.flushAll, hr.ecall, hc]
  constructor
  · intro hv
    rw [hv] at hissue
    have hc : (stateAt prog mem ins n).Consults (ins n) := Or.inl hissue
    refine ⟨?_, fun hb => branchTarget_of_consults ha ho hc (jump_of_branchFlush hb).1, fun hb => ?_⟩
    · rw [moved_of_issues hissue, execute_pc]
    · refine straight_of_consults ha ho hc ?_
      simpa [Rv32imCore.branchFlush, hex] using hb
  · intro hv
    rw [hv] at hissue
    simp [moved, hr.flushAll, hr.ecall, hissue]

/-- **The core stands where the sequential machine stands.** -/
theorem agrees_front (ha : Agrees prog mem ins n) (ho : Orderly prog mem ins n) :
    Front prog (stateAt prog mem ins (n + 1)) (seqAt prog mem ins (n + 1)).arch.pc
      ((seqAt prog mem ins (n + 1)).effect prog).nextPc := by
  have hpc : (seqAt prog mem ins (n + 1)).arch.pc =
      ((seqAt prog mem ins n).moved prog (stateAt prog mem ins n) (ins n)).pc := step_pc
  rw [stateAt_succ, hpc]
  cases hf : (stateAt prog mem ins n).core.flushAll ((stateAt prog mem ins n).coreIn (ins n)) with
  | true =>
    rw [moved, if_pos hf, if_neg (not_spurious ha ho)]
    exact front_of_restarts (restarts_of_flushAll hf) _
  | false =>
    cases he : (stateAt prog mem ins n).core.ecallDetected with
    | true =>
      have hv : (stateAt prog mem ins n).core.idEx.valid = true := by
        simp only [Rv32imCore.ecallDetected, Bool.and_eq_true] at he
        exact he.1.1
      obtain ⟨r1, r2, hid⟩ := ha.front.idEx hv
      have hat : (stateAt prog mem ins n).core.idEx.pc = (seqAt prog mem ins n).arch.pc := by rw [hid]; rfl
      have hrst : (step prog (stateAt prog mem ins n) (ins n)).Restarts _ :=
        restarts_of_ecall he (ExcIn.legal_of_trap hf).1
      rw [hat] at hrst
      simp only [moved, hf, he, Bool.false_eq_true, if_false, if_true]
      exact front_of_restarts hrst _
    | false =>
      have hr : (stateAt prog mem ins n).Runs (ins n) := ⟨plain prog mem ins n, hf, he⟩
      cases hs : (stateAt prog mem ins n).stallId (ins n) with
      | false => exact step_front_of_moves ha.front hr hs (goesTo ha ho hr hs) _
      | true =>
        have hi : (stateAt prog mem ins n).issues (ins n) = false := by
          have hs' : (stateAt prog mem ins n).core.stallId ((stateAt prog mem ins n).coreIn (ins n)) = true := hs
          simp only [Rv32imCore.stallId, Bool.or_eq_true] at hs'
          rcases hs' with hs' | hs'
          · simp [issues, Rv32imCore.flushEx, hs']
          · simp [issues, stallEx, hs']
        have hmoved : (seqAt prog mem ins n).moved prog (stateAt prog mem ins n) (ins n) =
            (seqAt prog mem ins n).arch := by
          simp [moved, hf, he, hi]
        have hfront := step_front_of_hold ha.front hr hs (fun hb => stallEx_of_branchFlush ha ho hb hf hs)
          fun hb => branchTarget_of_consults ha ho (Or.inr (Or.inl ⟨hb, hf⟩)) (jump_of_branchFlush hb).1
        rw [hmoved]
        cases hv : (stateAt prog mem ins n).core.idEx.valid with
        | false =>
          exact hfront.retarget (step_invalid hs hv) _
        | true =>
          -- nothing moves on either side
          have hsys := sys_of_valid (idExInv prog mem ins n) hv
          have hseq : seqAt prog mem ins (n + 1) = seqAt prog mem ins n := by
            rw [seqAt_succ]
            exact step_of_hold (by rw [hsys]; decide) hs hmoved
          rw [hseq]
          exact hfront

/-! ## The registers and the memory -/

section Issue

variable {w : Ledger} {i : BoardIn} {s : Isa.State} {e : Isa.Effect}

/-- an instruction without a data access does its write to the registers that are due -/
theorem step_dueReg_of_noAccess (prog : Program) (hd : BusData w) (hk : Kinds w) (hpl : w.board.Plain)
    (hsys : w.core.sysState ≠ .writeback) (hi : w.issues i = true)
    (hna : (step prog w i).exMem.isAccess = false) {v : Word} (hreg : ∀ x, s.reg x = w.dueReg x)
    (hw : e.write = if w.core.idEx.ctrl.regWrite then some (w.core.idEx.rdAddr, v) else none)
    (hv : w.core.idEx.ctrl.regWrite = true → w.core.idEx.rdAddr ≠ 0#5 →
      (step prog w i).orderReg w.core.idEx.rdAddr = v) (x : RegAddr) :
    (s.apply e).reg x = (step prog w i).dueReg x := by
  have hx := exMem_of_issues prog hi
  have hfault : (step prog w i).exMem.faults = false := by simp [ExMem.faults, hna]
  by_cases hwr : w.core.idEx.ctrl.regWrite = true ∧ w.core.idEx.rdAddr = x ∧ x ≠ 0#5
  · obtain ⟨hwr, rfl, hne⟩ := hwr
    rw [dueReg_of_noFault hfault, hv hwr hne]
    simp [Isa.State.apply, Isa.State.reg, hw, hwr, hne]
  · have hdue : ¬ (step prog w i).Due x := by
      rintro ⟨⟨hw', hrd⟩, -⟩
      rw [hx] at hw' hrd
      simp only [ExMem.isWrite, Rv32imCore.executed, Bool.and_eq_true, bne_iff_ne] at hw' hrd
      exact hwr ⟨hw'.1.1.1, hrd, hrd ▸ hw'.2⟩
    rw [step_dueReg_of_issues prog hd hk hpl hsys hi, if_neg hdue, ← hreg]
    refine Isa.reg_apply_of_ne fun v' hne hv' => hwr ?_
    rw [hw] at hv'
    split_ifs at hv' with h
    cases hv'
    exact ⟨h, rfl, hne⟩

end Issue

/-- the instruction that leaves EX does to the due registers and memory what the sequential machine does -/
def Executes (prog : Program) (mem : DataMem) (ins : ℕ → BoardIn) (n : ℕ) : Prop :=
  (∀ x, ((seqAt prog mem ins n).arch.execute prog (seqAt prog mem ins n).csr).reg x =
    (stateAt prog mem ins (n + 1)).dueReg x) ∧
    ((seqAt prog mem ins n).arch.execute prog (seqAt prog mem ins n).csr).mem = (stateAt prog mem ins (n + 1)).dueMem

theorem executes_base (ha : Agrees prog mem ins n) (ho : Orderly prog mem ins n)
    (hi : (stateAt prog mem ins n).issues (ins n) = true) {i : Isa.Instr}
    (hd : Isa.decode (prog.fetch (seqAt prog mem ins n).arch.pc) = some i) : Executes prog mem ins n := by
  have hc : (stateAt prog mem ins n).Consults (ins n) := Or.inl hi
  have hv := valid_of_issues hi
  have hsys := sys_of_valid (idExInv prog mem ins n) hv
  have hwb : (stateAt prog mem ins n).core.sysState ≠ .writeback := by rw [hsys]; decide
  have hreg := ha.regs hsys
  obtain ⟨r1, r2, hid⟩ := ha.front.idEx hv
  have hop := operands_of_consults ha ho hc hd
  have hbase := Isa.base_of_decode hd
  have hx : (stateAt prog mem ins (n + 1)).exMem = (stateAt prog mem ins n).core.idEx.executed
      (stateAt prog mem ins n).core.rs1Forwarded (stateAt prog mem ins n).core.rs2Forwarded := by
    rw [stateAt_succ, exMem_of_issues prog hi]
    exact executed_of_base hi (by rw [hid]; exact hbase)
  rw [hid] at hop hx
  by_cases hal : (seqAt prog mem ins n).arch.AccessAligned prog
  · have hcar : ExMem.Carries _ ((seqAt prog mem ins n).arch.fullEffect prog (seqAt prog mem ins n).csr) _ :=
      Isa.carries_of_aligned hd hal hop
    rw [← hx, stateAt_succ] at hcar
    rw [Executes, Isa.State.execute, if_pos hal]
    exact ⟨fun x => (step_dueReg_of_carries prog (busData prog mem ins n) (kinds prog mem ins n)
      (plain prog mem ins n) hwb hi
      ha.mem hreg hcar x).symm, (step_dueMem_of_carries prog (busData prog mem ins n) hi ha.mem hcar).symm⟩
  · -- the access traps in MEM, and does nothing
    have hfault := Isa.faults_of_unaligned hal fun j hj => by
      rw [hd] at hj
      cases hj
      exact hop
    rw [← hx, stateAt_succ] at hfault
    rw [Executes, Isa.State.execute, if_neg hal]
    refine ⟨fun x => ?_, ?_⟩
    · rw [stateAt_succ, step_dueReg_of_issues prog (busData prog mem ins n) (kinds prog mem ins n)
        (plain prog mem ins n) hwb hi, if_neg fun h => by simp [h.2] at hfault]
      exact hreg x
    · rw [stateAt_succ, dueMem, if_pos hfault, step_mem_due prog (busData prog mem ins n) (moves_of_issues hi).1]
      exact ha.mem

/-- an instruction that is no branch, no jump and no data access -/
theorem executes_straight (ha : Agrees prog mem ins n) (hi : (stateAt prog mem ins n).issues (ins n) = true)
    (hd : Isa.decode (prog.fetch (seqAt prog mem ins n).arch.pc) = none)
    (hs : Isa.Straight (Decode.ctrl (prog.fetch (seqAt prog mem ins n).arch.pc))) {v : Word}
    (hacc : ((seqAt prog mem ins n).effect prog).access = none)
    (hw : ((seqAt prog mem ins n).effect prog).write =
      if (stateAt prog mem ins n).core.idEx.ctrl.regWrite then some ((stateAt prog mem ins n).core.idEx.rdAddr, v)
        else none)
    (hv : (stateAt prog mem ins n).core.idEx.ctrl.regWrite = true → (stateAt prog mem ins n).core.idEx.rdAddr ≠ 0#5 →
      (stateAt prog mem ins (n + 1)).orderReg (stateAt prog mem ins n).core.idEx.rdAddr = v) :
    Executes prog mem ins n := by
  have hvalid := valid_of_issues hi
  have hsys := sys_of_valid (idExInv prog mem ins n) hvalid
  obtain ⟨r1, r2, hid⟩ := ha.front.idEx hvalid
  have hctrl : (stateAt prog mem ins n).core.idEx.ctrl = Decode.ctrl (prog.fetch (seqAt prog mem ins n).arch.pc) := by
    rw [hid]; rfl
  have hna : (step prog (stateAt prog mem ins n) (ins n)).exMem.isAccess = false := by
    rw [exMem_of_issues prog hi]
    simp [ExMem.isAccess, Rv32imCore.executed, hctrl, hs.memRead, hs.memWrite]
  rw [Executes, Isa.State.execute, if_pos (Isa.accessAligned_of_none hd)]
  have hwb : (stateAt prog mem ins n).core.sysState ≠ .writeback := by rw [hsys]; decide
  refine ⟨step_dueReg_of_noAccess prog (busData prog mem ins n) (kinds prog mem ins n) (plain prog mem ins n) hwb hi hna
    (ha.regs hsys) hw hv, ?_⟩
  have hmem : ((seqAt prog mem ins n).arch.apply ((seqAt prog mem ins n).effect prog)).mem =
      (seqAt prog mem ins n).arch.mem := by
    rw [Isa.State.apply, hacc]
  rw [stateAt_succ, dueMem_of_noAccess hna, step_mem_due prog (busData prog mem ins n) (moves_of_issues hi).1, ← ha.mem]
  exact hmem

/-- **The instruction that leaves EX is executed as the sequential machine executes it.** -/
theorem executes (ha : Agrees prog mem ins n) (ho : Orderly prog mem ins n)
    (hi : (stateAt prog mem ins n).issues (ins n) = true) : Executes prog mem ins n := by
  have hc : (stateAt prog mem ins n).Consults (ins n) := Or.inl hi
  have hv := valid_of_issues hi
  have hsys := sys_of_valid (idExInv prog mem ins n) hv
  obtain ⟨c, hlat, hin⟩ := exists_latches hv
  obtain ⟨r1, r2, hid⟩ := ha.front.idEx hv
  have hctrl : (stateAt prog mem ins n).core.idEx.ctrl = Decode.ctrl (prog.fetch (seqAt prog mem ins n).arch.pc) := by
    rw [hid]; rfl
  have hrd : (stateAt prog mem ins n).core.idEx.rdAddr = Isa.rd (prog.fetch (seqAt prog mem ins n).arch.pc) := by
    rw [hid]; rfl
  have hreg (x : RegAddr) : (stateAt prog mem ins n).orderReg x = (seqAt prog mem ins n).arch.reg x := by
    rw [ha.regs hsys, dueReg_of_noFault (noFault_of_consults hc)]
  cases kind_of_consults ha ho hc with
  | base h => exact executes_base ha ho hi h
  | division h =>
    have hdec := Isa.decode_division h
    have hcd := hctrl.trans (Isa.ctrl_division h)
    have hdiv : (stateAt prog mem ins n).core.idEx.ctrl.isDiv = true := by
      simp [Ctrl.isDiv, hcd, Isa.isMulOp_division h]
    refine executes_straight ha hi hdec (Isa.straight_division h) (v := (stateAt prog mem ins n).quotient) ?_ ?_ ?_
    · simp only [Sequential.effect, Isa.State.fullEffect, hdec, if_pos h]
    · simp only [Sequential.effect, Isa.State.fullEffect, hdec, if_pos h, hrd, hcd, if_true, quotient, hreg]
      rw [hid]
      rfl
    · intro _ hne
      exact (divRight_iff prog (dividing prog mem ins n) hi hdiv hne).2 ((ho.operands hc c hlat hin).div hdiv hne)
  | csr h =>
    have hdec := Isa.decode_csr h
    have hno : ¬ Isa.Division (prog.fetch (seqAt prog mem ins n).arch.pc) := fun hd => by
      have := hd.1.symm.trans h.1
      exact absurd this (by decide)
    have hen : (stateAt prog mem ins n).core.idEx.ctrl.csrEn = true := by rw [hctrl]; exact (Isa.ctrl_csr h).2
    have hwr := (csrWrites prog mem ins n hen).1
    refine executes_straight ha hi hdec (Isa.ctrl_csr h).1 (v := (seqAt prog mem ins n).csr) ?_ ?_ ?_
    · simp only [Sequential.effect, Isa.State.fullEffect, hdec, if_neg hno, if_pos h]
    · simp only [Sequential.effect, Isa.State.fullEffect, hdec, if_neg hno, if_pos h, hrd, hwr, if_true]
    · intro _ hne
      rw [seq_csr hlat hin, ho.csr hi hen hne c hlat hin]
      exact orderReg_of_csr prog (csrWrites prog mem ins n) hi hen hne
  | fence h =>
    have hdec := Isa.decode_fence h
    have hno : ¬ Isa.Division (prog.fetch (seqAt prog mem ins n).arch.pc) := fun hd => by
      have := hd.1.symm.trans h
      exact absurd this (by decide)
    have hnc : ¬ Isa.CsrInstr (prog.fetch (seqAt prog mem ins n).arch.pc) := fun hd => by
      have := hd.1.symm.trans h
      exact absurd this (by decide)
    have hwr : (stateAt prog mem ins n).core.idEx.ctrl.regWrite = false := by rw [hctrl, Isa.ctrl_fence h]; rfl
    refine executes_straight ha hi hdec (Isa.straight_fence h) (v := 0) ?_ ?_ ?_
    · simp only [Sequential.effect, Isa.State.fullEffect, hdec, if_neg hno, if_neg hnc]
    · simp only [Sequential.effect, Isa.State.fullEffect, hdec, if_neg hno, if_neg hnc, hwr, Bool.false_eq_true,
        if_false]
    · simp [hwr]

/-! ## A syscall -/

/-- behind a syscall in progress there is its `ecall` -/
theorem exists_ecall (h : (stateAt prog mem ins n).core.sysState ≠ .idle) :
    ∃ t < n, (stateAt prog mem ins t).EcallInEx ∧ Serving prog mem ins t n := by
  induction n with
  | zero => exact absurd rfl h
  | succ n ih =>
    have hnext : (stateAt prog mem ins (n + 1)).core.sysState =
        (stateAt prog mem ins n).core.sysNext ((stateAt prog mem ins n).coreIn (ins n)) := rfl
    by_cases hs : (stateAt prog mem ins n).core.sysState = .idle
    · have he : (stateAt prog mem ins n).core.ecallDetected = true := by
        by_contra he
        rw [hnext, Rv32imCore.sysNext, hs, Bool.eq_false_of_not_eq_true he] at h
        exact h rfl
      simp only [Rv32imCore.ecallDetected, Bool.and_eq_true] at he
      refine ⟨n, Nat.lt_succ_self n, he.1, Nat.lt_succ_self n, fun j h1 h2 => ?_⟩
      rw [show j = n + 1 by omega]
      exact h
    · obtain ⟨t, htn, hecall, -, hj⟩ := ih hs
      refine ⟨t, by omega, hecall, by omega, fun j h1 h2 => ?_⟩
      by_cases hlast : j = n + 1
      · rw [hlast]
        exact h
      · exact hj j h1 (by omega)

theorem done_of_writeback {t : ℕ} (h : (stateAt prog mem ins t).EcallInEx) (hs : Serving prog mem ins t n)
    (hw : (stateAt prog mem ins n).core.sysState = .writeback) :
    ∃ d, n = d + 1 ∧ DoneAt prog mem ins t d (stateAt prog mem ins n).core.syscallRetData := by
  have h1 := (dispatches_of_inEx prog (idExInv prog mem ins t) h (i := ins t)).2
  obtain ⟨d, rfl⟩ : ∃ d, n = d + 1 := ⟨n - 1, by have := hs.1; omega⟩
  have htd : t < d := by
    by_contra htd
    rw [show d = t by have := hs.1; omega, stateAt_succ, h1] at hw
    exact SysState.noConfusion hw
  have hnext : (stateAt prog mem ins (d + 1)).core.sysState =
      (stateAt prog mem ins d).core.sysNext ((stateAt prog mem ins d).coreIn (ins d)) := rfl
  have hret : (stateAt prog mem ins (d + 1)).core.syscallRetData = if
      (stateAt prog mem ins d).core.sysState = .wait then
      (ins d).syscallDone.getD (stateAt prog mem ins d).core.syscallRetData
      else (stateAt prog mem ins d).core.syscallRetData := rfl
  rw [hnext, Rv32imCore.sysNext, coreIn_syscallDone] at hw
  -- only `SYS_WAIT` goes on to the writeback, and with a result
  refine ⟨d, rfl, ⟨htd, fun j h1 h2 => hs.2 j h1 (by omega)⟩, ?_⟩
  cases hsys : (stateAt prog mem ins d).core.sysState with
  | wait =>
    cases hdone : (ins d).syscallDone with
    | none => simp [hsys, hdone] at hw
    | some r => exact ⟨rfl, by rw [hret, if_pos hsys, hdone]; rfl⟩
  | idle => cases he : (stateAt prog mem ins d).core.ecallDetected <;> simp [hsys, he] at hw
  | _ => simp [hsys] at hw

/-- during a syscall the sequential machine keeps its registers, and `a0` takes the result -/
theorem seq_serving {t k : ℕ} (h : (stateAt prog mem ins t).EcallInEx) (hs : Serving prog mem ins t k) :
    (seqAt prog mem ins k).arch.regs = if (stateAt prog mem ins k).core.sysState = .writeback then
      Function.update (seqAt prog mem ins t).arch.regs 10 (stateAt prog mem ins k).core.syscallRetData
      else (seqAt prog mem ins t).arch.regs := by
  obtain ⟨htk, hj⟩ := hs
  induction k, htk using Nat.le_induction with
  | base =>
    obtain ⟨hsys, he⟩ := ecallDetected_of_inEx (idExInv prog mem ins t) h
    have h1 := (dispatches_of_inEx prog (idExInv prog mem ins t) h (i := ins t)).2
    rw [← stateAt_succ] at h1
    rw [h1, if_neg (by decide), seqAt_succ, step_arch (by rw [hsys]; decide)]
    exact (moved_of_stays (issues_of_ecall he)).1
  | succ k htk ih =>
    have hsys := hj k htk (Nat.le_succ k)
    have hidle := hj (k + 1) (by omega) (le_refl _)
    have hnext : (stateAt prog mem ins (k + 1)).core.sysState =
        (stateAt prog mem ins k).core.sysNext ((stateAt prog mem ins k).coreIn (ins k)) := rfl
    have hwb : (stateAt prog mem ins k).core.sysState ≠ .writeback := by
      intro hc
      rw [hnext, Rv32imCore.sysNext, hc] at hidle
      exact hidle rfl
    have hregs := ih fun j h1 h2 => hj j h1 (by omega)
    rw [if_neg hwb] at hregs
    have hstays : (stateAt prog mem ins k).issues (ins k) = false := by
      have hv := (idExInv prog mem ins k).sys hsys
      simp [issues, hv]
    have hmoved := (@moved_of_stays prog (seqAt prog mem ins k) _ _ hstays).1
    by_cases hwait : (stateAt prog mem ins k).core.sysState = .wait
    · cases hdone : (ins k).syscallDone with
      | none =>
        have hs1 : (stateAt prog mem ins (k + 1)).core.sysState = .wait := by
          rw [hnext]
          simp [Rv32imCore.sysNext, hwait, hdone]
        have hr : (stateAt prog mem ins k).syscallResult (ins k) = none := by simp [syscallResult, hdone]
        rw [hs1, if_neg (by decide), seqAt_succ, Sequential.step, hr]
        exact hmoved.trans hregs
      | some r =>
        obtain ⟨hs1, hret⟩ := writeback_of_done ⟨⟨htk, fun j h1 h2 => hj j h1 (by omega)⟩, hwait, hdone⟩
        have hr : (stateAt prog mem ins k).syscallResult (ins k) = some r := by simp [syscallResult, hwait, hdone]
        rw [hs1, if_pos rfl, hret, seqAt_succ, Sequential.step, hr, ← hregs, ← hmoved]
    · have hs1 : (stateAt prog mem ins (k + 1)).core.sysState ≠ .writeback := by
        intro hc
        obtain ⟨d, hd, hdone⟩ := done_of_writeback h ⟨by omega, hj⟩ hc
        rw [show d = k by omega] at hdone
        exact hwait hdone.2.1
      rw [if_neg hs1, seqAt_succ, step_arch hwait]
      exact hmoved.trans hregs

/-! ## The run -/

/-- the registers of the sequential machine and those that are due, one cycle later -/
theorem agrees_regs (ha : ∀ k ≤ n, Agrees prog mem ins k) (ho : ∀ k ≤ n, Orderly prog mem ins k)
    (hidle : (stateAt prog mem ins (n + 1)).core.sysState = .idle) (x : RegAddr) :
    (seqAt prog mem ins (n + 1)).arch.reg x = (stateAt prog mem ins (n + 1)).dueReg x := by
  by_cases hsys : (stateAt prog mem ins n).core.sysState = .idle
  · rw [seqAt_succ, step_arch (by rw [hsys]; decide)]
    cases hi : (stateAt prog mem ins n).issues (ins n) with
    | true =>
      rw [moved_of_issues hi]
      exact (executes (ha n le_rfl) (ho n le_rfl) hi).1 x
    | false =>
      have hwb : (stateAt prog mem ins n).core.sysState ≠ .writeback := by rw [hsys]; decide
      have hmoved := (@moved_of_stays prog (seqAt prog mem ins n) _ _ hi).1
      rw [stateAt_succ, step_dueReg prog (busData prog mem ins n) (kinds prog mem ins n) (plain prog mem ins n) hwb
        (ho n le_rfl).lossless hi, ← (ha n le_rfl).regs hsys, Isa.State.reg, hmoved]
      rfl
  · -- a syscall ends
    obtain ⟨t, htn, hecall, hserv⟩ := exists_ecall hsys
    have hwb : (stateAt prog mem ins n).core.sysState = .writeback := by
      have hnext : (stateAt prog mem ins (n + 1)).core.sysState =
          (stateAt prog mem ins n).core.sysNext ((stateAt prog mem ins n).coreIn (ins n)) := rfl
      rw [hnext, Rv32imCore.sysNext] at hidle
      cases hs : (stateAt prog mem ins n).core.sysState with
      | writeback => rfl
      | idle => exact absurd hs hsys
      | wait => cases hdone : (ins n).syscallDone <;> simp [hs, hdone] at hidle
      | _ => simp [hs] at hidle
    have hregs := seq_serving hecall hserv
    rw [if_pos hwb] at hregs
    obtain ⟨d, rfl, hdone⟩ := done_of_writeback hecall hserv hwb
    obtain ⟨hret, hkept⟩ := (ho t (by omega)).ecall hecall d _ hdone
    have hdue := (kept_iff hecall hdone hret (fun (_ : True) _ => rfl) (fun hn => absurd trivial hn)).2 hkept x
    have hstays : (stateAt prog mem ins (d + 1)).issues (ins (d + 1)) = false := by
      have hv := (idExInv prog mem ins (d + 1)).sys hsys
      simp [issues, hv]
    have hmoved := (@moved_of_stays prog (seqAt prog mem ins (d + 1)) _ _ hstays).1
    have hidle' := (ecallDetected_of_inEx (idExInv prog mem ins t) hecall).1
    rw [hdue, ← (ha t (by omega)).regs hidle', seqAt_succ, step_arch (by rw [hwb]; decide), Isa.State.reg, hmoved,
      hregs]
    by_cases h10 : x = 10#5
    · subst h10
      rfl
    · have h10' : x ≠ 10 := h10
      rw [if_neg h10, Function.update_of_ne h10']
      rfl

theorem agrees_mem (ha : Agrees prog mem ins n) (ho : Orderly prog mem ins n) :
    (seqAt prog mem ins (n + 1)).arch.mem = (stateAt prog mem ins (n + 1)).dueMem := by
  have hm : (seqAt prog mem ins (n + 1)).arch.mem =
      ((seqAt prog mem ins n).moved prog (stateAt prog mem ins n) (ins n)).mem := Sequential.step_mem
  rw [hm]
  cases hi : (stateAt prog mem ins n).issues (ins n) with
  | true =>
    rw [moved_of_issues hi]
    exact (executes ha ho hi).2
  | false =>
    rw [(moved_of_stays hi).2, stateAt_succ, step_dueMem prog (busData prog mem ins n) hi]
    exact ha.mem

theorem agrees_reset : Agrees prog mem ins 0 := by
  have hr : (stateAt prog mem ins 0).Restarts (seqAt prog mem ins 0).arch.pc := ⟨rfl, rfl, rfl, rfl⟩
  refine ⟨front_of_restarts hr _, fun _ x => ?_, rfl⟩
  have hno : ¬ (stateAt prog mem ins 0).Due x := fun h => Bool.noConfusion h.1.1
  rw [dueReg_of_not_due hno]
  change (if x = 0 then (0 : Word) else 0) = _
  rw [ite_self]
  by_cases hx : x = 0#5
  · subst hx
    rfl
  · rw [visible_of_ne _ hx]
    rfl

/-- **As long as every cycle is orderly, the core agrees with the sequential machine.** -/
theorem agrees (n : ℕ) (ho : ∀ k < n, Orderly prog mem ins k) : Agrees prog mem ins n := by
  induction n using Nat.strongRecOn with
  | ind n ih =>
    cases n with
    | zero => exact agrees_reset
    | succ n =>
      have ha (k : ℕ) (hk : k ≤ n) : Agrees prog mem ins k := ih k (by omega) fun j hj => ho j (by omega)
      have hon : Orderly prog mem ins n := ho n (Nat.lt_succ_self n)
      exact ⟨agrees_front (ha n le_rfl) hon, agrees_regs ha fun k hk => ho k (by omega), agrees_mem (ha n le_rfl) hon⟩

end Agreement

section Ecall

variable (prog : Program) (mem : DataMem) (ins : ℕ → BoardIn)

/-- the `ecall` of cycle `t` is that of the sequential machine: it presents the machine's `a7`, `a0`, `a1` and `a2`;
behind it `a0` is its result; and when the instruction that EX/MEM held through it has left, everything else is as in
the machine -/
structure SequentialEcall (t : ℕ) : Prop where
  pc : (stateAt prog mem ins t).core.idEx.pc = (seqAt prog mem ins t).arch.pc
  args : ∀ k, Serving prog mem ins t k → (stateAt prog mem ins k).core.sysState = .wait →
    (stateAt prog mem ins k).core.syscallNum = ((seqAt prog mem ins t).arch.reg 17#5).setWidth 8 ∧
      (stateAt prog mem ins k).core.syscallArg0 = (seqAt prog mem ins t).arch.reg 10#5 ∧
      (stateAt prog mem ins k).core.syscallArg1 = (seqAt prog mem ins t).arch.reg 11#5 ∧
      (stateAt prog mem ins k).core.syscallArg2 = (seqAt prog mem ins t).arch.reg 12#5
  ret : ∀ d r, DoneAt prog mem ins t d r → (stateAt prog mem ins (d + 2)).core.visible 10#5 = r
  regs : ∀ d r m, DoneAt prog mem ins t d r → MovesOn prog mem ins (d + 2) m → ∀ x,
    (stateAt prog mem ins (m + 1)).core.visible x = if x = 10#5 then r else (seqAt prog mem ins t).arch.reg x
  mem : ∀ d r m, DoneAt prog mem ins t d r → MovesOn prog mem ins (d + 2) m →
    (stateAt prog mem ins (m + 1)).board.bus.mem = (seqAt prog mem ins t).arch.mem

end Ecall

/-- `addi x17, x0, 1`, then `first`, and `ecall` at 8 -/
def syscallProgram (first : Word) : Program := fun a =>
  if a = 0 then 0x00100893
  else if a = 1 then first
  else if a = 2 then 0x00000073
  else 0x00000013

/-- the memory and the syscalls answer at once, the syscalls with `r` -/
def syscallRun (r : Word) (_ : ℕ) : BoardIn := ⟨true, .none, some r, false⟩

/-- a cycle is orderly if the instruction in EX reads no register but `x0`, and nothing is flushed -/
theorem orderly_of_zero {prog : Program} {mem : DataMem} {ins : ℕ → BoardIn} {k : ℕ}
    (hw : Isa.Valid (prog.fetch (stateAt prog mem ins k).core.idEx.pc))
    (h1 : (stateAt prog mem ins k).core.idEx.rs1Addr = 0#5)
    (h2 : (stateAt prog mem ins k).core.idEx.ctrl.forwardsRs2 = true → (stateAt prog mem ins k).core.idEx.rs2Addr = 0#5)
    (hc : (stateAt prog mem ins k).core.idEx.ctrl.csrEn = false ∧ (stateAt prog mem ins k).core.idEx.ctrl.isDiv = false)
    (ht : (stateAt prog mem ins k).core.instrMisalign = false) (he : ¬ (stateAt prog mem ins k).EcallInEx)
    (hf : (stateAt prog mem ins k).flushMem (ins k) = false) : Orderly prog mem ins k where
  word _ := hw
  operands _ c _ _ := by
    have zero {x : RegAddr} (hx : x = 0#5) (latch : Word) : Forwards prog mem ins c k x latch := by
      subst hx
      refine ⟨fun j _ _ h => h.2.1.2.2 rfl, fun h => ?_⟩
      have hw := h.1
      simp [ExMem.isWrite, h.2] at hw
    exact ⟨fun _ _ => zero h1 _, fun h _ => zero (h2 h) _, fun h => by simp [hc.1] at h, fun h => by simp [hc.2] at h⟩
  loads h := by
    have := h.2.2.2
    simp [ht] at this
  csr _ h := by simp [hc.1] at h
  lossless h := by simp [hf] at h
  ecall h := absurd h he

end Ledger

end Vsync
