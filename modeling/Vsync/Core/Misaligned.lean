/-
Misaligned data accesses.

The fault is found in MEM, where the access stays for at least two cycles, and the exception unit records the pc of
ID/EX.

- `Faults.second`, `excepts_again`: the access is still there in the second cycle, and is excepted again.
- `misaligned_clean_iff`: when a misaligned access traps cleanly.
- `misaligned_store_hangs`: a store that traps in every cycle, for ever.
-/
import Vsync.Core.Interrupt

namespace Vsync.Ledger

/-- an exception is taken in this cycle: not an interrupt -/
def Excepts (w : Ledger) (i : BoardIn) : Prop := w.NoIrq i ∧ (w.core.excIn (w.coreIn i)).anyException = true

instance (w : Ledger) (i : BoardIn) : Decidable (w.Excepts i) := by unfold Excepts; infer_instance

def misalignCause (w : Ledger) : Word := if w.exMem.memRead then Cause.LOAD_MISALIGN else Cause.STORE_MISALIGN

section Cycle

variable {prog : Program} {w : Ledger} {i : BoardIn}

/-- behind the trap the gate is closed and ID/EX is empty -/
theorem Misaligned.step_idEx (prog : Program) (h : w.Misaligned) :
    (step prog w i).core.csr.mstatusMie = false ∧ (step prog w i).core.idEx = .bubble := by
  obtain ⟨cause, val, target, ht⟩ := h.trap (i := i)
  have hc : (step prog w i).core.csr =
      w.core.csr.step w.core.csrAccess (w.core.trap (w.coreIn i)) w.core.memWb.valid (w.coreIn i).irq := rfl
  constructor
  · rw [hc, ht]
    rfl
  · change w.core.idExNext (w.coreIn i) = _
    simp [Rv32imCore.idExNext, Rv32imCore.flushId, h.flushAll]

theorem Misaligned.entersWb (h : w.Misaligned) : w.entersWb i = false := by
  simp [Ledger.entersWb, flushMem, Rv32imCore.flushMem, h.flushAll]

/-- the trap keeps a store from the bus -/
theorem Misaligned.step_mem (h : w.Misaligned) : (step prog w i).board.bus.mem = w.board.bus.mem := by
  have hw : (w.board.cmd i).write = false := by
    change w.core.memWrite (w.coreIn i) = false
    simp [Rv32imCore.memWrite, Rv32imCore.flushMem, h.flushAll]
  simp only [step, Board.step, DataBus.step, hw, Bool.false_eq_true, if_false]
  split_ifs <;> rfl

/-- **The access is excepted in the cycle after a trap that it is still there.** -/
theorem Misaligned.excepts_again (prog : Program) (h : w.Misaligned) (hst : w.stallEx i = true) (j : BoardIn) :
    (step prog w i).Excepts j :=
  ⟨irqCause_of_mie (h.step_idEx prog).1, (h.step_held hst).anyException⟩

/-- what the exception behind a trap records -/
theorem Misaligned.trap_again (prog : Program) (h : w.Misaligned) (hst : w.stallEx i = true) (j : BoardIn) :
    (step prog w i).core.trap ((step prog w i).coreIn j) =
      .taken w.misalignCause 0 0
        ((step prog w i).core.excIn ((step prog w i).coreIn j)).base := by
  have hx : (step prog w i).core.exMem = w.core.exMem := Ledger.step_held hst
  have hl : (step prog w i).core.loadMisalign = w.core.loadMisalign := by
    simp [Rv32imCore.loadMisalign, Rv32imCore.misaligned, hx]
  obtain ⟨hq, ha⟩ := h.excepts_again prog hst j
  have hid := (h.step_idEx prog (i := i)).2
  have hin : (step prog w i).core.instrMisalign = false := by
    simp [Rv32imCore.instrMisalign, Rv32imCore.branchTaken, BranchUnit.taken, hid, IdEx.bubble]
  unfold NoIrq at hq
  unfold Rv32imCore.trap ExcIn.trap
  rw [hq]
  simp only [ha, if_true]
  simp only [ExcIn.causeVal, Rv32imCore.excIn, hid, hin, IdEx.bubble, hl, h.loadMisalign, misalignCause]
  split_ifs <;> simp_all [Ctrl.idle]

end Cycle

section Run

variable (prog : Program) (mem : DataMem) (ins : ℕ → BoardIn)

/-- a misaligned access enters EX/MEM, where it is in cycle `a` -/
def Faults (a : ℕ) : Prop :=
  (stateAt prog mem ins a).Misaligned ∧ ∃ n, a = n + 1 ∧ (stateAt prog mem ins n).stallEx (ins n) = false

def InMem (a k : ℕ) : Prop := a ≤ k ∧ HeldFrom prog mem ins a k

/-- the misaligned access that is in EX/MEM from cycle `a` on traps cleanly -/
structure CleanTrap (a : ℕ) : Prop where
  /-- one exception, with its pc and its cause; the vector is next -/
  once : ∃ k, InMem prog mem ins a k ∧
    (∀ j, InMem prog mem ins a j → ((stateAt prog mem ins j).Excepts (ins j) ↔ j = k)) ∧
    (stateAt prog mem ins (k + 1)).core.csr.mepc = (stateAt prog mem ins a).exMem.pc ∧
    (stateAt prog mem ins (k + 1)).core.csr.mcause = (stateAt prog mem ins a).misalignCause ∧
    (stateAt prog mem ins (k + 1)).Restarts ((stateAt prog mem ins k).core.excIn
      ((stateAt prog mem ins k).coreIn (ins k))).base
  noMemWrite : ∀ k, InMem prog mem ins a k → (stateAt prog mem ins (k + 1)).board.bus.mem =
    (stateAt prog mem ins k).board.bus.mem
  noRegWrite : ∀ k, InMem prog mem ins a k → (stateAt prog mem ins k).entersWb (ins k) = false
  leaves : ∃ k, InMem prog mem ins a k ∧ (stateAt prog mem ins k).stallEx (ins k) = false

variable {prog mem ins}

theorem InMem.first (a : ℕ) : InMem prog mem ins a a := ⟨le_refl a, fun j h1 h2 => by omega⟩

theorem InMem.succ {a k : ℕ} (h : InMem prog mem ins a k) (hst : (stateAt prog mem ins k).stallEx (ins k) = true) :
    InMem prog mem ins a (k + 1) := ⟨Nat.le_succ_of_le h.1, h.2.succ hst⟩

theorem InMem.exMem {a k : ℕ} (h : InMem prog mem ins a k) :
    (stateAt prog mem ins k).exMem = (stateAt prog mem ins a).exMem := HeldFrom.exMem h.1 h.2

theorem Faults.inMem {a k : ℕ} (h : Faults prog mem ins a) (hk : InMem prog mem ins a k) :
    (stateAt prog mem ins k).Misaligned := h.1.of_exMem hk.exMem

theorem Faults.entered {a : ℕ} (h : Faults prog mem ins a) :
    (stateAt prog mem ins a).core.memReqSent = false ∧ (stateAt prog mem ins a).board.bus.busy = false := by
  obtain ⟨-, n, rfl, hst⟩ := h
  exact step_entered prog (busInv prog mem ins n) hst

theorem Faults.stallEx {a : ℕ} (h : Faults prog mem ins a) : (stateAt prog mem ins a).stallEx (ins a) = true :=
  stallEx_of_unanswered h.1.isAccess (Or.inl h.entered.1)

theorem Faults.second {a : ℕ} (h : Faults prog mem ins a) : InMem prog mem ins a (a + 1) :=
  (InMem.first a).succ h.stallEx

/-- the second exception is one of the access, with the pc of the empty ID/EX -/
theorem Faults.trap_second {a : ℕ} (h : Faults prog mem ins a) :
    (stateAt prog mem ins (a + 1)).core.trap ((stateAt prog mem ins (a + 1)).coreIn (ins (a + 1))) =
      .taken (stateAt prog mem ins a).misalignCause 0 0
        ((stateAt prog mem ins (a + 1)).core.excIn ((stateAt prog mem ins (a + 1)).coreIn (ins (a + 1)))).base :=
  h.1.trap_again prog h.stallEx _

theorem Faults.records {a : ℕ} (h : Faults prog mem ins a) : (stateAt prog mem ins (a + 2)).core.csr.mepc = 0 ∧
    (stateAt prog mem ins (a + 2)).core.csr.mcause = (stateAt prog mem ins a).misalignCause := by
  have hc : (stateAt prog mem ins (a + 2)).core.csr = (stateAt prog mem ins (a + 1)).core.csr.step
      (stateAt prog mem ins (a + 1)).core.csrAccess
      ((stateAt prog mem ins (a + 1)).core.trap ((stateAt prog mem ins (a + 1)).coreIn (ins (a + 1))))
      (stateAt prog mem ins (a + 1)).core.memWb.valid
      ((stateAt prog mem ins (a + 1)).coreIn (ins (a + 1))).irq := rfl
  rw [hc, h.trap_second]
  exact ⟨rfl, rfl⟩

theorem Faults.restarts {a : ℕ} (h : Faults prog mem ins a) : (stateAt prog mem ins (a + 2)).Restarts
    ((stateAt prog mem ins (a + 1)).core.excIn ((stateAt prog mem ins (a + 1)).coreIn (ins (a + 1)))).base := by
  have hf := (h.inMem h.second).flushAll (i := ins (a + 1))
  rw [stateAt_succ _ _ _ (a + 1)]
  have hr : (step prog (stateAt prog mem ins (a + 1)) (ins (a + 1))).Restarts _ := restarts_of_flushAll hf
  rw [h.trap_second] at hr
  exact hr

theorem store_never_leaves {a : ℕ} (h : Faults prog mem ins a) (hr : (stateAt prog mem ins a).exMem.memRead = false) :
    ∀ k ≥ a, InMem prog mem ins a k := fun _ hk => ⟨hk, store_stays h.1 hr hk⟩

/-- **A misaligned access traps cleanly only behind an interrupt.** An interrupt is taken in the cycle in which it
enters MEM, it is a load at address 0, the pc that the interrupt leaves in ID/EX, and it is answered in the next cycle.
-/
theorem misaligned_clean_iff (prog : Program) (mem : DataMem) (ins : ℕ → BoardIn) (a : ℕ) (h : Faults prog mem ins a) :
    CleanTrap prog mem ins a ↔
      (stateAt prog mem ins a).Interrupted (ins a) ∧ (stateAt prog mem ins a).exMem.memRead = true ∧
        (stateAt prog mem ins a).exMem.pc = 0 ∧ (stateAt prog mem ins (a + 1)).stallEx (ins (a + 1)) = false := by
  have hagain : (stateAt prog mem ins (a + 1)).Excepts (ins (a + 1)) := h.1.excepts_again prog h.stallEx _
  have hm := h.inMem h.second
  have hcsr := h.records
  constructor
  · intro hc
    obtain ⟨k, hk, honce, hmepc, -, -⟩ := hc.once
    -- the exception of the second cycle is the only one
    have hka : a + 1 = k := (honce (a + 1) h.second).1 hagain
    subst hka
    have hirq : (stateAt prog mem ins a).Interrupted (ins a) := by
      by_contra hno
      have := (honce a (InMem.first a)).1 ⟨noIrq_iff.2 hno, h.1.anyException⟩
      omega
    have hgo : (stateAt prog mem ins (a + 1)).stallEx (ins (a + 1)) = false := by
      by_contra hheld
      have hheld : (stateAt prog mem ins (a + 1)).stallEx (ins (a + 1)) = true := by simpa using hheld
      have := (honce (a + 2) (h.second.succ hheld)).1 (hm.excepts_again prog hheld _)
      omega
    refine ⟨hirq, ?_, ?_, hgo⟩
    · by_contra hr
      have hin := store_never_leaves h (by simpa using hr) (a + 2) (by omega)
      have := hin.2 (a + 1) (by omega) (by omega)
      rw [hgo] at this
      exact absurd this (by decide)
    · rw [← hmepc]
      exact hcsr.1
  · rintro ⟨hirq, -, hpc, hgo⟩
    have htwo : ∀ j, InMem prog mem ins a j → j = a ∨ j = a + 1 := by
      intro j hj
      by_contra hne
      have := hj.2 (a + 1) (by omega) (by have := hj.1; omega)
      rw [hgo] at this
      exact absurd this (by decide)
    refine ⟨⟨a + 1, h.second, ?_, ?_, hcsr.2, ?_⟩, ?_, ?_, ⟨a + 1, h.second, hgo⟩⟩
    · intro j hj
      rcases htwo j hj with rfl | rfl
      · exact ⟨fun he => absurd hirq (noIrq_iff.1 he.1), fun he => by omega⟩
      · exact ⟨fun _ => rfl, fun _ => hagain⟩
    · rw [hpc]
      exact hcsr.1
    · exact h.restarts
    · exact fun k hk => (h.inMem hk).step_mem
    · exact fun k hk => (h.inMem hk).entersWb

end Run

/-- `lw x1, 0(x2)` at 0, which is run again with 1 in `x2` and software interrupts enabled -/
def loadTwice : Program := fun a =>
  if a = 0 then 0x00012083 -- lw x1, 0(x2)
  else if a = 1 then 0x00100113 -- addi x2, x0, 1
  else if a = 2 then 0x00800193 -- addi x3, x0, 8
  else if a = 6 then 0x3041A073 -- csrrs x0, mie, x3
  else if a = 7 then 0x3001A073 -- csrrs x0, mstatus, x3
  else if a = 8 then 0xFE1FF06F -- jal x0, -32
  else 0x00000013

/-- the load that an interrupt meets as it enters MEM in cycle 18 traps cleanly -/
theorem misaligned_load_clean : CleanTrap loadTwice (fun _ => 0) (irqRun 18) 18 :=
  (misaligned_clean_iff loadTwice (fun _ => 0) (irqRun 18) 18
    ⟨by decide +kernel, 17, rfl, by decide +kernel⟩).2
    ⟨⟨Cause.M_SW_INT, by decide +kernel⟩, by decide +kernel, by decide +kernel, by decide +kernel⟩

/-- `sw x0, 1(x0)` at 0, and NOPs behind it -/
def storeFirst : Program := fun a => if a = 0 then 0x000020A3 else 0x00000013

/-- **A misaligned store hangs the pipeline.** The `sw x0, 1(x0)` at 0 enters MEM in cycle 4, is excepted in cycles 4
and 5 with `mepc` 0x00000004 and then 0, and stays in MEM for ever. -/
theorem misaligned_store_hangs :
    Faults storeFirst (fun _ => 0) calmRun 4 ∧
      (stateAt storeFirst (fun _ => 0) calmRun 4).Excepts (calmRun 4) ∧
      (stateAt storeFirst (fun _ => 0) calmRun 5).Excepts (calmRun 5) ∧
      (stateAt storeFirst (fun _ => 0) calmRun 5).core.csr.mepc = 4 ∧
      (stateAt storeFirst (fun _ => 0) calmRun 6).core.csr.mepc = 0 ∧
      ¬ CleanTrap storeFirst (fun _ => 0) calmRun 4 := by
  have hf : Faults storeFirst (fun _ => 0) calmRun 4 :=
    ⟨by decide +kernel, 3, rfl, by decide +kernel⟩
  refine ⟨hf, by decide +kernel, by decide +kernel, by decide +kernel, by decide +kernel, fun hc => ?_⟩
  obtain ⟨k, hk, hst⟩ := hc.leaves
  have hin := store_never_leaves hf (by decide +kernel) (k + 1) (by have := hk.1; omega)
  have := hin.2 k hk.1 (Nat.lt_succ_self k)
  rw [hst] at this
  exact absurd this (by decide)

end Vsync.Ledger
