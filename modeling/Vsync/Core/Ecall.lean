/-
Interrupts around an `ecall`.

The exception unit and the syscall FSM look at the same ID/EX register, and the mask of the interrupts is the state of
the FSM, which rises one cycle later.

- `ecallDetected_of_inEx`: an `ecall` in EX is dispatched at once, whatever the exception unit does.
- `syscall_front`: during a syscall the front of the pipeline waits, empty, at the pc behind the `ecall`.
- `mepc_behind_syscall`: an interrupt that waits for the syscall records pc 0.
- `dispatched_once`: an `ecall` that is dispatched without a trap is not dispatched again in the whole run.
- `ecall_exclusive_iff`: when an `ecall` and the interrupts exclude each other.
- `ecall_twice`: an `ecall` that is dispatched, interrupted in the same cycle, and dispatched again after the return.
-/
import Vsync.Core.Instances

namespace Vsync.Ledger

def EcallInEx (w : Ledger) : Prop := w.core.idEx.valid = true ∧ w.core.idEx.ctrl.ecall = true

instance (w : Ledger) : Decidable w.EcallInEx := by unfold EcallInEx; infer_instance

def Dispatches (prog : Program) (w : Ledger) (i : BoardIn) : Prop :=
  w.core.sysState = .idle ∧ (step prog w i).core.sysState = .readA7

instance (prog : Program) (w : Ledger) (i : BoardIn) : Decidable (w.Dispatches prog i) := by
  unfold Dispatches; infer_instance

section Cycle

variable {prog : Program} {w : Ledger} {i : BoardIn}

/-- **An `ecall` in EX is dispatched at once.** -/
theorem ecallDetected_of_inEx (hi : IdExInv w) (h : w.EcallInEx) :
    w.core.sysState = .idle ∧ w.core.ecallDetected = true := by
  have hsys : w.core.sysState = .idle := by
    by_contra hc
    have := hi.sys hc
    simp [h.1] at this
  exact ⟨hsys, by simp [Rv32imCore.ecallDetected, h.1, h.2, hsys]⟩

theorem dispatches_of_inEx (prog : Program) (hi : IdExInv w) (h : w.EcallInEx) : w.Dispatches prog i := by
  obtain ⟨hsys, he⟩ := ecallDetected_of_inEx hi h
  refine ⟨hsys, ?_⟩
  change w.core.sysNext (w.coreIn i) = .readA7
  simp [Rv32imCore.sysNext, hsys, he]

/-- with no trap, the fetch stage starts over behind the `ecall` -/
theorem restarts_of_ecall (he : w.core.ecallDetected = true) (ht : w.core.trap (w.coreIn i) = .nothing) :
    (step prog w i).Restarts (w.core.idEx.pc + 4) := by
  have hf : w.core.flushAll (w.coreIn i) = false := by simp [Rv32imCore.flushAll, ht, Trap.redirects]
  have hr : w.core.redirect (w.coreIn i) = some (w.core.idEx.pc + 4) := by simp [Rv32imCore.redirect, hf, he]
  refine ⟨?_, ?_, ?_, ?_⟩
  · change w.core.pcNext (w.coreIn i) = _
    simp [Rv32imCore.pcNext, hr]
  · change w.core.suppressNext (w.coreIn i) = true
    simp [Rv32imCore.suppressNext, hr]
  · change (w.core.ifIdNext (w.coreIn i)).valid = false
    simp [Rv32imCore.ifIdNext, Rv32imCore.flushIf, he, IfId.bubble]
  · change (w.core.idExNext (w.coreIn i)).valid = false
    simp [Rv32imCore.idExNext, Rv32imCore.flushId, he, IdEx.bubble]

/-- with no interrupt and no misaligned access, an `ecall` does not trap -/
theorem trap_of_ecall (hi : IdExInv w) (h : w.EcallInEx) (hq : w.NoIrq i) (hm : w.core.loadMisalign = false)
    (hs : w.core.storeMisalign = false) : w.core.trap (w.coreIn i) = .nothing := by
  obtain ⟨h1, h2, h3, h4, h5, h6⟩ := hi.ecall h.2
  have hin : w.core.instrMisalign = false := by
    simp [Rv32imCore.instrMisalign, Rv32imCore.branchTaken, BranchUnit.taken, h4, h5, h6]
  unfold NoIrq at hq
  unfold Rv32imCore.trap ExcIn.trap
  rw [hq]
  simp [ExcIn.anyException, Rv32imCore.excIn, h1, h2, h3, hm, hs, hin]

/-- the trap entry saves the pc of ID/EX -/
theorem mepc_iff_resumePc (prog : Program) (h : w.Interrupted i) :
    (step prog w i).core.csr.mepc = w.core.resumePc ↔
      w.core.idEx.valid = true ∨ w.core.idEx.pc = w.core.resumePc := by
  rw [(h.step_csr prog).1]
  refine ⟨Or.inr, fun hv => hv.elim (fun hv => ?_) id⟩
  rw [Rv32imCore.resumePc, if_pos hv]

/-! ## The front of the pipeline during a syscall -/

/-- the front waits, empty, at `target`; no access in MEM traps -/
structure Parked (w : Ledger) (target : Word) : Prop where
  restarts : w.Restarts target
  idEx : w.core.idEx = .bubble
  load : w.core.loadMisalign = false
  store : w.core.storeMisalign = false

theorem misalign_of_nothing (ht : w.core.trap (w.coreIn i) = .nothing) :
    w.core.loadMisalign = false ∧ w.core.storeMisalign = false := by
  unfold Rv32imCore.trap ExcIn.trap at ht
  cases hc : (w.core.excIn (w.coreIn i)).irqCause with
  | some cause => simp [hc] at ht
  | none =>
    have hany : (w.core.excIn (w.coreIn i)).anyException = false := by
      by_contra hany
      simp only [hc] at ht
      rw [if_pos (by simpa using hany)] at ht
      exact Trap.noConfusion ht
    simp only [ExcIn.anyException, Rv32imCore.excIn, Bool.or_eq_false_iff] at hany
    exact ⟨hany.1.1.2, hany.1.2⟩

theorem misalign_of_bubble (h : w.exMem = .bubble) : w.core.loadMisalign = false ∧ w.core.storeMisalign = false := by
  have h' : w.core.exMem = .bubble := h
  simp [Rv32imCore.loadMisalign, Rv32imCore.storeMisalign, h', ExMem.bubble]

theorem misalign_of_held (hst : w.stallEx i = true) : (step prog w i).core.loadMisalign = w.core.loadMisalign ∧
    (step prog w i).core.storeMisalign = w.core.storeMisalign := by
  have hx : (step prog w i).core.exMem = w.core.exMem := step_held hst
  simp [Rv32imCore.loadMisalign, Rv32imCore.storeMisalign, Rv32imCore.misaligned, hx]

theorem parked_of_ecall (he : w.core.ecallDetected = true) (ht : w.core.trap (w.coreIn i) = .nothing) :
    (step prog w i).Parked (w.core.idEx.pc + 4) := by
  obtain ⟨hl, hs⟩ := misalign_of_nothing ht
  have hmem : (step prog w i).core.loadMisalign = false ∧ (step prog w i).core.storeMisalign = false := by
    cases hst : w.stallEx i with
    | true =>
      obtain ⟨h1, h2⟩ := @misalign_of_held prog w i hst
      exact ⟨h1.trans hl, h2.trans hs⟩
    | false =>
      apply misalign_of_bubble
      have hx : w.core.stallEx (w.coreIn i) = false := hst
      rw [step_exMem, Rv32imCore.exMemNext, hx]
      simp [Rv32imCore.flushEx, he]
  refine ⟨restarts_of_ecall he ht, ?_, hmem.1, hmem.2⟩
  change w.core.idExNext (w.coreIn i) = _
  simp [Rv32imCore.idExNext, Rv32imCore.flushId, he]

theorem step_parked {target : Word} (hsys : w.core.sysState ≠ .idle) (hpl : w.board.Plain) (h : w.Parked target) :
    (step prog w i).Parked target := by
  obtain ⟨⟨hpc, hsup, hif, hid⟩, hbub, hl, hs⟩ := h
  have hact : w.core.syscallActive = true := by simp [Rv32imCore.syscallActive, hsys]
  have hc : w.core.ctxState = .idle := hpl.1
  have hst : w.core.stallEx (w.coreIn i) = true := by simp [Rv32imCore.stallEx, Rv32imCore.stallMem, hact]
  have hstid : w.core.stallId (w.coreIn i) = true := by simp [Rv32imCore.stallId, hst]
  have hb : w.core.branchTaken = false := branchTaken_of_invalid hid
  have hq : (w.core.excIn (w.coreIn i)).irqCause = none := by simp [ExcIn.irqCause, Rv32imCore.excIn, hact]
  have hf : w.core.flushAll (w.coreIn i) = false := by
    unfold Rv32imCore.flushAll Rv32imCore.trap ExcIn.trap
    rw [hq]
    simp [ExcIn.anyException, Rv32imCore.excIn, hid, hl, hs, Rv32imCore.instrMisalign, hb, Trap.redirects]
  have he : w.core.ecallDetected = false := by simp [Rv32imCore.ecallDetected, hid]
  have hbf : w.core.branchFlush = false := by simp [Rv32imCore.branchFlush, hb]
  have hr : w.core.redirect (w.coreIn i) = none := by simp [Rv32imCore.redirect, hf, he, hbf]
  obtain ⟨h1, h2⟩ := @misalign_of_held prog w i hst
  refine ⟨⟨?_, ?_, ?_, ?_⟩, ?_, h1.trans hl, h2.trans hs⟩
  · change w.core.pcNext (w.coreIn i) = _
    simp [Rv32imCore.pcNext, hr, hstid, hpc]
  · change w.core.suppressNext (w.coreIn i) = true
    simp [Rv32imCore.suppressNext, hsup, hstid]
  · change (w.core.ifIdNext (w.coreIn i)).valid = false
    simp [Rv32imCore.ifIdNext, Rv32imCore.flushIf, hf, he, hbf, hc, hstid, hif]
  · change (w.core.idExNext (w.coreIn i)).valid = false
    simp [Rv32imCore.idExNext, Rv32imCore.flushId, hf, he, hbf, hc, hstid, hid]
  · change w.core.idExNext (w.coreIn i) = _
    simp [Rv32imCore.idExNext, Rv32imCore.flushId, hf, he, hbf, hc, hstid, hbub]

end Cycle

section Run

variable {prog : Program} {mem : DataMem} {ins : ℕ → BoardIn}

/-- **From the dispatch of an `ecall` to the end of the syscall the front waits behind it.** -/
theorem syscall_front {t : ℕ} (h : (stateAt prog mem ins t).EcallInEx)
    (ht : (stateAt prog mem ins t).core.trap ((stateAt prog mem ins t).coreIn (ins t)) = .nothing) :
    ∀ u > t, (∀ k, t < k → k < u → (stateAt prog mem ins k).core.sysState ≠ .idle) →
      (stateAt prog mem ins u).Parked ((stateAt prog mem ins t).core.idEx.pc + 4) := by
  intro u hu
  induction u, hu using Nat.le_induction with
  | base =>
    intro _
    exact parked_of_ecall (ecallDetected_of_inEx (idExInv prog mem ins t) h).2 ht
  | succ u hu ih =>
    intro hsys
    have hp := ih fun k h1 h2 => hsys k h1 (by omega)
    exact step_parked (hsys u hu (Nat.lt_succ_self u)) (plain prog mem ins u) hp

/-- **An interrupt that waits for the syscall records pc 0**: ID/EX is empty when the syscall ends. -/
theorem mepc_behind_syscall {t u : ℕ} (h : (stateAt prog mem ins t).EcallInEx)
    (ht : (stateAt prog mem ins t).core.trap ((stateAt prog mem ins t).coreIn (ins t)) = .nothing) (hu : t < u)
    (hsys : ∀ k, t < k → k < u → (stateAt prog mem ins k).core.sysState ≠ .idle)
    (hi : (stateAt prog mem ins u).Interrupted (ins u)) :
    (stateAt prog mem ins (u + 1)).core.csr.mepc = 0 ∧
      (stateAt prog mem ins u).core.resumePc = (stateAt prog mem ins t).core.idEx.pc + 4 := by
  have hp := syscall_front h ht u hu hsys
  obtain ⟨⟨hpc, hsup, hif, hid⟩, hbub, -, -⟩ := hp
  constructor
  · rw [stateAt_succ, (hi.step_csr prog).1, hbub]
    rfl
  · simp [Rv32imCore.resumePc, hid, hif, hsup, hpc]

/-! ## Exclusion -/

section Exclusion

variable (prog : Program) (mem : DataMem) (ins : ℕ → BoardIn)

/-- the instance `e` is dispatched in cycle `u` -/
def DispatchedAs (e u : ℕ) : Prop :=
  (stateAt prog mem ins u).Dispatches prog (ins u) ∧ instanceAt prog mem ins u = e

instance (e u : ℕ) : Decidable (DispatchedAs prog mem ins e u) := by unfold DispatchedAs; infer_instance

/-- the instance `e` is an `ecall` that gets to EX in cycle `t` -/
structure Arrives (e t : ℕ) : Prop where
  inEx : (stateAt prog mem ins t).EcallInEx
  here : instanceAt prog mem ins t = e
  first : ∀ k < t, (stateAt prog mem ins k).EcallInEx → instanceAt prog mem ins k ≠ e

/-- the interrupt is taken in cycle `t`, with the `ecall` still to come -/
structure IrqFirst (t : ℕ) : Prop where
  taken : (stateAt prog mem ins t).Interrupted (ins t)
  mepc : (stateAt prog mem ins (t + 1)).core.csr.mepc = (stateAt prog mem ins t).core.idEx.pc
  later : ¬ (stateAt prog mem ins t).Dispatches prog (ins t)

/-- the `ecall` is dispatched in cycle `t` and not trapped, the program goes on behind it and is never at it again, and
every later interrupt comes back to where the program then is -/
structure EcallFirst (e t : ℕ) : Prop where
  quiet : (stateAt prog mem ins t).core.trap ((stateAt prog mem ins t).coreIn (ins t)) = .nothing
  dispatched : DispatchedAs prog mem ins e t
  behind : (stateAt prog mem ins (t + 1)).Restarts ((stateAt prog mem ins t).core.idEx.pc + 4)
  past : ∀ u > t, instanceAt prog mem ins u ≠ e
  mepc : ∀ u > t, (stateAt prog mem ins u).Interrupted (ins u) →
    (stateAt prog mem ins (u + 1)).core.csr.mepc = (stateAt prog mem ins u).core.resumePc

/-- over the whole run the `ecall` `e` of cycle `t` is dispatched once, before every interrupt or behind one -/
structure Exclusive (e t : ℕ) : Prop where
  once : ∃! u, DispatchedAs prog mem ins e u
  order : IrqFirst prog mem ins t ∨ EcallFirst prog mem ins e t

end Exclusion

variable {e t : ℕ}

/-- only an `ecall` in EX is dispatched -/
theorem inEx_of_dispatches {w : Ledger} {i : BoardIn} (h : w.Dispatches prog i) : w.EcallInEx := by
  obtain ⟨hsys, hnext⟩ := h
  have hn : w.core.sysNext (w.coreIn i) = .readA7 := hnext
  have he : w.core.ecallDetected = true := by
    by_contra hc
    simp [Rv32imCore.sysNext, hsys, hc] at hn
  simp only [Rv32imCore.ecallDetected, Bool.and_eq_true] at he
  exact he.1

/-- **An `ecall` that is dispatched without a trap is dispatched once in the whole run**, and the program does not come
back to it. -/
theorem dispatched_once (h : Arrives prog mem ins e t)
    (ht : (stateAt prog mem ins t).core.trap ((stateAt prog mem ins t).coreIn (ins t)) = .nothing) :
    (∃! u, DispatchedAs prog mem ins e u) ∧ ∀ u > t, instanceAt prog mem ins u ≠ e := by
  have hinv := idExInv prog mem ins t
  have hbehind : Instances.Behind e (instancesAt prog mem ins (t + 1)) := by
    rw [← h.here]
    exact Instances.behind_of_ecall (instancesAt_fresh prog mem ins t) ht (ecallDetected_of_inEx hinv h.inEx).2
  have hpast : ∀ u > t, instanceAt prog mem ins u ≠ e := fun u hu => (behind_run hbehind hu).next
  refine ⟨⟨t, ⟨dispatches_of_inEx prog hinv h.inEx, h.here⟩, fun u hu => ?_⟩, hpast⟩
  rcases Nat.lt_trichotomy u t with hlt | rfl | hgt
  · exact absurd hu.2 (h.first u hlt (inEx_of_dispatches hu.1))
  · rfl
  · exact absurd hu.2 (hpast u hgt)

/-- **An `ecall` and the interrupts exclude each other exactly when** no interrupt is taken in the cycle in which the
`ecall` is in EX, no misaligned access in MEM traps in that cycle, and every later interrupt finds the resume pc in
ID/EX. -/
theorem ecall_exclusive_iff (prog : Program) (mem : DataMem) (ins : ℕ → BoardIn) (e t : ℕ)
    (h : Arrives prog mem ins e t) :
    Exclusive prog mem ins e t ↔
      ((stateAt prog mem ins t).NoIrq (ins t) ∧ (stateAt prog mem ins t).core.loadMisalign = false ∧
        (stateAt prog mem ins t).core.storeMisalign = false) ∧
      ∀ u > t, (stateAt prog mem ins u).Interrupted (ins u) → (stateAt prog mem ins u).core.idEx.valid = true ∨
        (stateAt prog mem ins u).core.idEx.pc = (stateAt prog mem ins u).core.resumePc := by
  have hinv := idExInv prog mem ins t
  have hd := dispatches_of_inEx prog hinv h.inEx (i := ins t)
  constructor
  · rintro ⟨-, hirq | hfirst⟩
    · exact absurd hd hirq.later
    · refine ⟨⟨?_, misalign_of_nothing hfirst.quiet⟩, fun u hu hi => ?_⟩
      · apply noIrq_iff.2
        intro hirq
        obtain ⟨cause, target, ht⟩ := hirq.trap
        rw [hfirst.quiet] at ht
        exact Trap.noConfusion ht
      · exact (mepc_iff_resumePc prog hi).1 (hfirst.mepc u hu hi)
  · rintro ⟨⟨hq, hl, hs⟩, hmepc⟩
    have ht := trap_of_ecall hinv h.inEx hq hl hs
    obtain ⟨honce, hpast⟩ := dispatched_once h ht
    refine ⟨honce, Or.inr ⟨ht, ⟨hd, h.here⟩, ?_, hpast, fun u hu hi => ?_⟩⟩
    · exact restarts_of_ecall (ecallDetected_of_inEx hinv h.inEx).2 ht
    · exact (mepc_iff_resumePc prog hi).2 (hmepc u hu hi)

end Run

/-- software interrupts go to `mret` at 64; `ecall` at 32 -/
def ecallProgram : Program := fun a =>
  if a = 0 then 0x00800093 -- addi x1, x0, 8
  else if a = 1 then 0x04000113 -- addi x2, x0, 64
  else if a = 4 then 0x30511073 -- csrrw x0, mtvec, x2
  else if a = 5 then 0x3040A073 -- csrrs x0, mie, x1
  else if a = 6 then 0x3000A073 -- csrrs x0, mstatus, x1
  else if a = 8 then 0x00000073 -- ecall
  else if a = 16 then 0x30200073 -- mret
  else 0x00000013

/-- the software interrupt comes in cycle `t`, and every syscall is done at once -/
def ecallRun (t k : ℕ) : BoardIn := ⟨true, ⟨false, false, k == t⟩, some 0, false⟩

theorem ecallRun_irq {t k : ℕ} {w : Ledger} (h : w.Interrupted (ecallRun t k)) : k = t := by
  by_contra hne
  obtain ⟨cause, hc⟩ := h
  simp [ExcIn.irqCause, Rv32imCore.excIn, coreIn, Board.coreIn, ecallRun, hne] at hc

/-- an interrupt in cycle 22, with the instruction at 40 in EX, and the `ecall` of cycle 11 exclude each other -/
theorem ecall_exclusive_late : Exclusive ecallProgram (fun _ => 0) (ecallRun 22) 8 11 := by
  have hfirst : ∀ k < 11, ¬ (stateAt ecallProgram (fun _ => 0) (ecallRun 22) k).EcallInEx := by decide +kernel
  have h : Arrives ecallProgram (fun _ => 0) (ecallRun 22) 8 11 :=
    ⟨by decide +kernel, by decide +kernel, fun k hk hc => absurd hc (hfirst k hk)⟩
  apply (ecall_exclusive_iff ecallProgram (fun _ => 0) (ecallRun 22) 8 11 h).2
  refine ⟨by decide +kernel, fun u _ hu => ?_⟩
  have hu22 := ecallRun_irq hu
  subst hu22
  decide +kernel

/-- **An `ecall` is dispatched twice.** The interrupt comes in cycle 11, with the `ecall` in EX: both are taken, `mepc`
is the pc of the `ecall`, and after the `mret` the same `ecall` is in EX again in cycle 25, and is dispatched again. -/
theorem ecall_twice :
    Arrives ecallProgram (fun _ => 0) (ecallRun 11) 8 11 ∧
      DispatchedAs ecallProgram (fun _ => 0) (ecallRun 11) 8 11 ∧
      (stateAt ecallProgram (fun _ => 0) (ecallRun 11) 12).core.csr.mepc = 32 ∧
      (∀ k < 25, 11 < k → ¬ (stateAt ecallProgram (fun _ => 0) (ecallRun 11) k).EcallInEx) ∧
      (stateAt ecallProgram (fun _ => 0) (ecallRun 11) 25).core.idEx.pc = 32 ∧
      DispatchedAs ecallProgram (fun _ => 0) (ecallRun 11) 8 25 ∧
      ¬ Exclusive ecallProgram (fun _ => 0) (ecallRun 11) 8 11 := by
  have hfirst : ∀ k < 11, ¬ (stateAt ecallProgram (fun _ => 0) (ecallRun 11) k).EcallInEx := by decide +kernel
  have h11 : DispatchedAs ecallProgram (fun _ => 0) (ecallRun 11) 8 11 := by decide +kernel
  have h25 : DispatchedAs ecallProgram (fun _ => 0) (ecallRun 11) 8 25 := by decide +kernel
  refine ⟨⟨inEx_of_dispatches h11.1, h11.2, fun k hk hc => absurd hc (hfirst k hk)⟩, h11, by decide +kernel,
    by decide +kernel, by decide +kernel, h25, fun h => ?_⟩
  obtain ⟨u, -, hu⟩ := h.once
  exact absurd ((hu 11 h11).trans (hu 25 h25).symm) (by decide)

end Vsync.Ledger
