/-
What an `ecall` sees and leaves behind.

The syscall FSM reads the arguments from the register file and writes the result into it, with EX/MEM and MEM/WB frozen
around it.

- `Served`, `step_served`: a syscall in progress reads the registers that it found in its first cycle.
- `argsReady_iff`: when the arguments are the registers that are due before it.
- `retWritten_iff`, `kept_iff`: when `a0` is the result behind it, and when the other registers are those before it.
- `visible_moved`: the registers when the instruction that EX/MEM held through the syscall has left.
-/
import Vsync.Core.Due
import Vsync.Core.Ecall

namespace Vsync.Ledger

/-! ## A syscall in progress -/

/-- the arguments that have been read are those of the registers `v` -/
def ArgsRead (v : RegAddr → Word) (s : Rv32imCore) : Prop :=
  match s.sysState with
  | .idle => True
  | .readA7 => True
  | .readA0 => s.syscallNum = (v 17#5).setWidth 8
  | .readA1 => s.syscallNum = (v 17#5).setWidth 8 ∧ s.syscallArg0 = v 10#5
  | .readA2 => s.syscallNum = (v 17#5).setWidth 8 ∧ s.syscallArg0 = v 10#5 ∧ s.syscallArg1 = v 11#5
  | .wait => s.syscallNum = (v 17#5).setWidth 8 ∧ s.syscallArg0 = v 10#5 ∧ s.syscallArg1 = v 11#5 ∧
    s.syscallArg2 = v 12#5
  | .writeback =>
    s.syscallNum = (v 17#5).setWidth 8 ∧ s.syscallArg0 = v 10#5 ∧ s.syscallArg1 = v 11#5 ∧ s.syscallArg2 = v 12#5

structure Served (u w : Ledger) : Prop where
  exMem : w.exMem = u.exMem
  memWb : w.core.memWb = u.core.memWb
  visible : ∀ x, w.core.visible x = u.core.visible x
  dueMem : w.dueMem = u.dueMem
  value : u.exMem.isWrite = true → w.memValue = u.memValue
  /-- a misaligned access flushes MEM/WB in every cycle -/
  empty : w.Misaligned → w.core.memWb = .bubble
  args : ArgsRead u.core.visible w.core

section Cycle

variable {prog : Program} {u w : Ledger} {i : BoardIn}

@[simp] theorem coreIn_syscallDone (w : Ledger) (i : BoardIn) : (w.coreIn i).syscallDone = i.syscallDone := rfl

/-- during a syscall only a misaligned access traps -/
theorem flushAll_of_syscall (hi : IdExInv w) (hsys : w.core.sysState ≠ .idle) (hm : ¬ w.Misaligned) :
    w.core.flushAll (w.coreIn i) = false := by
  have hid := hi.sys hsys
  have hact : w.core.syscallActive = true := by simp [Rv32imCore.syscallActive, hsys]
  have hq : (w.core.excIn (w.coreIn i)).irqCause = none := by simp [ExcIn.irqCause, Rv32imCore.excIn, hact]
  have hb : w.core.instrMisalign = false := by simp [Rv32imCore.instrMisalign, branchTaken_of_invalid hid]
  simp only [Misaligned, not_or, Bool.not_eq_true] at hm
  unfold Rv32imCore.flushAll Rv32imCore.trap ExcIn.trap
  rw [hq]
  simp [ExcIn.anyException, Rv32imCore.excIn, hid, hm.1, hm.2, hb, Trap.redirects]

theorem step_frozen (prog : Program) (hi : IdExInv w) (hpl : w.board.Plain) (hsys : w.core.sysState ≠ .idle)
    (he : w.Misaligned → w.core.memWb = .bubble) :
    w.stallEx i = true ∧ w.entersWb i = false ∧ (step prog w i).core.memWb = w.core.memWb := by
  have hact : w.core.syscallActive = true := by simp [Rv32imCore.syscallActive, hsys]
  have hst : w.core.stallMem (w.coreIn i) = true := by simp [Rv32imCore.stallMem, hact]
  have hwb : (step prog w i).core.memWb = w.core.memWbNext (w.coreIn i) := rfl
  refine ⟨by simp [stallEx, Rv32imCore.stallEx, hst], by simp [entersWb, hst], ?_⟩
  rw [hwb, Rv32imCore.memWbNext]
  by_cases hm : w.Misaligned
  · rw [he hm]
    simp [hst]
  · have hc : w.core.ctxState = .idle := hpl.1
    simp [Rv32imCore.flushMem, flushAll_of_syscall hi hsys hm, hc, hst]

/-- the FSM reads `a7`, `a0`, `a1` and `a2`, one after the other -/
theorem step_argsRead (prog : Program) (hpl : w.board.Plain) (hsys : w.core.sysState ≠ .idle) {v : RegAddr → Word}
    (hv : ∀ x, w.core.visible x = v x) (h : ArgsRead v w.core) : ArgsRead v (step prog w i).core := by
  have hread (hw : w.core.sysState ≠ .writeback) (x : RegAddr) : w.core.readPort (w.coreIn i) x = v x := by
    rw [readPort_eq hpl hw, hv]
  have hnum : (step prog w i).core.syscallNum = if w.core.sysState = .readA7 then
      (w.core.readPort (w.coreIn i) w.core.rfRs2Addr).setWidth 8 else w.core.syscallNum := rfl
  have harg0 : (step prog w i).core.syscallArg0 = if w.core.sysState = .readA0 then
      w.core.readPort (w.coreIn i) w.core.rfRs2Addr else w.core.syscallArg0 := rfl
  have harg1 : (step prog w i).core.syscallArg1 = if w.core.sysState = .readA1 then
      w.core.readPort (w.coreIn i) w.core.rfRs2Addr else w.core.syscallArg1 := rfl
  have harg2 : (step prog w i).core.syscallArg2 = if w.core.sysState = .readA2 then
      w.core.readPort (w.coreIn i) w.core.rfRs2Addr else w.core.syscallArg2 := rfl
  have hnext : (step prog w i).core.sysState = w.core.sysNext (w.coreIn i) := rfl
  cases hs : w.core.sysState with
  | idle => exact absurd hs hsys
  | readA7 =>
    rw [ArgsRead, hnext, Rv32imCore.sysNext, hs]
    simp [hnum, hs, hread (by simp [hs]), Rv32imCore.rfRs2Addr]
  | readA0 =>
    simp only [ArgsRead, hs] at h
    rw [ArgsRead, hnext, Rv32imCore.sysNext, hs]
    simp [hnum, harg0, hs, hread (by simp [hs]), Rv32imCore.rfRs2Addr, h]
  | readA1 =>
    simp only [ArgsRead, hs] at h
    rw [ArgsRead, hnext, Rv32imCore.sysNext, hs]
    simp [hnum, harg0, harg1, hs, hread (by simp [hs]), Rv32imCore.rfRs2Addr, h]
  | readA2 =>
    simp only [ArgsRead, hs] at h
    rw [ArgsRead, hnext, Rv32imCore.sysNext, hs]
    simp [hnum, harg0, harg1, harg2, hs, hread (by simp [hs]), Rv32imCore.rfRs2Addr, h]
  | wait =>
    simp only [ArgsRead, hs] at h
    rw [ArgsRead, hnext, Rv32imCore.sysNext, hs]
    cases (w.coreIn i).syscallDone.isSome <;> simp [hnum, harg0, harg1, harg2, hs, h]
  | writeback =>
    rw [ArgsRead, hnext, Rv32imCore.sysNext, hs]
    trivial

theorem served_self (h : w.core.sysState = .readA7) (he : w.Misaligned → w.core.memWb = .bubble) : Served w w := by
  refine ⟨rfl, rfl, fun _ => rfl, rfl, fun _ => rfl, he, ?_⟩
  rw [ArgsRead, h]
  trivial

/-- **A syscall in progress leaves the pipeline as it found it**, and reads from it. -/
theorem step_served (prog : Program) (hi : IdExInv w) (hd : BusData w) (hk : Kinds w) (hpl : w.board.Plain)
    (hsys : w.core.sysState ≠ .idle) (hwb : w.core.sysState ≠ .writeback) (h : Served u w) :
    Served u (step prog w i) := by
  obtain ⟨hst, hent, hmwb⟩ := step_frozen prog hi hpl hsys h.empty (i := i)
  have hx : (step prog w i).exMem = w.exMem := step_held hst
  refine ⟨hx.trans h.exMem, hmwb.trans h.memWb, fun x => ?_, (step_dueMem_of_held prog hst).trans h.dueMem,
    fun hw => ?_, fun hm => ?_, step_argsRead prog hpl hsys h.visible h.args⟩
  · rw [step_visible prog hd hk hpl hwb, hent, if_neg (by decide)]
    exact h.visible x
  · rw [step_memValue prog hk (h.exMem ▸ hw) hx]
    exact h.value hw
  · rw [hmwb]
    exact h.empty (hm.of_exMem hx.symm)

/-- the result goes to `a0`, where MEM/WB still writes it if it did -/
theorem step_writeback (prog : Program) (hpl : w.board.Plain) (hsys : w.core.sysState = .writeback)
    (hwb : (step prog w i).core.memWb = w.core.memWb) (x : RegAddr) :
    (step prog w i).core.visible x =
      if x = 10#5 ∧ ¬ w.core.wbWrites 10#5 then w.core.syscallRetData else w.core.visible x := by
  have hc : w.core.ctxState = .idle := hpl.1
  have hport : w.core.writePort (w.coreIn i) = some (10#5, w.core.syscallRetData) := by
    simp [Rv32imCore.writePort, hc, hsys]
  have hregs : (step prog w i).core.regs = Function.update w.core.regs 10#5 w.core.syscallRetData := by
    change w.core.regsNext (w.coreIn i) = _
    rw [Rv32imCore.regsNext, hport]
    rfl
  by_cases hx : x = 0#5
  · subst hx
    rfl
  rw [visible_of_ne _ hx, visible_of_ne _ hx, hwb, hregs]
  by_cases h10 : x = 10#5
  · subst h10
    cases hw : w.core.memWb.writes && w.core.memWb.rdAddr == 10#5 with
    | true =>
      have hwr : w.core.wbWrites 10#5 := by
        simp only [Bool.and_eq_true, beq_iff_eq] at hw
        exact ⟨hw.1, hw.2, by decide⟩
      rw [if_pos rfl, if_neg fun h => h.2 hwr, if_pos rfl]
    | false =>
      have hwr : ¬ w.core.wbWrites 10#5 := by
        rintro ⟨h1, h2, -⟩
        simp [h1, h2] at hw
      rw [if_neg (by decide), if_pos ⟨rfl, hwr⟩, Function.update_self]
  · rw [if_neg fun h : x = 10#5 ∧ _ => h10 h.1, Function.update_of_ne h10]

end Cycle

section Run

variable (prog : Program) (mem : DataMem) (ins : ℕ → BoardIn)

/-- a syscall is in progress in every cycle behind `t` up to `k` -/
def Serving (t k : ℕ) : Prop := t < k ∧ ∀ j, t < j → j ≤ k → (stateAt prog mem ins j).core.sysState ≠ .idle

/-- the syscall behind cycle `t` is done in cycle `d`, with the result `r` -/
def DoneAt (t d : ℕ) (r : Word) : Prop :=
  Serving prog mem ins t d ∧ (stateAt prog mem ins d).core.sysState = .wait ∧ (ins d).syscallDone = some r

def MovesOn (a m : ℕ) : Prop := InMem prog mem ins a m ∧ (stateAt prog mem ins m).stallEx (ins m) = false

/-- the instruction that EX/MEM holds from cycle `a` on enters WB in a cycle up to `m` -/
def EntersBy (a m : ℕ) : Prop := ∃ j, a ≤ j ∧ j ≤ m ∧ (stateAt prog mem ins j).entersWb (ins j) = true

end Run

section Served

variable {prog : Program} {mem : DataMem} {ins : ℕ → BoardIn} {t : ℕ}

/-- the state in which the syscall of cycle `t` finds the pipeline -/
theorem served_first (h : (stateAt prog mem ins t).EcallInEx) :
    Served (stateAt prog mem ins (t + 1)) (stateAt prog mem ins (t + 1)) := by
  have hinv := idExInv prog mem ins t
  have hd := (dispatches_of_inEx prog hinv h (i := ins t)).2
  refine served_self hd fun hm => ?_
  rw [stateAt_succ] at hm ⊢
  have he := (ecallDetected_of_inEx hinv h).2
  -- a misaligned access has been held, and has flushed MEM/WB
  have hst : (stateAt prog mem ins t).stallEx (ins t) = true := by
    by_contra hst
    have hst' : (stateAt prog mem ins t).core.stallEx ((stateAt prog mem ins t).coreIn (ins t)) = false :=
      Bool.eq_false_of_not_eq_true hst
    have hx : (step prog (stateAt prog mem ins t) (ins t)).exMem = .bubble := by
      rw [step_exMem, Rv32imCore.exMemNext, hst']
      simp [Rv32imCore.flushEx, he]
    obtain ⟨h1, h2⟩ := misalign_of_bubble hx
    rcases hm with hm | hm
    · simp [h1] at hm
    · simp [h2] at hm
  have hmt : (stateAt prog mem ins t).Misaligned := hm.of_exMem (step_held hst).symm
  have hf := hmt.flushAll (i := ins t)
  change (stateAt prog mem ins t).core.memWbNext ((stateAt prog mem ins t).coreIn (ins t)) = _
  simp [Rv32imCore.memWbNext, Rv32imCore.flushMem, hf]

theorem served_run (h : (stateAt prog mem ins t).EcallInEx) :
    ∀ k, Serving prog mem ins t k → Served (stateAt prog mem ins (t + 1)) (stateAt prog mem ins k) := by
  rintro k ⟨hk, hs⟩
  induction k, hk using Nat.le_induction with
  | base => exact served_first h
  | succ k hk ih =>
    have hsys := hs k hk (by omega)
    have hwb : (stateAt prog mem ins k).core.sysState ≠ .writeback := by
      intro hc
      have hnext : (stateAt prog mem ins (k + 1)).core.sysState = .idle := by
        change (stateAt prog mem ins k).core.sysNext _ = _
        simp [Rv32imCore.sysNext, hc]
      exact hs (k + 1) (by omega) (le_refl _) hnext
    exact step_served prog (idExInv prog mem ins k) (busData prog mem ins k) (kinds prog mem ins k)
      (plain prog mem ins k) hsys hwb (ih fun j h1 h2 => hs j h1 (by omega))

/-- the FSM asks for the syscall five cycles after the `ecall` -/
theorem waits (h : (stateAt prog mem ins t).EcallInEx) :
    Serving prog mem ins t (t + 5) ∧ (stateAt prog mem ins (t + 5)).core.sysState = .wait := by
  have h1 : (stateAt prog mem ins (t + 1)).core.sysState = .readA7 :=
    (dispatches_of_inEx prog (idExInv prog mem ins t) h).2
  have hnext (k : ℕ) : (stateAt prog mem ins (k + 1)).core.sysState =
      (stateAt prog mem ins k).core.sysNext ((stateAt prog mem ins k).coreIn (ins k)) := rfl
  have h2 : (stateAt prog mem ins (t + 2)).core.sysState = .readA0 := by rw [hnext, Rv32imCore.sysNext, h1]
  have h3 : (stateAt prog mem ins (t + 3)).core.sysState = .readA1 := by rw [hnext, Rv32imCore.sysNext, h2]
  have h4 : (stateAt prog mem ins (t + 4)).core.sysState = .readA2 := by rw [hnext, Rv32imCore.sysNext, h3]
  have h5 : (stateAt prog mem ins (t + 5)).core.sysState = .wait := by rw [hnext, Rv32imCore.sysNext, h4]
  refine ⟨⟨by omega, fun j hj hj5 => ?_⟩, h5⟩
  have hcases : j = t + 1 ∨ j = t + 2 ∨ j = t + 3 ∨ j = t + 4 ∨ j = t + 5 := by omega
  rcases hcases with rfl | rfl | rfl | rfl | rfl
  · simp [h1]
  · simp [h2]
  · simp [h3]
  · simp [h4]
  · simp [h5]

theorem writeback_of_done {d : ℕ} {r : Word} (hd : DoneAt prog mem ins t d r) :
    (stateAt prog mem ins (d + 1)).core.sysState = .writeback ∧
      (stateAt prog mem ins (d + 1)).core.syscallRetData = r := by
  obtain ⟨-, hwait, hr⟩ := hd
  constructor
  · change (stateAt prog mem ins d).core.sysNext ((stateAt prog mem ins d).coreIn (ins d)) = _
    simp [Rv32imCore.sysNext, hwait, hr]
  · change (if (stateAt prog mem ins d).core.sysState = .wait then (ins d).syscallDone.getD _ else _) = r
    simp [hwait, hr]

theorem after_done {d : ℕ} {r : Word} (h : (stateAt prog mem ins t).EcallInEx) (hd : DoneAt prog mem ins t d r) :
    (stateAt prog mem ins (d + 2)).exMem = (stateAt prog mem ins (t + 1)).exMem ∧
      ((stateAt prog mem ins (t + 1)).exMem.isWrite = true →
        (stateAt prog mem ins (d + 2)).memValue = (stateAt prog mem ins (t + 1)).memValue) ∧
      (stateAt prog mem ins (d + 2)).dueMem = (stateAt prog mem ins (t + 1)).dueMem ∧
      ∀ x, (stateAt prog mem ins (d + 2)).core.visible x =
        if x = 10#5 ∧ ¬ (stateAt prog mem ins (t + 1)).core.wbWrites 10#5 then r
        else (stateAt prog mem ins (t + 1)).core.visible x := by
  obtain ⟨hwb, hret⟩ := writeback_of_done hd
  obtain ⟨hsv, hwait, -⟩ := hd
  have hne : (stateAt prog mem ins d).core.sysState ≠ .idle ∧ (stateAt prog mem ins d).core.sysState ≠ .writeback := by
    rw [hwait]
    decide
  have hs := served_run h d hsv
  have hs1 : Served (stateAt prog mem ins (t + 1)) (stateAt prog mem ins (d + 1)) :=
    step_served prog (idExInv prog mem ins d) (busData prog mem ins d) (kinds prog mem ins d) (plain prog mem ins d)
      hne.1 hne.2 hs
  obtain ⟨hst, -, hmwb⟩ := step_frozen prog (idExInv prog mem ins (d + 1)) (plain prog mem ins (d + 1))
    (by simp [hwb]) hs1.empty (i := ins (d + 1))
  have hx : (stateAt prog mem ins (d + 2)).exMem = (stateAt prog mem ins (d + 1)).exMem := step_held hst
  refine ⟨hx.trans hs1.exMem, fun hw => ?_, (step_dueMem_of_held prog hst).trans hs1.dueMem, fun x => ?_⟩
  · exact (step_memValue prog (kinds prog mem ins (d + 1)) (hs1.exMem ▸ hw) hx).trans (hs1.value hw)
  · have hv := step_writeback prog (plain prog mem ins (d + 1)) hwb hmwb x
    have hwr : (stateAt prog mem ins (d + 1)).core.wbWrites 10#5 ↔
        (stateAt prog mem ins (t + 1)).core.wbWrites 10#5 := by
      unfold Rv32imCore.wbWrites
      rw [hs1.memWb]
    rw [hret, hs1.visible] at hv
    simp only [hwr] at hv
    exact hv

end Served

section Conditions

variable (w : Ledger) (i : BoardIn)

/-- the instruction in EX/MEM enters WB, or the arguments do not wait for it -/
def ArgsReady : Prop := w.entersWb i = true ∨
  ((w.core.visible 17#5).setWidth 8 = ((w.dueReg 17#5).setWidth 8 : BitVec 8) ∧ w.core.visible 10#5 = w.dueReg 10#5 ∧
    w.core.visible 11#5 = w.dueReg 11#5 ∧ w.core.visible 12#5 = w.dueReg 12#5)

/-- what the syscall freezes in MEM/WB writes no other value to `a0` than the result `r` -/
def RetWritten (r : Word) : Prop :=
  (w.entersWb i = true → w.MemWrites 10#5 → w.memValue = r) ∧
    (w.entersWb i = false → w.flushMem i = false → w.core.wbWrites 10#5 → w.core.memWb.rdData = r)

/-- the instruction in EX/MEM enters WB before the syscall, or behind it if it `leaves`, or its values are there
already; and behind the syscall it writes no other value to `a0` than the result `r` -/
def Kept (leaves : Prop) (r : Word) : Prop :=
  (w.entersWb i = true ∨ (w.stallEx i = true ∧ leaves) ∨ ∀ x, x ≠ 10#5 → w.core.visible x = w.dueReg x) ∧
    (w.Due 10#5 → w.stallEx i = true → leaves → w.memValue = r)

end Conditions

section First

variable {prog : Program} {w : Ledger} {i : BoardIn}

/-- an `ecall` does not leave EX as other instructions do -/
theorem issues_of_ecall (he : w.core.ecallDetected = true) : w.issues i = false := by
  simp [issues, Rv32imCore.flushEx, he]

/-- behind the `ecall`, EX/MEM holds its instruction or nothing -/
theorem due_of_ecall (he : w.core.ecallDetected = true) (x : RegAddr) :
    (step prog w i).Due x ↔ w.stallEx i = true ∧ w.Due x := by
  cases hst : w.stallEx i with
  | true =>
    have hx : (step prog w i).exMem = w.exMem := step_held hst
    simp [Due, MemWrites, hx]
  | false =>
    have hno := (bubble_of_moves prog hst (issues_of_ecall he)).1
    simp [Due, MemWrites, hno]

end First

section Settled

variable {prog : Program} {mem : DataMem} {ins : ℕ → BoardIn} {t d : ℕ} {r : Word}

/-- the registers behind the syscall, without EX/MEM, from the state in which the `ecall` is in EX -/
theorem visible_after (h : (stateAt prog mem ins t).EcallInEx) (hd : DoneAt prog mem ins t d r) (x : RegAddr) :
    (stateAt prog mem ins (d + 2)).core.visible x =
      if x = 10#5 ∧ ¬ (stateAt prog mem ins (t + 1)).core.wbWrites 10#5 then r
      else if (stateAt prog mem ins t).entersWb (ins t) then (stateAt prog mem ins t).dueReg x
      else (stateAt prog mem ins t).core.visible x := by
  have hsys := (ecallDetected_of_inEx (idExInv prog mem ins t) h).1
  rw [(after_done h hd).2.2.2, stateAt_succ, step_visible_due prog (busData prog mem ins t) (kinds prog mem ins t)
    (plain prog mem ins t) (by rw [hsys]; decide)]

/-- what is due behind the syscall: EX/MEM still holds what it held -/
theorem dueReg_after (h : (stateAt prog mem ins t).EcallInEx) (hd : DoneAt prog mem ins t d r) (x : RegAddr) :
    (stateAt prog mem ins (d + 2)).dueReg x =
      if (stateAt prog mem ins t).stallEx (ins t) = true ∧ (stateAt prog mem ins t).Due x then
        (stateAt prog mem ins t).memValue
      else (stateAt prog mem ins (d + 2)).core.visible x := by
  obtain ⟨hsys, he⟩ := ecallDetected_of_inEx (idExInv prog mem ins t) h
  obtain ⟨hx, hval, -⟩ := after_done h hd
  have hdue : (stateAt prog mem ins (d + 2)).Due x ↔
      (stateAt prog mem ins t).stallEx (ins t) = true ∧ (stateAt prog mem ins t).Due x := by
    rw [← @due_of_ecall prog _ _ he x, ← stateAt_succ]
    unfold Due MemWrites
    rw [hx]
  by_cases hm : (stateAt prog mem ins t).stallEx (ins t) = true ∧ (stateAt prog mem ins t).Due x
  · have hx1 : (stateAt prog mem ins (t + 1)).exMem = (stateAt prog mem ins t).exMem := step_held hm.1
    rw [if_pos hm, dueReg_of_due (hdue.2 hm), hval (hx1 ▸ hm.2.1.1)]
    exact step_memValue prog (kinds prog mem ins t) hm.2.1.1 hx1
  · rw [if_neg hm, dueReg_of_not_due (mt hdue.1 hm)]

theorem dueMem_after (h : (stateAt prog mem ins t).EcallInEx) (hd : DoneAt prog mem ins t d r) :
    (stateAt prog mem ins (d + 2)).dueMem = (stateAt prog mem ins t).dueMem := by
  have he := (ecallDetected_of_inEx (idExInv prog mem ins t) h).2
  exact (after_done h hd).2.2.1.trans (step_dueMem prog (busData prog mem ins t) (issues_of_ecall he))

/-- the result is in `a0` behind the syscall exactly when MEM/WB has not written over it -/
theorem retWritten_iff (h : (stateAt prog mem ins t).EcallInEx) (hd : DoneAt prog mem ins t d r) :
    (stateAt prog mem ins (d + 2)).core.visible 10#5 = r ↔ (stateAt prog mem ins t).RetWritten (ins t) r := by
  have hwr := step_wbWrites prog 10#5 (w := stateAt prog mem ins t) (i := ins t)
  rw [← stateAt_succ] at hwr
  rw [visible_after h hd, RetWritten]
  cases he : (stateAt prog mem ins t).entersWb (ins t) with
  | true =>
    rw [he, if_pos rfl] at hwr
    by_cases hm : (stateAt prog mem ins t).MemWrites 10#5
    · simp [hwr, hm, dueReg_of_enters he, orderReg_of_writes hm]
    · simp [hwr, hm]
  | false =>
    rw [he, if_neg (by decide)] at hwr
    by_cases hw : (stateAt prog mem ins t).flushMem (ins t) = false ∧ (stateAt prog mem ins t).core.wbWrites 10#5
    · simp [hwr, hw, visible_of_wbWrites hw.2]
    · have hno : ¬ (stateAt prog mem ins (t + 1)).core.wbWrites 10#5 := mt hwr.1 hw
      simp only [hno, not_false_eq_true, and_self, if_true, true_iff, Bool.false_eq_true, false_implies, true_implies,
        true_and]
      exact fun hf hc => absurd ⟨hf, hc⟩ hw

/-- **The registers behind the syscall are those before it, but for `a0`, exactly when** the instruction in EX/MEM is
kept. They are what is due, or, if the instruction does not enter WB any more, what is there. -/
theorem kept_iff (h : (stateAt prog mem ins t).EcallInEx) (hd : DoneAt prog mem ins t d r)
    (hret : (stateAt prog mem ins t).RetWritten (ins t) r) {leaves : Prop} {v : RegAddr → Word}
    (hyes : leaves → ∀ x, v x = (stateAt prog mem ins (d + 2)).dueReg x)
    (hno : ¬ leaves → ∀ x, v x = (stateAt prog mem ins (d + 2)).core.visible x) :
    (∀ x, v x = if x = 10#5 then r else (stateAt prog mem ins t).dueReg x) ↔
      (stateAt prog mem ins t).Kept (ins t) leaves r := by
  have hret := (retWritten_iff h hd).2 hret
  have hvis {x : RegAddr} (hx : x ≠ 10#5) : (stateAt prog mem ins (d + 2)).core.visible x =
      if (stateAt prog mem ins t).entersWb (ins t) then (stateAt prog mem ins t).dueReg x
      else (stateAt prog mem ins t).core.visible x := by
    rw [visible_after h hd, if_neg fun hc => hx hc.1]
  -- EX/MEM writes behind the syscall what it has held
  have hheld {x : RegAddr} (hl : leaves) (hst : (stateAt prog mem ins t).stallEx (ins t) = true)
      (hdue : (stateAt prog mem ins t).Due x) : v x = (stateAt prog mem ins t).memValue := by
    rw [hyes hl, dueReg_after h hd, if_pos ⟨hst, hdue⟩]
  have helse {x : RegAddr} (hn : ¬ (leaves ∧ (stateAt prog mem ins t).stallEx (ins t) = true ∧
      (stateAt prog mem ins t).Due x)) :
      v x = (stateAt prog mem ins (d + 2)).core.visible x := by
    by_cases hl : leaves
    · rw [hyes hl, dueReg_after h hd, if_neg fun hc => hn ⟨hl, hc⟩]
    · exact hno hl x
  constructor
  · intro hall
    refine ⟨?_, fun hdue hst hl => ?_⟩
    · by_contra hk
      simp only [not_or, Bool.not_eq_true] at hk
      obtain ⟨hent, hst, hval⟩ := hk
      refine hval fun x hx => ?_
      have hx' := hall x
      rw [if_neg hx, helse fun hc => hst ⟨hc.2.1, hc.1⟩, hvis hx, hent] at hx'
      simpa using hx'
    · rw [← hheld hl hst hdue, hall, if_pos rfl]
  · rintro ⟨hkept, hlast⟩ x
    by_cases hc : leaves ∧ (stateAt prog mem ins t).stallEx (ins t) = true ∧ (stateAt prog mem ins t).Due x
    · rw [hheld hc.1 hc.2.1 hc.2.2]
      by_cases hx : x = 10#5
      · subst hx
        rw [if_pos rfl, hlast hc.2.2 hc.2.1 hc.1]
      · rw [if_neg hx, dueReg_of_due hc.2.2]
    · rw [helse hc]
      by_cases hx : x = 10#5
      · rw [if_pos hx, hx, hret]
      · rw [if_neg hx, hvis hx]
        rcases hkept with hk | ⟨hst, hl⟩ | hk
        · rw [if_pos hk]
        · rw [dueReg_of_not_due fun hdue => hc ⟨hl, hst, hdue⟩, ite_self]
        · rw [hk x hx, ite_self]

/-! ## Behind the syscall -/

theorem step_invalid {w : Ledger} {i : BoardIn} (hs : w.stallId i = true) (hv : w.core.idEx.valid = false) :
    (step prog w i).core.idEx.valid = false := by
  have hs' : w.core.stallId (w.coreIn i) = true := hs
  change (w.core.idExNext (w.coreIn i)).valid = false
  unfold Rv32imCore.idExNext
  rw [if_pos hs']
  split_ifs
  · rfl
  · exact hv

theorem stallId_of_stallEx {w : Ledger} {i : BoardIn} (h : w.stallEx i = true) : w.stallId i = true := by
  have h' : w.core.stallEx (w.coreIn i) = true := h
  simp [stallId, Rv32imCore.stallId, h']

/-- while EX/MEM is held behind a syscall, no other one begins, and the same stays due -/
theorem held_after {m : ℕ} (hd : DoneAt prog mem ins t d r) (hm : InMem prog mem ins (d + 2) m) :
    (stateAt prog mem ins m).core.sysState = .idle ∧ (stateAt prog mem ins m).core.idEx.valid = false ∧
      (∀ x, (stateAt prog mem ins m).dueReg x = (stateAt prog mem ins (d + 2)).dueReg x) ∧
      (stateAt prog mem ins m).dueMem = (stateAt prog mem ins (d + 2)).dueMem := by
  obtain ⟨hle, hh⟩ := hm
  have hsys (k : ℕ) : (stateAt prog mem ins (k + 1)).core.sysState =
      (stateAt prog mem ins k).core.sysNext ((stateAt prog mem ins k).coreIn (ins k)) := rfl
  induction m, hle using Nat.le_induction with
  | base =>
    have hwb := (writeback_of_done hd).1
    have hst : (stateAt prog mem ins (d + 1)).stallEx (ins (d + 1)) = true := by
      simp [stallEx, Rv32imCore.stallEx, Rv32imCore.stallMem, Rv32imCore.syscallActive, hwb]
    refine ⟨?_, ?_, fun _ => rfl, rfl⟩
    · rw [hsys]
      simp [Rv32imCore.sysNext, hwb]
    · exact step_invalid (stallId_of_stallEx hst) ((idExInv prog mem ins (d + 1)).sys (by simp [hwb]))
  | succ m hle ih =>
    obtain ⟨h1, h2, h3, h4⟩ := ih fun j ha hj => hh j ha (by omega)
    have hst := hh m hle (Nat.lt_succ_self m)
    refine ⟨?_, step_invalid (stallId_of_stallEx hst) h2, fun x => ?_, (step_dueMem_of_held prog hst).trans h4⟩
    · rw [hsys]
      simp [Rv32imCore.sysNext, h1, ecallDetected_of_invalid h2]
    · rw [stateAt_succ, step_dueReg_of_held prog (busData prog mem ins m) (kinds prog mem ins m) (plain prog mem ins m)
        (by rw [h1]; decide) hst]
      exact h3 x

/-- the registers behind EX/MEM when it has moved on: with the instruction that it held, or without it -/
theorem visible_moved {m : ℕ} (hd : DoneAt prog mem ins t d r) (hm : InMem prog mem ins (d + 2) m) (x : RegAddr) :
    (EntersBy prog mem ins (d + 2) m →
        (stateAt prog mem ins (m + 1)).core.visible x = (stateAt prog mem ins (d + 2)).dueReg x) ∧
      (¬ EntersBy prog mem ins (d + 2) m →
        (stateAt prog mem ins (m + 1)).core.visible x = (stateAt prog mem ins (d + 2)).core.visible x) := by
  obtain ⟨hle, hh⟩ := hm
  have hstep (k : ℕ) (hk : InMem prog mem ins (d + 2) k) : (stateAt prog mem ins (k + 1)).core.visible x =
      if (stateAt prog mem ins k).entersWb (ins k) then (stateAt prog mem ins (d + 2)).dueReg x
      else (stateAt prog mem ins k).core.visible x := by
    obtain ⟨hidle, -, hdue, -⟩ := held_after hd hk
    rw [← hdue x]
    exact step_visible_due prog (busData prog mem ins k) (kinds prog mem ins k) (plain prog mem ins k)
      (by rw [hidle]; decide) x
  induction m, hle using Nat.le_induction with
  | base =>
    rw [hstep (d + 2) (InMem.first _)]
    constructor
    · rintro ⟨j, h1, h2, he⟩
      rw [show j = d + 2 by omega] at he
      rw [if_pos he]
    · intro hn
      rw [if_neg fun he => hn ⟨d + 2, le_refl _, le_refl _, he⟩]
  | succ m hle ih =>
    obtain ⟨h1, h2⟩ := ih fun j ha hj => hh j ha (by omega)
    rw [hstep (m + 1) ⟨by omega, hh⟩]
    constructor
    · rintro ⟨j, hj1, hj2, he⟩
      split_ifs with hlast
      · rfl
      · refine h1 ⟨j, hj1, ?_, he⟩
        by_contra hj
        rw [show j = m + 1 by omega] at he
        exact hlast he
    · intro hn
      rw [if_neg fun he => hn ⟨m + 1, by omega, le_refl _, he⟩]
      exact h2 fun ⟨j, hj1, hj2, he⟩ => hn ⟨j, hj1, by omega, he⟩

theorem mem_moved {m : ℕ} (h : (stateAt prog mem ins t).EcallInEx) (hd : DoneAt prog mem ins t d r)
    (hm : MovesOn prog mem ins (d + 2) m) :
    (stateAt prog mem ins (m + 1)).board.bus.mem = (stateAt prog mem ins t).dueMem := by
  obtain ⟨-, -, -, hdue⟩ := held_after hd hm.1
  rw [stateAt_succ, step_mem_due prog (busData prog mem ins m) hm.2, hdue, dueMem_after h hd]

/-! ## The arguments -/

/-- the arguments are those behind EX/MEM in the first cycle of the syscall -/
theorem args_eq {k : ℕ} (h : (stateAt prog mem ins t).EcallInEx) (hk : Serving prog mem ins t k)
    (hw : (stateAt prog mem ins k).core.sysState = .wait) :
    (stateAt prog mem ins k).core.syscallNum = ((stateAt prog mem ins (t + 1)).core.visible 17#5).setWidth 8 ∧
      (stateAt prog mem ins k).core.syscallArg0 = (stateAt prog mem ins (t + 1)).core.visible 10#5 ∧
      (stateAt prog mem ins k).core.syscallArg1 = (stateAt prog mem ins (t + 1)).core.visible 11#5 ∧
      (stateAt prog mem ins k).core.syscallArg2 = (stateAt prog mem ins (t + 1)).core.visible 12#5 := by
  have hargs := (served_run h k hk).args
  rw [ArgsRead, hw] at hargs
  exact hargs

/-- the arguments are right exactly when EX/MEM does not keep them back -/
theorem argsReady_iff (h : (stateAt prog mem ins t).EcallInEx) :
    (((stateAt prog mem ins (t + 1)).core.visible 17#5).setWidth 8 =
          (((stateAt prog mem ins t).dueReg 17#5).setWidth 8 : BitVec 8) ∧
        (stateAt prog mem ins (t + 1)).core.visible 10#5 = (stateAt prog mem ins t).dueReg 10#5 ∧
        (stateAt prog mem ins (t + 1)).core.visible 11#5 = (stateAt prog mem ins t).dueReg 11#5 ∧
        (stateAt prog mem ins (t + 1)).core.visible 12#5 = (stateAt prog mem ins t).dueReg 12#5) ↔
      (stateAt prog mem ins t).ArgsReady (ins t) := by
  obtain ⟨hsys, -⟩ := ecallDetected_of_inEx (idExInv prog mem ins t) h
  have hv (x : RegAddr) : (stateAt prog mem ins (t + 1)).core.visible x = _ :=
    step_visible_due prog (busData prog mem ins t) (kinds prog mem ins t) (plain prog mem ins t)
      (by rw [hsys]; decide) x
  rw [ArgsReady, hv, hv, hv, hv]
  cases (stateAt prog mem ins t).entersWb (ins t) <;> simp

end Settled

end Vsync.Ledger
