/-
The board with the context lines, and what the instruction in EX/MEM has done.

The cycle behind an accepted request flushes IF/ID, ID/EX and MEM/WB, and EX/MEM waits until the switch completes; the
access that waits there goes on being requested.

- `SwitchBoard`, `step`: the board with the context and debug lines, and two flags about the instruction in EX/MEM.
- `Fires`, `Drops`, `Repeats`: what can go wrong in a cycle.
- `written_of_enters`: an instruction that enters WB writes its register at the next edge.
- `stalls_of_active`, `step_pc`, `step_idEx`: a cycle of a switch.
- `taken_iff`, `retired_iff`: the flags say what happened in the stay of the instruction.
-/
import Vsync.Core.Board
import Vsync.Core.CtxFsm

namespace Vsync

/-- the inputs of the board, with the context and debug lines of the core -/
structure SwitchBoardIn where
  answer : Bool
  irq : IrqLines
  syscallDone : Option Word
  ctxSwitchReq : Bool
  ctxRestore : Option (RegAddr × Word)
  debugHaltReq : Bool
  debugRegAddr : RegAddr
  mextStarts : Bool

namespace ExMem

def accesses (m : ExMem) : Bool := (m.memRead || m.memWrite) && m.valid

def writes (m : ExMem) : Bool := m.regWrite && m.valid && m.rdAddr != 0

end ExMem

structure SwitchBoard where
  board : Board
  /-- the bus has taken the access of the instruction in EX/MEM -/
  taken : Bool
  /-- the instruction in EX/MEM has entered WB -/
  retired : Bool

namespace SwitchBoard

section Names

variable (w : SwitchBoard) (i : SwitchBoardIn)

def core : Rv32imCore := w.board.core

def exMem : ExMem := w.board.core.exMem

def coreIn : CoreIn where
  imemRdata := w.board.imemQ
  memRdata := w.board.bus.rdata
  memReady := w.board.bus.done i.answer
  irq := i.irq
  ctxSwitchReq := i.ctxSwitchReq
  ctxRestore := i.ctxRestore
  syscallDone := i.syscallDone
  debugHaltReq := i.debugHaltReq
  debugRegAddr := i.debugRegAddr
  mextStarts := i.mextStarts

def cmd : BusCmd where
  read := w.core.memRead
  write := w.core.memWrite (w.coreIn i)
  addr := w.exMem.aluResult
  wdata := w.core.memWdata
  strobe := w.core.memBe

def ctxSavePc : Word := w.core.pc

def stallEx : Bool := w.core.stallEx (w.coreIn i)

def flushMem : Bool := w.core.flushMem (w.coreIn i)

def entersWb : Bool := !w.flushMem i && !w.core.stallMem (w.coreIn i)

def accepts : Bool := w.board.bus.accepts (w.cmd i)

/-- the instruction in ID/EX takes effect in this cycle: it writes a CSR, traps, or begins a syscall -/
def Fires : Prop :=
  w.core.idEx.valid = true ∧ (w.core.flushAll (w.coreIn i) = true ∨ w.core.ecallDetected = true ∨
    (w.core.idEx.ctrl.csrEn = true ∧ w.core.idEx.ctrl.csrOp ≠ 0b00#2))

/-- EX/MEM moves on, and MEM/WB is flushed before it has had the register write of the instruction -/
def Drops : Prop := w.stallEx i = false ∧ w.flushMem i = true ∧ w.retired = false ∧ w.exMem.writes = true

/-- the bus takes the access of the instruction in EX/MEM again -/
def Repeats : Prop := w.taken = true ∧ w.accepts i = true

instance : Decidable (w.Fires i) := by unfold Fires; infer_instance

instance : Decidable (w.Drops i) := by unfold Drops; infer_instance

instance : Decidable (w.Repeats i) := by unfold Repeats; infer_instance

end Names

def reset (mem : DataMem) : SwitchBoard := ⟨.reset mem, false, false⟩

def step (prog : Program) (w : SwitchBoard) (i : SwitchBoardIn) : SwitchBoard where
  board :=
    { core := w.core.step (w.coreIn i)
      imemQ := if w.core.imemEn (w.coreIn i) then prog.fetch w.core.pc else w.board.imemQ
      bus := w.board.bus.step (w.cmd i) i.answer }
  taken := w.stallEx i && (w.taken || w.accepts i)
  retired := w.stallEx i && (w.retired || w.entersWb i)

def stateAt (prog : Program) (mem : DataMem) (ins : ℕ → SwitchBoardIn) (n : ℕ) : SwitchBoard :=
  Machine.trace (step prog) (reset mem) ins n

theorem stateAt_succ (prog : Program) (mem : DataMem) (ins : ℕ → SwitchBoardIn) (n : ℕ) :
    stateAt prog mem ins (n + 1) = step prog (stateAt prog mem ins n) (ins n) := rfl

theorem runs (prog : Program) (mem : DataMem) (ins : ℕ → SwitchBoardIn) :
    Rv32imCore.Runs (fun n => (stateAt prog mem ins n).core) fun n => (stateAt prog mem ins n).coreIn (ins n) :=
  fun _ => rfl

/-! ## One cycle -/

/-- the bus is busy with the access of the instruction in EX/MEM -/
def BusInv (w : SwitchBoard) : Prop := w.board.bus.busy = true → w.taken = true ∧ w.exMem.accesses = true

section Cycle

variable {prog : Program} {w : SwitchBoard} {i : SwitchBoardIn}

theorem step_held (prog : Program) (h : w.stallEx i = true) : (step prog w i).exMem = w.exMem := by
  have h' : w.core.stallEx (w.coreIn i) = true := h
  change w.core.exMemNext (w.coreIn i) = _
  rw [Rv32imCore.exMemNext, if_pos h']
  rfl

theorem step_busy (prog : Program) : (step prog w i).board.bus.busy =
    if w.board.bus.busy then !i.answer else w.accepts i := by
  simp only [step, DataBus.step, accepts, DataBus.accepts]
  cases hb : w.board.bus.busy <;> cases ha : i.answer <;> simp_all
  all_goals split_ifs <;> simp_all

theorem accesses_of_accepts (h : w.accepts i = true) : w.exMem.accesses = true ∧ w.board.bus.busy = false := by
  simp only [accepts, DataBus.accepts, cmd, Rv32imCore.memRead, Rv32imCore.memWrite, Bool.and_eq_true,
    Bool.or_eq_true, Bool.not_eq_true'] at h
  refine ⟨?_, h.1⟩
  rcases h.2 with h | h
  · have h1 : w.exMem.memRead = true ∧ w.exMem.valid = true := h
    simp [ExMem.accesses, h1]
  · have h1 : w.exMem.memWrite = true ∧ w.exMem.valid = true := h.1
    simp [ExMem.accesses, h1]

theorem answered_of_moves (hs : w.stallEx i = false) (ha : w.exMem.accesses = true) :
    w.board.bus.busy = true ∧ i.answer = true := by
  have hop : w.core.memOpActive = true := ha
  simp only [stallEx, Rv32imCore.stallEx, Rv32imCore.stallMem, Rv32imCore.memStall, hop, Bool.or_eq_false_iff,
    Bool.true_and, Bool.not_eq_false', Bool.and_eq_true] at hs
  have := hs.1.1.1.1.2
  simpa [coreIn, DataBus.done] using this

theorem step_busInv (h : BusInv w) : BusInv (step prog w i) := by
  intro hb
  rw [step_busy] at hb
  cases hst : w.stallEx i with
  | true =>
    rw [step_held prog hst]
    cases hbusy : w.board.bus.busy with
    | true =>
      obtain ⟨h1, h2⟩ := h hbusy
      exact ⟨by simp [step, hst, h1], h2⟩
    | false =>
      rw [hbusy, if_neg (by decide)] at hb
      exact ⟨by simp [step, hst, hb], (accesses_of_accepts hb).1⟩
  | false =>
    -- an access that moves on has been answered, and leaves the bus free
    exfalso
    cases ha : w.exMem.accesses with
    | true =>
      obtain ⟨h1, h2⟩ := answered_of_moves hst ha
      simp [h1, h2] at hb
    | false =>
      cases hbusy : w.board.bus.busy with
      | true =>
        have := (h hbusy).2
        simp [ha] at this
      | false =>
        rw [hbusy, if_neg (by decide)] at hb
        have := (accesses_of_accepts hb).1
        simp [ha] at this

theorem stallMem_of_moves (hs : w.stallEx i = false) : w.core.stallMem (w.coreIn i) = false := by
  simp only [stallEx, Rv32imCore.stallEx, Bool.or_eq_false_iff] at hs
  exact hs.1

/-- the instruction that enters WB writes its register at the next edge -/
theorem written_of_enters (prog : Program) (j : SwitchBoardIn) (he : w.entersWb i = true) (hw : w.exMem.writes = true) :
    (step prog (step prog w i) j).core.regs w.exMem.rdAddr = (w.core.memDone (w.coreIn i)).rdData := by
  simp only [entersWb, flushMem, Bool.and_eq_true, Bool.not_eq_true'] at he
  simp only [ExMem.writes, Bool.and_eq_true, bne_iff_ne, ne_eq] at hw
  have hst := he.2
  simp only [Rv32imCore.stallMem, Rv32imCore.ctxActive, Rv32imCore.syscallActive, Bool.or_eq_false_iff,
    bne_eq_false_iff_eq]
    at hst
  have hwb : (step prog w i).core.memWb = w.core.memDone (w.coreIn i) := by
    change w.core.memWbNext (w.coreIn i) = _
    simp [Rv32imCore.memWbNext, he.1, he.2]
  have hsys : (step prog w i).core.sysState ≠ .writeback := by
    change w.core.sysNext (w.coreIn i) ≠ .writeback
    simp only [Rv32imCore.sysNext, hst.1.2]
    split_ifs <;> decide
  have hctx : (step prog w i).core.ctxState ≠ .restoreRegs := by
    change w.core.ctxNext (w.coreIn i) ≠ .restoreRegs
    simp only [Rv32imCore.ctxNext, hst.1.1.2]
    split_ifs <;> decide
  have hwr : (w.core.memDone (w.coreIn i)).writes = true := by
    have h1 : w.core.exMem.regWrite = true := hw.1.1
    have h2 : w.core.exMem.valid = true := hw.1.2
    simp [MemWb.writes, Rv32imCore.memDone, h1, h2]
  have hrd : (w.core.memDone (w.coreIn i)).rdAddr = w.exMem.rdAddr := rfl
  have hne : w.exMem.rdAddr ≠ 0#5 := hw.2
  change (step prog w i).core.regsNext ((step prog w i).coreIn j) _ = _
  simp [Rv32imCore.regsNext, Rv32imCore.writePort, hctx, hsys, hwb, hwr, hrd, hne]

/-! ## A cycle of a switch -/

/-- while a switch is going on, nothing moves -/
theorem stalls_of_active (h : w.core.ctxState ≠ .idle) :
    w.stallEx i = true ∧ w.core.stallId (w.coreIn i) = true ∧ w.entersWb i = false := by
  have hs : w.core.stallMem (w.coreIn i) = true := by simp [Rv32imCore.stallMem, Rv32imCore.ctxActive, h]
  refine ⟨?_, ?_, ?_⟩
  · simp [stallEx, Rv32imCore.stallEx, hs]
  · simp [Rv32imCore.stallId, Rv32imCore.stallEx, hs]
  · simp [entersWb, hs]

theorem step_pc (prog : Program) (h : w.core.ctxState ≠ .idle) :
    (step prog w i).core.pc = (w.core.redirect (w.coreIn i)).getD w.core.pc := by
  change w.core.pcNext (w.coreIn i) = _
  rw [Rv32imCore.pcNext, (stalls_of_active h).2.1]
  cases w.core.redirect (w.coreIn i) <;> rfl

/-- the flush, and every cycle behind it, leaves ID/EX empty -/
theorem step_idEx (prog : Program) (h : w.core.ctxState ≠ .idle)
    (he : w.core.ctxState = .flush ∨ w.core.idEx.valid = false) : (step prog w i).core.idEx.valid = false := by
  change (w.core.idExNext (w.coreIn i)).valid = false
  rw [Rv32imCore.idExNext, (stalls_of_active (i := i) h).2.1]
  rcases he with he | he
  · simp [Rv32imCore.flushId, he, IdEx.bubble]
  · cases w.core.flushId (w.coreIn i) <;> simp [he, IdEx.bubble]

end Cycle

/-! ## The stay of an instruction in EX/MEM -/

section Run

variable (prog : Program) (mem : DataMem) (ins : ℕ → SwitchBoardIn)

theorem busInv (n : ℕ) : BusInv (stateAt prog mem ins n) :=
  Machine.trace_inv (step prog) (reset mem) ins (fun h => Bool.noConfusion h) (fun _ _ h => step_busInv h) n

/-- EX/MEM has moved on before cycle `c`, so that an instruction, or a bubble, begins its stay there -/
def Enters (c : ℕ) : Prop := ∀ n, c = n + 1 → (stateAt prog mem ins n).stallEx (ins n) = false

def InMem (c k : ℕ) : Prop := c ≤ k ∧ ∀ j, c ≤ j → j < k → (stateAt prog mem ins j).stallEx (ins j) = true

def TakenAt (c k : ℕ) : Prop := InMem prog mem ins c k ∧ (stateAt prog mem ins k).accepts (ins k) = true

def RetiresAt (c k : ℕ) : Prop := InMem prog mem ins c k ∧ (stateAt prog mem ins k).entersWb (ins k) = true

variable {prog mem ins} {c k : ℕ}

theorem InMem.refl (c : ℕ) : InMem prog mem ins c c := ⟨le_refl c, fun j h1 h2 => by omega⟩

theorem InMem.prev (h : InMem prog mem ins c k) {j : ℕ} (h1 : c ≤ j) (h2 : j ≤ k) : InMem prog mem ins c j :=
  ⟨h1, fun m hm1 hm2 => h.2 m hm1 (by omega)⟩

theorem InMem.exMem (h : InMem prog mem ins c k) : (stateAt prog mem ins k).exMem = (stateAt prog mem ins c).exMem := by
  obtain ⟨hk, hh⟩ := h
  induction k, hk using Nat.le_induction with
  | base => rfl
  | succ k hk ih =>
    rw [stateAt_succ, step_held prog (hh k hk (Nat.lt_succ_self k))]
    exact ih fun j h1 h2 => hh j h1 (by omega)

/-- in every cycle, some stay is going on -/
theorem exists_enters (k : ℕ) : ∃ c, Enters prog mem ins c ∧ InMem prog mem ins c k := by
  induction k with
  | zero => exact ⟨0, fun n hn => by omega, InMem.refl 0⟩
  | succ k ih =>
    cases hst : (stateAt prog mem ins k).stallEx (ins k) with
    | false =>
      refine ⟨k + 1, ?_, InMem.refl (k + 1)⟩
      intro n hn
      obtain rfl : n = k := by omega
      exact hst
    | true =>
      obtain ⟨c, hc, hck, hh⟩ := ih
      refine ⟨c, hc, Nat.le_succ_of_le hck, fun j h1 h2 => ?_⟩
      rcases Nat.lt_succ_iff_lt_or_eq.1 h2 with h2 | rfl
      · exact hh j h1 h2
      · exact hst

/-- a flag that `ev` sets, and that every move of EX/MEM clears, says whether `ev` came in an earlier cycle of the stay
-/
theorem flag_iff (flag ev : ℕ → Bool) (h0 : flag 0 = false)
    (hs : ∀ k, flag (k + 1) = ((stateAt prog mem ins k).stallEx (ins k) && (flag k || ev k)))
    (hc : Enters prog mem ins c) (h : InMem prog mem ins c k) :
    flag k = true ↔ ∃ j, j < k ∧ InMem prog mem ins c j ∧ ev j = true := by
  obtain ⟨hk, hh⟩ := h
  induction k, hk using Nat.le_induction with
  | base =>
    have hfirst : flag c = false := by
      cases c with
      | zero => exact h0
      | succ n => rw [hs, hc n rfl, Bool.false_and]
    rw [hfirst]
    refine ⟨fun h => Bool.noConfusion h, ?_⟩
    rintro ⟨j, h1, h2, -⟩
    exact absurd h2.1 (by omega)
  | succ k hk ih =>
    have hin : InMem prog mem ins c k := ⟨hk, fun j h1 h2 => hh j h1 (by omega)⟩
    rw [hs, hh k hk (Nat.lt_succ_self k), Bool.true_and, Bool.or_eq_true, ih hin.2]
    constructor
    · rintro (⟨j, h1, h2⟩ | h)
      · exact ⟨j, by omega, h2⟩
      · exact ⟨k, Nat.lt_succ_self k, hin, h⟩
    · rintro ⟨j, h1, h2⟩
      rcases Nat.lt_succ_iff_lt_or_eq.1 h1 with h1 | rfl
      · exact Or.inl ⟨j, h1, h2⟩
      · exact Or.inr h2.2

/-- **The bus has taken the access** exactly when it did so in an earlier cycle of the stay. -/
theorem taken_iff (hc : Enters prog mem ins c) (h : InMem prog mem ins c k) :
    (stateAt prog mem ins k).taken = true ↔ ∃ j, j < k ∧ TakenAt prog mem ins c j :=
  flag_iff (fun k => (stateAt prog mem ins k).taken) (fun k => (stateAt prog mem ins k).accepts (ins k)) rfl
    (fun _ => rfl) hc h

/-- **The instruction has retired** exactly when it entered WB in an earlier cycle of the stay. -/
theorem retired_iff (hc : Enters prog mem ins c) (h : InMem prog mem ins c k) :
    (stateAt prog mem ins k).retired = true ↔ ∃ j, j < k ∧ RetiresAt prog mem ins c j :=
  flag_iff (fun k => (stateAt prog mem ins k).retired) (fun k => (stateAt prog mem ins k).entersWb (ins k)) rfl
    (fun _ => rfl) hc h

/-- an instruction that leaves EX/MEM has had its access taken, and has entered WB or had no write to make or is dropped
-/
theorem done_of_moves (hc : Enters prog mem ins c) (h : InMem prog mem ins c k)
    (hst : (stateAt prog mem ins k).stallEx (ins k) = false) :
    ((stateAt prog mem ins c).exMem.accesses = true → ∃ j, j < k ∧ TakenAt prog mem ins c j) ∧
      ((stateAt prog mem ins c).exMem.writes = true → ¬ (stateAt prog mem ins k).Drops (ins k) →
        ∃ j, j ≤ k ∧ RetiresAt prog mem ins c j) := by
  constructor
  · intro ha
    rw [← h.exMem] at ha
    exact (taken_iff hc h).1 (busInv prog mem ins k (answered_of_moves hst ha).1).1
  · intro hw hno
    cases hret : (stateAt prog mem ins k).retired with
    | true =>
      obtain ⟨j, h1, h2⟩ := (retired_iff hc h).1 hret
      exact ⟨j, by omega, h2⟩
    | false =>
      rw [← h.exMem] at hw
      have hf : (stateAt prog mem ins k).flushMem (ins k) = false := by
        by_contra hf
        exact hno ⟨hst, by simpa using hf, hret, hw⟩
      exact ⟨k, le_refl k, h, by simp [entersWb, hf, stallMem_of_moves hst]⟩

end Run

end SwitchBoard

end Vsync
