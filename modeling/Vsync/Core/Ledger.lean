/-
What the instructions that have left EX owe, and what has happened of it.

`Ledger` runs the board beside two lists: the data access and the register write of each instruction that has left EX,
in program order, and those that have happened: an access when the bus takes it, a register write when the instruction
enters WB for the first time. An access that traps in MEM owes nothing.

Three things go wrong. `flush_mem` empties MEM/WB, so a redirect in a cycle in which EX/MEM moves on drops the register
write of the older instruction there; an access that is answered while a syscall holds EX/MEM is made again; and a load
that traps is on the bus all the same.

- `written_of_enters`: an instruction that enters WB writes its register at the next edge.
- `Spares`, `Repeats`, `Strays`: the cycle drops no register write; its access will be made again; its access traps.
- `accesses_balance`, `writes_balance`: what one cycle adds to what is done too often, and to what is missing.
- `exact_iff`: what is done and pending is what was owed exactly when every cycle has spared, and none has repeated or
  strayed.
-/
import Vsync.Core.Board

namespace Vsync

/-- what an instruction does beyond the pipeline registers -/
inductive Duty where
  | access (pc addr : Word) (write : Bool)
  | write (pc : Word) (rd : RegAddr)
  deriving DecidableEq, Repr

namespace Duty

def isAccess : Duty → Bool
  | access .. => true
  | write .. => false

def accesses (l : List Duty) : ℕ := l.countP isAccess

def writes (l : List Duty) : ℕ := l.countP fun d => !d.isAccess

@[simp] theorem accesses_append (l m : List Duty) : accesses (l ++ m) = accesses l + accesses m := List.countP_append

@[simp] theorem writes_append (l m : List Duty) : writes (l ++ m) = writes l + writes m := List.countP_append

@[simp] theorem accesses_nil : accesses [] = 0 := rfl

@[simp] theorem writes_nil : writes [] = 0 := rfl

end Duty

namespace ExMem

variable (m : ExMem)

def isAccess : Bool := (m.memRead || m.memWrite) && m.valid

def isWrite : Bool := m.regWrite && m.valid && m.rdAddr != 0

def faults : Bool := m.isAccess && MemoryStage.misaligned m.memFunct3 m.aluResult

/-- the access as the bus sees it -/
def request : List Duty := if m.isAccess then [.access m.pc m.aluResult m.memWrite] else []

def accessDuty : List Duty := if m.faults then [] else m.request

def wbWrite : List Duty := if m.isWrite then [.write m.pc m.rdAddr] else []

def writeDuty : List Duty := if m.faults then [] else m.wbWrite

/-- what the instruction owes when it enters EX/MEM -/
def duties : List Duty := m.accessDuty ++ m.writeDuty

variable {m}

theorem accessDuty_of_noAccess (h : m.isAccess = false) : m.accessDuty = [] := by simp [accessDuty, request, h]

theorem duties_of_invalid (h : m.valid = false) : m.accessDuty = [] ∧ m.writeDuty = [] := by
  simp [accessDuty, request, writeDuty, wbWrite, isAccess, isWrite, h]

theorem accesses_request (h : m.isAccess = true) : Duty.accesses m.request = 1 := by
  rw [request, if_pos h]
  rfl

theorem writes_request (m : ExMem) : Duty.writes m.request = 0 := by
  unfold request
  split_ifs <;> rfl

theorem accesses_accessDuty (h : m.accessDuty ≠ []) : Duty.accesses m.accessDuty = 1 := by
  unfold accessDuty request at *
  split_ifs at * <;> first | rfl | exact absurd rfl h

theorem writes_accessDuty (m : ExMem) : Duty.writes m.accessDuty = 0 := by
  unfold accessDuty
  split_ifs
  · rfl
  · exact writes_request m

theorem accesses_writeDuty (m : ExMem) : Duty.accesses m.writeDuty = 0 := by
  unfold writeDuty wbWrite
  split_ifs <;> rfl

theorem writes_writeDuty (m : ExMem) : Duty.writes m.writeDuty = if m.writeDuty = [] then 0 else 1 := by
  unfold writeDuty wbWrite
  split_ifs <;> simp_all [Duty.writes, Duty.isAccess]

end ExMem

structure Ledger where
  board : Board
  /-- what the instructions that have left EX owed, in program order -/
  owed : List Duty
  /-- what has happened of it -/
  done : List Duty
  /-- the instruction in EX/MEM has entered WB -/
  retired : Bool

namespace Ledger

section Names

variable (w : Ledger) (i : BoardIn)

def core : Rv32imCore := w.board.core

def coreIn : CoreIn := w.board.coreIn i

def exMem : ExMem := w.board.core.exMem

def stallEx : Bool := w.core.stallEx (w.coreIn i)

def flushMem : Bool := w.core.flushMem (w.coreIn i)

def entersWb : Bool := !w.flushMem i && !w.core.stallMem (w.coreIn i)

def accepts : Bool := w.board.bus.accepts (w.board.cmd i)

/-- what the instruction in EX/MEM has still to do -/
def pending : List Duty :=
  (if w.board.bus.busy then [] else w.exMem.accessDuty) ++ (if w.retired then [] else w.exMem.writeDuty)

end Names

def reset (mem : DataMem) : Ledger := ⟨.reset mem, [], [], false⟩

def step (prog : Program) (w : Ledger) (i : BoardIn) : Ledger where
  board := w.board.step prog i
  owed := if w.stallEx i then w.owed else w.owed ++ (w.board.step prog i).core.exMem.duties
  done := w.done ++ (if w.accepts i then w.exMem.request else []) ++
    (if w.entersWb i && !w.retired then w.exMem.wbWrite else [])
  retired := w.stallEx i && (w.retired || w.entersWb i)

def stateAt (prog : Program) (mem : DataMem) (ins : ℕ → BoardIn) (n : ℕ) : Ledger :=
  Machine.trace (step prog) (reset mem) ins n

theorem stateAt_succ (prog : Program) (mem : DataMem) (ins : ℕ → BoardIn) (n : ℕ) :
    stateAt prog mem ins (n + 1) = step prog (stateAt prog mem ins n) (ins n) := rfl

/-- the watched run is a run of the board -/
theorem stateAt_board (prog : Program) (mem : DataMem) (ins : ℕ → BoardIn) (n : ℕ) :
    (stateAt prog mem ins n).board = Board.stateAt prog mem ins n := by
  induction n with
  | zero => rfl
  | succ n ih => rw [Board.stateAt_succ, ← ih]; rfl

/-! ## Accesses that trap -/

/-- the access in EX/MEM is misaligned -/
def Misaligned (w : Ledger) : Prop := w.core.loadMisalign = true ∨ w.core.storeMisalign = true

instance (w : Ledger) : Decidable w.Misaligned := by unfold Misaligned; infer_instance

section Misaligned

variable {w : Ledger} {i : BoardIn}

theorem misaligned_iff : w.Misaligned ↔ w.exMem.faults = true := by
  simp only [Misaligned, Rv32imCore.loadMisalign, Rv32imCore.storeMisalign, Rv32imCore.misaligned, ExMem.faults,
    ExMem.isAccess, exMem, core, Bool.and_eq_true, Bool.or_eq_true]
  tauto

theorem Misaligned.isAccess (h : w.Misaligned) : w.exMem.isAccess = true := by
  have hf := misaligned_iff.1 h
  simp only [ExMem.faults, Bool.and_eq_true] at hf
  exact hf.1

theorem Misaligned.anyException (h : w.Misaligned) : (w.core.excIn (w.coreIn i)).anyException = true := by
  rcases h with h | h <;> simp [ExcIn.anyException, Rv32imCore.excIn, h]

theorem Misaligned.trap (h : w.Misaligned) :
    ∃ cause val target, w.core.trap (w.coreIn i) = .taken cause w.core.idEx.pc val target := by
  unfold Rv32imCore.trap ExcIn.trap
  cases (w.core.excIn (w.coreIn i)).irqCause with
  | some cause => exact ⟨_, _, _, rfl⟩
  | none =>
    simp only [h.anyException, if_true]
    exact ⟨_, _, _, rfl⟩

theorem Misaligned.flushAll (h : w.Misaligned) : w.core.flushAll (w.coreIn i) = true := by
  obtain ⟨cause, val, target, ht⟩ := h.trap (i := i)
  simp [Rv32imCore.flushAll, ht, Trap.redirects]

end Misaligned

/-! ## One cycle -/

/-- the bus is busy with the access of the instruction in EX/MEM, and the core knows of it -/
structure BusInv (w : Ledger) : Prop where
  busy : w.board.bus.busy = true → w.core.memReqSent = true
  sent : w.core.memReqSent = true → w.exMem.isAccess = true

/-- the cycle drops no register write: if it flushes MEM/WB, then EX/MEM is held, or its instruction has no register
write to make -/
def Spares (w : Ledger) (i : BoardIn) : Prop :=
  w.flushMem i = true → w.stallEx i = true ∨ w.retired = true ∨ w.exMem.writeDuty = []

/-- the access in EX/MEM is answered while EX/MEM is held, and will be made again -/
def Repeats (w : Ledger) (i : BoardIn) : Prop :=
  w.board.bus.done i.answer = true ∧ w.stallEx i = true ∧ w.exMem.accessDuty ≠ []

/-- the bus takes an access that traps -/
def Strays (w : Ledger) (i : BoardIn) : Prop := w.accepts i = true ∧ w.exMem.faults = true

instance (w : Ledger) (i : BoardIn) : Decidable (w.Spares i) := by unfold Spares; infer_instance

instance (w : Ledger) (i : BoardIn) : Decidable (w.Repeats i) := by unfold Repeats; infer_instance

instance (w : Ledger) (i : BoardIn) : Decidable (w.Strays i) := by unfold Strays; infer_instance

section Cycle

variable {prog : Program} {w : Ledger} {i : BoardIn}

theorem memOpActive_eq : w.core.memOpActive = w.exMem.isAccess := rfl

theorem step_exMem : (step prog w i).exMem = w.core.exMemNext (w.coreIn i) := rfl

theorem step_held (h : w.stallEx i = true) : (step prog w i).exMem = w.exMem := by
  rw [step_exMem, Rv32imCore.exMemNext]
  exact if_pos h

theorem step_memReqSent : (step prog w i).core.memReqSent = w.core.memReqSentNext (w.coreIn i) := rfl

theorem step_busy (prog : Program) : (step prog w i).board.bus.busy =
    if w.board.bus.busy then !i.answer else w.accepts i := by
  simp only [step, Board.step, DataBus.step, accepts, DataBus.accepts]
  cases hb : w.board.bus.busy <;> cases ha : i.answer <;> simp_all
  all_goals split_ifs <;> simp_all

theorem isAccess_of_accepts (h : w.accepts i = true) : w.exMem.isAccess = true ∧ w.board.bus.busy = false := by
  simp only [accepts, DataBus.accepts, Board.cmd, Rv32imCore.memRead, Rv32imCore.memWrite, Bool.and_eq_true,
    Bool.or_eq_true, Bool.not_eq_true'] at h
  refine ⟨?_, h.1⟩
  rcases h.2 with h | h
  · simp [ExMem.isAccess, exMem, h]
  · simp [ExMem.isAccess, exMem, h.1]

theorem answered_of_moves (hs : w.stallEx i = false) (ha : w.exMem.isAccess = true) :
    w.core.memReqSent = true ∧ w.board.bus.busy = true ∧ i.answer = true := by
  simp only [stallEx, Rv32imCore.stallEx, Rv32imCore.stallMem, Rv32imCore.memStall, memOpActive_eq, ha,
    Bool.or_eq_false_iff, Bool.true_and, Bool.not_eq_false', Bool.and_eq_true] at hs
  have := hs.1.1.1.1
  simpa [coreIn, Board.coreIn, DataBus.done] using this

/-- the instruction that enters WB writes its register at the next edge -/
theorem written_of_enters {j : BoardIn} (hpl : w.board.Plain) (he : w.entersWb i = true) (hw : w.exMem.isWrite = true) :
    (step prog (step prog w i) j).core.regs w.exMem.rdAddr = (w.core.memDone (w.coreIn i)).rdData := by
  simp only [entersWb, flushMem, Bool.and_eq_true, Bool.not_eq_true'] at he
  simp only [ExMem.isWrite, Bool.and_eq_true, bne_iff_ne, ne_eq] at hw
  have hwb : (step prog w i).core.memWb = w.core.memDone (w.coreIn i) := by
    change w.core.memWbNext (w.coreIn i) = _
    simp [Rv32imCore.memWbNext, he.1, he.2]
  have hsys : (step prog w i).core.sysState ≠ .writeback := by
    have hidle : w.core.sysState = .idle := by
      by_contra hc
      simp [Rv32imCore.stallMem, Rv32imCore.syscallActive, hc] at he
    change w.core.sysNext (w.coreIn i) ≠ .writeback
    simp only [Rv32imCore.sysNext, hidle]
    split_ifs <;> decide
  have hctx : (step prog w i).core.ctxState = .idle := (Board.step_plain hpl).1
  change (step prog w i).core.regsNext ((step prog w i).coreIn j) _ = _
  have hwr : (w.core.memDone (w.coreIn i)).writes = true := by
    have h1 : w.core.exMem.regWrite = true := hw.1.1
    have h2 : w.core.exMem.valid = true := hw.1.2
    simp [MemWb.writes, Rv32imCore.memDone, h1, h2]
  have hrd : (w.core.memDone (w.coreIn i)).rdAddr = w.exMem.rdAddr := rfl
  have hne : w.exMem.rdAddr ≠ 0#5 := hw.2
  simp [Rv32imCore.regsNext, Rv32imCore.writePort, hctx, hsys, hwb, hwr, hrd, hne]

theorem stallMem_of_moves (hs : w.stallEx i = false) : w.core.stallMem (w.coreIn i) = false := by
  simp only [stallEx, Rv32imCore.stallEx, Bool.or_eq_false_iff] at hs
  exact hs.1

theorem step_busInv (h : BusInv w) : BusInv (step prog w i) where
  busy hb := by
    rw [step_busy] at hb
    rw [step_memReqSent, Rv32imCore.memReqSentNext, memOpActive_eq]
    cases hbusy : w.board.bus.busy with
    | true =>
      have hr := h.busy hbusy
      have ha : i.answer = false := by simpa [hbusy] using hb
      simp [hr, coreIn, Board.coreIn, DataBus.done, ha]
    | false =>
      have hacc := isAccess_of_accepts (by simpa [hbusy] using hb)
      cases hr : w.core.memReqSent <;> simp [hacc.1, coreIn, Board.coreIn, DataBus.done, hbusy]
  sent hr := by
    rw [step_memReqSent, Rv32imCore.memReqSentNext, memOpActive_eq] at hr
    cases hst : w.stallEx i with
    | true =>
      rw [step_held hst]
      by_contra ha
      have hn : w.core.memReqSent = false := by
        by_contra hc; exact ha (h.sent (by simpa using hc))
      simp [hn, ha] at hr
    | false =>
      by_cases ha : w.exMem.isAccess = true
      · obtain ⟨h1, h2, h3⟩ := answered_of_moves hst ha
        simp [h1, coreIn, Board.coreIn, DataBus.done, h2, h3] at hr
      · have hn : w.core.memReqSent = false := by
          by_contra hc; exact ha (h.sent (by simpa using hc))
        simp [hn, ha] at hr

/-- an access that traps keeps its instruction from WB -/
theorem faults_of_enters (h : w.entersWb i = true) : w.exMem.faults = false := by
  by_contra hf
  have hfl := (misaligned_iff.2 (by simpa using hf)).flushAll (i := i)
  simp [entersWb, flushMem, Rv32imCore.flushMem, hfl] at h

/-- what happens in a cycle, of what the instruction in EX/MEM owes -/
theorem step_done (prog : Program) : (step prog w i).done = w.done ++ (if w.accepts i then w.exMem.request else []) ++
    (if w.entersWb i && !w.retired then w.exMem.writeDuty else []) := by
  have hd : (step prog w i).done = w.done ++ (if w.accepts i then w.exMem.request else []) ++
      (if w.entersWb i && !w.retired then w.exMem.wbWrite else []) := rfl
  rw [hd]
  cases he : w.entersWb i with
  | false => simp
  | true => simp [ExMem.writeDuty, faults_of_enters he]

theorem held_of_accepts (h : w.accepts i = true) : w.stallEx i = true := by
  obtain ⟨ha, hb⟩ := isAccess_of_accepts h
  by_contra hc
  have := (answered_of_moves (by simpa using hc) ha).2.1
  simp [hb] at this

/-- while EX/MEM is held and its access neither repeats nor strays, what happens is taken from what is pending -/
theorem step_of_held (prog : Program) (hst : w.stallEx i = true) (hr : ¬ w.Repeats i) (hs : ¬ w.Strays i) :
    (step prog w i).done ++ (step prog w i).pending = w.done ++ w.pending := by
  have hret : (step prog w i).retired = (w.retired || w.entersWb i) := by simp [step, hst]
  have hbusy := step_busy prog (w := w) (i := i)
  rw [pending, pending, hret, hbusy, step_held hst, step_done]
  cases hb : w.board.bus.busy with
  | true =>
    have hacc : w.accepts i = false := by
      by_contra hc
      have := (isAccess_of_accepts (by simpa using hc)).2
      simp [hb] at this
    cases hans : i.answer with
    | false => cases w.retired <;> cases w.entersWb i <;> simp [hacc]
    | true =>
      have hnil : w.exMem.accessDuty = [] := by
        by_contra hne
        exact hr ⟨by simp [DataBus.done, hb, hans], hst, hne⟩
      cases w.retired <;> cases w.entersWb i <;> simp [hacc, hnil]
  | false =>
    cases hacc : w.accepts i with
    | true =>
      have hreq : w.exMem.accessDuty = w.exMem.request := if_neg fun hc => hs ⟨hacc, hc⟩
      cases w.retired <;> cases w.entersWb i <;> simp [hreq]
    | false =>
      cases he : w.entersWb i with
      | false => cases w.retired <;> simp
      | true =>
        -- an instruction that enters WB has no access left to make
        have hna : w.exMem.isAccess = false := by
          by_contra hc
          simp only [entersWb, Bool.and_eq_true, Bool.not_eq_true', Rv32imCore.stallMem, Rv32imCore.memStall,
            memOpActive_eq, Bool.or_eq_false_iff] at he
          have := he.2.1.1.1
          simp [hc, coreIn, Board.coreIn, DataBus.done, hb] at this
        cases w.retired <;> simp [ExMem.accessDuty_of_noAccess hna]

/-- an access that is repeated is pending once more -/
theorem step_of_repeats (prog : Program) (hr : w.Repeats i) :
    ((step prog w i).done ++ (step prog w i).pending).Perm (w.exMem.accessDuty ++ (w.done ++ w.pending)) := by
  obtain ⟨hd, hst, -⟩ := hr
  simp only [DataBus.done, Bool.and_eq_true] at hd
  have hret : (step prog w i).retired = (w.retired || w.entersWb i) := by simp [step, hst]
  have hbusy : (step prog w i).board.bus.busy = false := by
    rw [step_busy, hd.1, hd.2]
    rfl
  have hacc : w.accepts i = false := by
    by_contra hc
    have := (isAccess_of_accepts (by simpa using hc)).2
    simp [hd.1] at this
  rw [pending, pending, hret, hbusy, hd.1, step_held hst, step_done, hacc]
  cases w.retired <;> cases w.entersWb i <;> simp [List.perm_iff_count] <;> intro a <;> omega

/-- an access that strays is done, and nothing is pending less -/
theorem step_of_strays (prog : Program) (hs : w.Strays i) :
    ((step prog w i).done ++ (step prog w i).pending).Perm (w.exMem.request ++ (w.done ++ w.pending)) := by
  obtain ⟨hacc, hf⟩ := hs
  have hst := held_of_accepts hacc
  have hret : (step prog w i).retired = (w.retired || w.entersWb i) := by simp [step, hst]
  have hnil : w.exMem.accessDuty = [] := if_pos hf
  rw [pending, pending, hret, step_held hst, hnil, step_done, hacc]
  simp only [ite_self]
  cases w.retired <;> cases w.entersWb i <;> simp [List.perm_iff_count] <;> intro a <;> omega

theorem step_owed_of_held (prog : Program) (hst : w.stallEx i = true) : (step prog w i).owed = w.owed := by
  simp [step, hst]

/-- when EX/MEM moves on, what was pending happens, unless MEM/WB is flushed -/
theorem step_of_moves (prog : Program) (h : BusInv w) (hst : w.stallEx i = false) :
    (step prog w i).owed = w.owed ++ (step prog w i).pending ∧
      (step prog w i).done = w.done ++ (if w.flushMem i then [] else w.pending) ∧
      w.pending = (if w.retired then [] else w.exMem.writeDuty) := by
  have hmem := stallMem_of_moves hst
  have hacc : w.accepts i = false := by
    by_contra hc
    have := held_of_accepts (by simpa using hc)
    simp [hst] at this
  have hpend : w.pending = (if w.retired then [] else w.exMem.writeDuty) := by
    rw [pending]
    by_cases ha : w.exMem.isAccess = true
    · simp [(answered_of_moves hst ha).2.1]
    · simp [ExMem.accessDuty_of_noAccess (by simpa using ha)]
  have hb' : (step prog w i).board.bus.busy = false := by
    rw [step_busy, hacc]
    cases hb : w.board.bus.busy with
    | false => simp
    | true => simp [(answered_of_moves hst (h.sent (h.busy hb))).2.2]
  have hr' : (step prog w i).retired = false := by simp [step, hst]
  refine ⟨?_, ?_, hpend⟩
  · rw [pending, hb', hr']
    simp [step, hst, exMem, ExMem.duties]
  · rw [hpend, step_done]
    simp only [hacc, entersWb, hmem]
    cases w.flushMem i <;> cases w.retired <;> simp

/-- nothing is missing and nothing is too much: what has happened and what is pending is what was owed, in order -/
def Exact (w : Ledger) : Prop := w.done ++ w.pending = w.owed

theorem step_exact (prog : Program) (h : BusInv w) (hx : w.Exact) (hp : w.Spares i) (hr : ¬ w.Repeats i)
    (hs : ¬ w.Strays i) : (step prog w i).Exact := by
  unfold Exact at *
  cases hst : w.stallEx i with
  | true => rw [step_owed_of_held prog hst, step_of_held prog hst hr hs, hx]
  | false =>
    obtain ⟨h1, h2, h3⟩ := step_of_moves prog h hst
    rw [h1, h2, ← hx]
    cases hf : w.flushMem i with
    | false => simp
    | true =>
      have hnil : w.pending = [] := by
        rcases hp hf with hc | hc | hc
        · simp [hst] at hc
        · simp [h3, hc]
        · simp [h3, hc]
      simp [hnil]

open Duty

/-- **What one cycle adds to the accesses that are made too often.** -/
theorem accesses_balance (prog : Program) (h : BusInv w) :
    accesses ((step prog w i).done ++ (step prog w i).pending) + accesses w.owed =
      accesses (step prog w i).owed + accesses (w.done ++ w.pending) + if w.Repeats i ∨ w.Strays i then 1 else 0 := by
  by_cases hr : w.Repeats i
  · have hperm : accesses _ = accesses _ := (step_of_repeats prog hr).countP_eq Duty.isAccess
    rw [accesses_append w.exMem.accessDuty, ExMem.accesses_accessDuty hr.2.2] at hperm
    rw [if_pos (Or.inl hr), step_owed_of_held prog hr.2.1, hperm]
    omega
  by_cases hs : w.Strays i
  · have hperm : accesses _ = accesses _ := (step_of_strays prog hs).countP_eq Duty.isAccess
    rw [accesses_append w.exMem.request, ExMem.accesses_request (isAccess_of_accepts hs.1).1] at hperm
    rw [if_pos (Or.inr hs), step_owed_of_held prog (held_of_accepts hs.1), hperm]
    omega
  · rw [if_neg (not_or.2 ⟨hr, hs⟩)]
    cases hst : w.stallEx i with
    | true =>
      rw [step_owed_of_held prog hst, step_of_held prog hst hr hs]
      omega
    | false =>
      obtain ⟨h1, h2, h3⟩ := step_of_moves prog h hst
      have hnone : accesses w.pending = 0 := by
        rw [h3]
        split_ifs
        · rfl
        · exact ExMem.accesses_writeDuty _
      rw [h1, h2]
      cases w.flushMem i <;> simp [hnone] <;> omega

/-- **What one cycle adds to the register writes that are missing.** -/
theorem writes_balance (prog : Program) (h : BusInv w) :
    writes (step prog w i).owed + writes (w.done ++ w.pending) =
      writes w.owed + writes ((step prog w i).done ++ (step prog w i).pending) + if w.Spares i then 0 else 1 := by
  cases hst : w.stallEx i with
  | true =>
    have hp : w.Spares i := fun _ => Or.inl hst
    rw [if_pos hp, step_owed_of_held prog hst]
    by_cases hr : w.Repeats i
    · have hperm := (step_of_repeats prog hr).countP_eq fun d => !d.isAccess
      change writes _ = writes _ at hperm
      rw [writes_append w.exMem.accessDuty, ExMem.writes_accessDuty] at hperm
      omega
    by_cases hs : w.Strays i
    · have hperm := (step_of_strays prog hs).countP_eq fun d => !d.isAccess
      change writes _ = writes _ at hperm
      rw [writes_append w.exMem.request, ExMem.writes_request] at hperm
      omega
    · rw [step_of_held prog hst hr hs]
      omega
  | false =>
    obtain ⟨h1, h2, h3⟩ := step_of_moves prog h hst
    have hlen : writes w.pending = if w.retired = true ∨ w.exMem.writeDuty = [] then 0 else 1 := by
      rw [h3]
      cases w.retired <;> simp [ExMem.writes_writeDuty]
    have hsp : w.Spares i ↔ (w.flushMem i = true → w.retired = true ∨ w.exMem.writeDuty = []) := by simp [Spares, hst]
    rw [h1, h2]
    cases hf : w.flushMem i with
    | false =>
      simp [hsp, hf]
      omega
    | true =>
      simp only [hsp, hf, if_true, writes_append, writes_nil, hlen, forall_const]
      split_ifs <;> omega

end Cycle

/-! ## The ledger of a run -/

section Run

open Duty

variable (prog : Program) (mem : DataMem) (ins : ℕ → BoardIn)

theorem busInv (n : ℕ) : BusInv (stateAt prog mem ins n) :=
  Machine.trace_inv (step prog) (reset mem) ins ⟨fun h => Bool.noConfusion h, fun h => Bool.noConfusion h⟩
    (fun _ _ h => step_busInv h) n

/-- cycle `k` drops no register write, repeats no access, and puts none on the bus that traps -/
structure Accurate (k : ℕ) : Prop where
  spares : (stateAt prog mem ins k).Spares (ins k)
  noRepeat : ¬ (stateAt prog mem ins k).Repeats (ins k)
  noStray : ¬ (stateAt prog mem ins k).Strays (ins k)

instance (k : ℕ) : Decidable (Accurate prog mem ins k) :=
  decidable_of_iff (_ ∧ _ ∧ _) ⟨fun ⟨h1, h2, h3⟩ => ⟨h1, h2, h3⟩, fun ⟨h1, h2, h3⟩ => ⟨h1, h2, h3⟩⟩

/-- what is done is never made up for: as many accesses are too many as cycles have repeated or strayed, and as many
register writes are missing as cycles have dropped one -/
theorem counts (n : ℕ) :
    accesses ((stateAt prog mem ins n).done ++ (stateAt prog mem ins n).pending) =
        accesses (stateAt prog mem ins n).owed +
          Nat.count (fun k => (stateAt prog mem ins k).Repeats (ins k) ∨ (stateAt prog mem ins k).Strays (ins k)) n ∧
      writes (stateAt prog mem ins n).owed =
        writes ((stateAt prog mem ins n).done ++ (stateAt prog mem ins n).pending) +
          Nat.count (fun k => ¬ (stateAt prog mem ins k).Spares (ins k)) n := by
  induction n with
  | zero => exact ⟨rfl, rfl⟩
  | succ n ih =>
    have ha := accesses_balance prog (busInv prog mem ins n) (i := ins n)
    have hw := writes_balance prog (busInv prog mem ins n) (i := ins n)
    rw [← stateAt_succ] at ha hw
    rw [Nat.count_succ, Nat.count_succ]
    simp only [ite_not]
    omega

/-- **What has happened and what is pending is what was owed exactly when** every cycle was accurate. -/
theorem exact_iff (n : ℕ) : (stateAt prog mem ins n).Exact ↔ ∀ k < n, Accurate prog mem ins k := by
  constructor
  · intro hx
    obtain ⟨ha, hw⟩ := counts prog mem ins n
    rw [hx] at ha hw
    have hr : ∀ k < n, ¬ ((stateAt prog mem ins k).Repeats (ins k) ∨ (stateAt prog mem ins k).Strays (ins k)) :=
      Nat.count_iff_forall_not.1 (by omega)
    have hs : ∀ k < n, ¬ ¬ (stateAt prog mem ins k).Spares (ins k) := Nat.count_iff_forall_not.1 (by omega)
    exact fun k hk => ⟨not_not.1 (hs k hk), fun hc => hr k hk (Or.inl hc), fun hc => hr k hk (Or.inr hc)⟩
  · intro hf
    induction n with
    | zero => rfl
    | succ n ih =>
      obtain ⟨hp, hr, hs⟩ := hf n (Nat.lt_succ_self n)
      exact step_exact prog (busInv prog mem ins n) (ih fun k hk => hf k (by omega)) hp hr hs

end Run

end Ledger

end Vsync
