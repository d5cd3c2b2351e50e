/-
The access in EX/MEM.

- `Accesses`: a load is no store, and no access is in EX/MEM while the divider works.
- `accepts_of_access`: when the free bus takes the access.
- `stallEx_of_answered`, `repeats_iff`: an access that is answered leaves EX/MEM, unless a syscall is in progress.
- `Misaligned`: the access traps, in every cycle in which it is in EX/MEM.
- `store_stays`: a store that traps stays for ever.
-/
import Vsync.Core.Ledger

namespace Vsync.Ledger

/-! ## The kinds of accesses -/

/-- a load writes the loaded data to its register, and is no store; a multiplication or division is neither -/
def AccessKind (c : Ctrl) : Prop :=
  (c.memRead = true → c.memWrite = false ∧ c.regWrite = true ∧ c.wbSel = 0b01#2) ∧
    (c.mextEn = true → c.memRead = false ∧ c.memWrite = false)

theorem accessKind_ctrl (instr : Word) : AccessKind (Decode.ctrl instr) := by
  have h := Decode.decoded_ctrl instr
  generalize Decode.ctrl instr = c at h
  cases h <;> simp [AccessKind, Ctrl.idle]

structure Accesses (w : Ledger) : Prop where
  idEx : AccessKind w.core.idEx.ctrl
  load : w.exMem.memRead = true → w.exMem.memWrite = false ∧ w.exMem.regWrite = true ∧ w.exMem.wbSel = 0b01#2
  dividing : w.core.muldiv.calculating = true → w.exMem.isAccess = false

section Cycle

variable {prog : Program} {w : Ledger} {i : BoardIn}

theorem calculating_of_step {u : MulDiv} {start : Bool} {op : MextOp} {a b : Word}
    (h : (u.step start op a b).calculating = true) : u.calculating = true ∨ start = true := by
  unfold MulDiv.calculating MulDiv.step at *
  rcases hs : u.state with _ | _ | _ | _
  · right
    by_contra hc
    simp [hs, hc] at h
  · simp
  · simp [hs] at h
  · simp [hs] at h

theorem step_accesses (h : Accesses w) : Accesses (step prog w i) := by
  have hmove (hst : w.stallEx i = false) : (step prog w i).exMem = .bubble ∨
      (step prog w i).exMem = w.core.executed (w.coreIn i) := by
    have hst' : w.core.stallEx (w.coreIn i) = false := hst
    rw [step_exMem, Rv32imCore.exMemNext, hst']
    cases w.core.flushEx (w.coreIn i) <;> simp
  constructor
  · change AccessKind (w.core.idExNext (w.coreIn i)).ctrl
    unfold Rv32imCore.idExNext
    split_ifs
    · simp [AccessKind, IdEx.bubble, Ctrl.idle]
    · exact h.idEx
    · exact accessKind_ctrl _
  · cases hst : w.stallEx i with
    | true => rw [step_held hst]; exact h.load
    | false =>
      rcases hmove hst with hx | hx
      · rw [hx]
        intro hc
        exact absurd hc (by decide)
      · rw [hx]
        intro hr
        simp only [Rv32imCore.executed, Bool.and_eq_true] at hr ⊢
        obtain ⟨h1, h2, h3⟩ := h.idEx.1 hr.1
        exact ⟨by simp [h1], ⟨h2, hr.2⟩, h3⟩
  · intro hb
    have hstep : (step prog w i).core.muldiv = w.core.muldiv.step (w.core.mextStart (w.coreIn i))
        w.core.idEx.ctrl.mextOp w.core.rs1Forwarded w.core.rs2Forwarded := rfl
    rw [hstep] at hb
    -- what leaves EX in a division, or starts one, is no access
    have hleaves (hm : w.core.mextInEx = true) (hst : w.stallEx i = false) :
        (step prog w i).exMem.isAccess = false := by
      simp only [Rv32imCore.mextInEx, Bool.and_eq_true] at hm
      obtain ⟨h1, h2⟩ := h.idEx.2 hm.1
      rcases hmove hst with hx | hx
      · rw [hx]
        rfl
      · rw [hx]
        simp [ExMem.isAccess, Rv32imCore.executed, h1, h2]
    rcases calculating_of_step hb with hb | hb
    · cases hst : w.stallEx i with
      | true =>
        rw [step_held hst]
        exact h.dividing hb
      | false =>
        refine hleaves ?_ hst
        by_contra hm
        have hbusy := (Rv32imCore.mextBusy_of_other (i := w.coreIn i) (Bool.eq_false_of_not_eq_true hm)).trans hb
        simp [stallEx, Rv32imCore.stallEx, hbusy] at hst
    · simp only [Rv32imCore.mextStart, Bool.and_eq_true, Bool.not_eq_true'] at hb
      exact hleaves hb.1 hb.2

/-- the free bus takes an access, unless a flush keeps a store from it -/
theorem accepts_of_access (ha : w.exMem.isAccess = true) (hb : w.board.bus.busy = false)
    (h : w.exMem.memRead = true ∨ w.flushMem i = false) : w.accepts i = true := by
  simp only [ExMem.isAccess, Bool.and_eq_true, Bool.or_eq_true] at ha
  have hv : w.board.core.exMem.valid = true := ha.2
  rcases h with h | h
  · have hr : w.board.core.exMem.memRead = true := h
    simp [accepts, DataBus.accepts, hb, Board.cmd, Rv32imCore.memRead, hr, hv]
  · have hf : w.board.core.flushMem (w.board.coreIn i) = false := h
    rcases ha.1 with hr | hr
    · have hr : w.board.core.exMem.memRead = true := hr
      simp [accepts, DataBus.accepts, hb, Board.cmd, Rv32imCore.memRead, hr, hv]
    · have hr : w.board.core.exMem.memWrite = true := hr
      simp [accepts, DataBus.accepts, hb, Board.cmd, Rv32imCore.memWrite, hr, hv, hf]

/-- in the cycle of its answer an access is held by a syscall only -/
theorem stallEx_of_answered (hpl : w.board.Plain) (hb : BusInv w) (hk : Accesses w)
    (hd : w.board.bus.done i.answer = true) : w.stallEx i = w.core.syscallActive := by
  simp only [DataBus.done, Bool.and_eq_true] at hd
  have hsent := hb.busy hd.1
  have ha := hb.sent hsent
  have hready : (w.coreIn i).memReady = true := by simp [coreIn, Board.coreIn, DataBus.done, hd.1, hd.2]
  have hdiv : w.core.muldiv.calculating = false := by
    by_contra hc
    have := hk.dividing (by simpa using hc)
    simp [ha] at this
  have hc : w.core.ctxState = .idle := hpl.1
  have hh : w.core.debugHalt = false := hpl.2
  simp [stallEx, Rv32imCore.stallEx, Rv32imCore.stallMem, Rv32imCore.memStall, hsent, hready, hc, hh,
    Rv32imCore.mextBusy_of_not_calculating hdiv, Rv32imCore.ctxActive]

/-- **An access is repeated exactly when it is answered during a syscall.** -/
theorem repeats_iff (hpl : w.board.Plain) (hb : BusInv w) (hk : Accesses w) : w.Repeats i ↔
    w.board.bus.done i.answer = true ∧ w.core.syscallActive = true ∧ w.exMem.accessDuty ≠ [] := by
  constructor
  · rintro ⟨hd, hst, hne⟩
    rw [stallEx_of_answered hpl hb hk hd] at hst
    exact ⟨hd, hst, hne⟩
  · rintro ⟨hd, hsys, hne⟩
    rw [← stallEx_of_answered hpl hb hk hd] at hsys
    exact ⟨hd, hsys, hne⟩

/-- an access that has just entered EX/MEM has not been requested, and the bus is free -/
theorem step_entered (prog : Program) {w : Ledger} {i : BoardIn} (h : BusInv w) (hst : w.stallEx i = false) :
    (step prog w i).core.memReqSent = false ∧ (step prog w i).board.bus.busy = false := by
  by_cases ha : w.exMem.isAccess = true
  · obtain ⟨h1, h2, h3⟩ := answered_of_moves hst ha
    constructor
    · rw [step_memReqSent, Rv32imCore.memReqSentNext, memOpActive_eq]
      simp [h1, coreIn, Board.coreIn, DataBus.done, h2, h3]
    · rw [step_busy, h2, h3]
      rfl
  · have hn : w.core.memReqSent = false := by
      by_contra hc
      exact ha (h.sent (by simpa using hc))
    have hb : w.board.bus.busy = false := by
      by_contra hc
      exact ha (h.sent (h.busy (by simpa using hc)))
    constructor
    · rw [step_memReqSent, Rv32imCore.memReqSentNext, memOpActive_eq]
      simp [hn, ha]
    · rw [step_busy, hb]
      by_contra hc
      exact ha (isAccess_of_accepts (by simpa using hc)).1

/-- an access is held unless it has been requested and is answered -/
theorem stallEx_of_unanswered {w : Ledger} {i : BoardIn} (ha : w.exMem.isAccess = true)
    (hn : w.core.memReqSent = false ∨ w.board.bus.busy = false) : w.stallEx i = true := by
  by_contra hc
  obtain ⟨h1, h2, -⟩ := answered_of_moves (by simpa using hc) ha
  rcases hn with hn | hn
  · simp [h1] at hn
  · simp [h2] at hn

end Cycle

/-! ## Misaligned accesses -/

section Misaligned

variable {prog : Program} {w : Ledger} {i : BoardIn}

theorem Misaligned.loadMisalign (h : w.Misaligned) : w.core.loadMisalign = w.exMem.memRead := by
  rcases h with h | h
  · have h' := h
    simp only [Rv32imCore.loadMisalign, Bool.and_eq_true] at h'
    rw [h]
    exact h'.1.2.symm
  · simp only [Rv32imCore.storeMisalign, Bool.and_eq_true] at h
    have hvalid : w.exMem.valid = true := h.1.1
    have hread : w.core.loadMisalign = (w.exMem.valid && w.exMem.memRead && w.core.misaligned) := rfl
    rw [hread, h.2, hvalid, Bool.true_and, Bool.and_true]

theorem Misaligned.step_held (h : w.Misaligned) (hst : w.stallEx i = true) : (step prog w i).Misaligned := by
  have hx : (step prog w i).core.exMem = w.core.exMem := Ledger.step_held hst
  simpa [Misaligned, Rv32imCore.loadMisalign, Rv32imCore.storeMisalign, Rv32imCore.misaligned, hx] using h

theorem Misaligned.of_exMem {w w' : Ledger} (h : w.Misaligned) (hx : w'.exMem = w.exMem) : w'.Misaligned := by
  have hx' : w'.core.exMem = w.core.exMem := hx
  simpa [Misaligned, Rv32imCore.loadMisalign, Rv32imCore.storeMisalign, Rv32imCore.misaligned, hx'] using h

theorem Misaligned.accepts (h : w.Misaligned) (hr : w.exMem.memRead = false) : w.accepts i = false := by
  have hread : w.board.core.exMem.memRead = false := hr
  have hf : w.board.core.flushAll (w.board.coreIn i) = true := h.flushAll
  simp [Ledger.accepts, DataBus.accepts, Board.cmd, Rv32imCore.memRead, Rv32imCore.memWrite, Rv32imCore.flushMem,
    hread, hf]

end Misaligned

section Run

variable (prog : Program) (mem : DataMem) (ins : ℕ → BoardIn)

theorem plain (n : ℕ) : (stateAt prog mem ins n).board.Plain := by
  rw [stateAt_board]
  exact Board.plain prog mem ins n

theorem accesses (n : ℕ) : Accesses (stateAt prog mem ins n) := by
  induction n with
  | zero =>
    refine ⟨?_, fun h => Bool.noConfusion h, fun h => Bool.noConfusion h⟩
    exact ⟨fun h => Bool.noConfusion h, fun h => Bool.noConfusion h⟩
  | succ n ih => exact step_accesses ih

def HeldFrom (a k : ℕ) : Prop := ∀ j, a ≤ j → j < k → (stateAt prog mem ins j).stallEx (ins j) = true

variable {prog mem ins} {a k : ℕ}

theorem HeldFrom.self (a : ℕ) : HeldFrom prog mem ins a a := fun j h1 h2 => by omega

theorem HeldFrom.succ (h : HeldFrom prog mem ins a k) (hst : (stateAt prog mem ins k).stallEx (ins k) = true) :
    HeldFrom prog mem ins a (k + 1) := by
  intro j h1 h2
  rcases Nat.lt_succ_iff_lt_or_eq.1 h2 with h2 | rfl
  · exact h j h1 h2
  · exact hst

theorem HeldFrom.exMem (hk : a ≤ k) (hh : HeldFrom prog mem ins a k) :
    (stateAt prog mem ins k).exMem = (stateAt prog mem ins a).exMem := by
  induction k, hk using Nat.le_induction with
  | base => rfl
  | succ k hk ih =>
    rw [stateAt_succ, step_held (hh k hk (Nat.lt_succ_self k))]
    exact ih fun j h1 h2 => hh j h1 (by omega)

theorem idle_of_store (n : ℕ) (hm : (stateAt prog mem ins n).Misaligned)
    (hr : (stateAt prog mem ins n).exMem.memRead = false) : (stateAt prog mem ins n).board.bus.busy = false := by
  induction n with
  | zero => rfl
  | succ n ih =>
    cases hst : (stateAt prog mem ins n).stallEx (ins n) with
    | false => exact (step_entered prog (busInv prog mem ins n) hst).2
    | true =>
      have hx : (stateAt prog mem ins n).exMem = (stateAt prog mem ins (n + 1)).exMem := (step_held hst).symm
      have hm' := hm.of_exMem hx
      have hr' : (stateAt prog mem ins n).exMem.memRead = false := by rw [hx]; exact hr
      rw [stateAt_succ, step_busy, ih hm' hr', hm'.accepts hr']
      rfl

/-- **A misaligned store never leaves MEM.** Its trap keeps the command from the bus. -/
theorem store_stays (hm : (stateAt prog mem ins a).Misaligned) (hr : (stateAt prog mem ins a).exMem.memRead = false)
    (hk : a ≤ k) : HeldFrom prog mem ins a k := by
  induction k, hk using Nat.le_induction with
  | base => exact HeldFrom.self a
  | succ k hk ih =>
    have hx := HeldFrom.exMem hk ih
    have hm' := hm.of_exMem hx
    exact ih.succ (stallEx_of_unanswered hm'.isAccess (Or.inr (idle_of_store k hm' (by rw [hx]; exact hr))))

end Run

end Vsync.Ledger
