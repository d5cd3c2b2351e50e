/-
The operands of an instruction, from the cycle in which it enters ID/EX to the one in which it leaves.

ID/EX latches the registers once. While the instruction waits there, EX/MEM and MEM/WB may drain behind it, and a value
that was to be forwarded is gone.

- `InEx`: the stay of an instruction in ID/EX; nothing enters EX/MEM in it (`step_orderReg`).
- `Loses`: a value that only MEM/WB had leaves it.
- `forwarded_iff`: an operand in EX is the program-order register exactly when none was lost, and EX/MEM forwards what
  it writes.
- `latch_iff`: so for the latched operand.
-/
import Vsync.Core.Order

namespace Vsync.Ledger

section Names

variable (w : Ledger) (i : BoardIn)

def stallId : Bool := w.core.stallId (w.coreIn i)

def flushId : Bool := w.core.flushId (w.coreIn i)

def issues : Bool := !w.stallEx i && !w.core.flushEx (w.coreIn i) && w.core.idEx.valid

/-- MEM/WB moves on in this cycle with the only copy of the register `x`, and the latched value is another -/
def Loses (x : RegAddr) (latch : Word) : Prop :=
  w.entersWb i = true ∧ w.core.wbWrites x ∧ ¬ w.MemWrites x ∧ latch ≠ w.core.memWb.rdData

instance (x : RegAddr) (latch : Word) : Decidable (w.Loses i x latch) := by unfold Loses; infer_instance

/-- the latched value is right unless EX/MEM or MEM/WB writes the register -/
def Current (x : RegAddr) (latch : Word) : Prop :=
  ¬ w.MemWrites x → ¬ w.core.wbWrites x → latch = w.core.visible x

/-- what is written is written by a valid instruction -/
structure Valid : Prop where
  exMem : w.exMem.regWrite = true → w.exMem.valid = true
  memWb : w.core.memWb.regWrite = true → w.core.memWb.valid = true

end Names

section Cycle

variable {prog : Program} {w : Ledger} {i : BoardIn} {x : RegAddr} {latch : Word}

theorem step_valid (h : Valid w) : Valid (step prog w i) := by
  constructor
  · rw [step_exMem]
    unfold Rv32imCore.exMemNext
    split_ifs
    · exact h.exMem
    · exact fun hc => absurd hc (by decide)
    · intro hw
      simp only [Rv32imCore.executed, Bool.and_eq_true] at hw ⊢
      exact hw.2
  · change (w.core.memWbNext (w.coreIn i)).regWrite = true → (w.core.memWbNext (w.coreIn i)).valid = true
    unfold Rv32imCore.memWbNext
    split_ifs
    · exact fun hc => absurd hc (by decide)
    · exact h.memWb
    · intro hw
      simp only [Rv32imCore.memDone, Bool.and_eq_true] at hw ⊢
      exact hw.2

/-! ## While ID/EX is held -/

/-- ID/EX is held with a valid instruction -/
structure Held (w : Ledger) (i : BoardIn) : Prop where
  valid : w.core.idEx.valid = true
  stall : w.stallId i = true
  flush : w.flushId i = false

theorem Held.step_idEx (prog : Program) (h : Held w i) : (step prog w i).core.idEx = w.core.idEx := by
  have h1 : w.core.stallId (w.coreIn i) = true := h.stall
  have h2 : w.core.flushId (w.coreIn i) = false := h.flush
  change w.core.idExNext (w.coreIn i) = _
  simp [Rv32imCore.idExNext, h1, h2]

theorem flushMem_of_flushId (hpl : w.board.Plain) (h : w.flushId i = false) : w.flushMem i = false := by
  have hc : w.core.ctxState = .idle := hpl.1
  have h' : w.core.flushId (w.coreIn i) = false := h
  simp only [Rv32imCore.flushId, Bool.or_eq_false_iff] at h'
  simp [flushMem, Rv32imCore.flushMem, h'.1.1.2, hc]

theorem sys_of_valid (hi : IdExInv w) (hv : w.core.idEx.valid = true) : w.core.sysState = .idle := by
  by_contra hc
  have := hi.sys hc
  simp [hv] at this

theorem Held.exMem (prog : Program) (h : Held w i) :
    (w.stallEx i = true ∧ (step prog w i).exMem = w.exMem) ∨
      (w.stallEx i = false ∧ (step prog w i).exMem = .bubble) := by
  cases hst : w.stallEx i with
  | true => exact Or.inl ⟨rfl, step_held hst⟩
  | false =>
    right
    have hst' : w.core.stallEx (w.coreIn i) = false := hst
    have hlu : w.core.loadUse = true := by
      have := h.stall
      simpa [stallId, Rv32imCore.stallId, hst'] using this
    refine ⟨rfl, ?_⟩
    rw [step_exMem, Rv32imCore.exMemNext, hst']
    simp [Rv32imCore.flushEx, hlu]

theorem Held.memWrites (prog : Program) (h : Held w i) : (step prog w i).MemWrites x → w.MemWrites x := by
  rcases h.exMem prog with ⟨-, hx⟩ | ⟨-, hx⟩
  · unfold MemWrites
    rw [hx]
    exact id
  · rintro ⟨hw, -⟩
    rw [hx] at hw
    exact absurd hw (by decide)

theorem Held.wbWrites (prog : Program) (h : Held w i) (hpl : w.board.Plain) :
    (step prog w i).core.wbWrites x ↔ if w.entersWb i then w.MemWrites x else w.core.wbWrites x := by
  rw [step_wbWrites prog x]
  simp [flushMem_of_flushId hpl h.flush]

theorem Held.visible (prog : Program) (h : Held w i) (hi : IdExInv w) (hd : BusData w) (hk : Kinds w)
    (hpl : w.board.Plain) (x : RegAddr) :
    (step prog w i).core.visible x = if w.entersWb i then w.orderReg x else w.core.visible x :=
  step_visible prog hd hk hpl (by rw [sys_of_valid hi h.valid]; decide) x

/-- when EX/MEM empties, its instruction has entered WB -/
theorem Held.entersWb (h : Held w i) (hpl : w.board.Plain) (hst : w.stallEx i = false) : w.entersWb i = true := by
  simp [Ledger.entersWb, flushMem_of_flushId hpl h.flush, stallMem_of_moves hst]

/-- **Nothing is written in program order while ID/EX is held.** -/
theorem Held.step_orderReg (prog : Program) (h : Held w i) (hi : IdExInv w) (hd : BusData w) (hk : Kinds w)
    (hpl : w.board.Plain) (x : RegAddr) : (step prog w i).orderReg x = w.orderReg x := by
  have hvis := h.visible prog hi hd hk hpl x
  rcases h.exMem prog with ⟨hst, hx⟩ | ⟨hst, hx⟩
  · have hmw : (step prog w i).MemWrites x ↔ w.MemWrites x := by unfold MemWrites; rw [hx]
    by_cases hm : w.MemWrites x
    · rw [orderReg_of_writes (hmw.2 hm), orderReg_of_writes hm]
      exact step_memValue prog hk hm.1 hx
    · rw [orderReg_of_not_writes fun hc => hm (hmw.1 hc), hvis, orderReg_of_not_writes hm]
      split_ifs <;> rfl
  · have hno : ¬ (step prog w i).MemWrites x := by
      rintro ⟨hw, -⟩
      rw [hx] at hw
      exact absurd hw (by decide)
    rw [orderReg_of_not_writes hno, hvis, h.entersWb hpl hst, if_pos rfl]

/-- a value that is not lost stays right -/
theorem Held.step_current (prog : Program) (h : Held w i) (hi : IdExInv w) (hd : BusData w) (hk : Kinds w)
    (hpl : w.board.Plain) (hc : w.Current x latch) (hl : ¬ w.Loses i x latch) : (step prog w i).Current x latch := by
  intro hm' hw'
  have hvis := h.visible prog hi hd hk hpl x
  have hwb := h.wbWrites prog hpl (x := x)
  cases he : w.entersWb i with
  | true =>
    rw [he, if_pos rfl] at hvis hwb
    have hm : ¬ w.MemWrites x := fun hc => hw' (hwb.2 hc)
    rw [hvis, orderReg_of_not_writes hm]
    by_cases hw : w.core.wbWrites x
    · rw [visible_of_wbWrites hw]
      by_contra hne
      exact hl ⟨he, hw, hm, hne⟩
    · exact hc hm hw
  | false =>
    rw [he, if_neg (by decide)] at hvis hwb
    have hst : w.stallEx i = true := by
      by_contra hst
      have := h.entersWb hpl (Bool.eq_false_of_not_eq_true hst)
      simp [he] at this
    have hx : (step prog w i).exMem = w.exMem := step_held hst
    have hm : ¬ w.MemWrites x := by
      unfold MemWrites at hm' ⊢
      rwa [hx] at hm'
    rw [hvis]
    exact hc hm fun hw => hw' (hwb.2 hw)

/-- the latch is wrong, and nothing forwards the register -/
def Stale (w : Ledger) (x : RegAddr) (latch : Word) : Prop :=
  ¬ w.MemWrites x ∧ ¬ w.core.wbWrites x ∧ latch ≠ w.orderReg x

theorem Held.stale_of_loses (prog : Program) (h : Held w i) (hi : IdExInv w) (hd : BusData w) (hk : Kinds w)
    (hpl : w.board.Plain) (hl : w.Loses i x latch) : (step prog w i).Stale x latch := by
  obtain ⟨he, hw, hm, hne⟩ := hl
  have hwb := h.wbWrites prog hpl (x := x)
  rw [he, if_pos rfl] at hwb
  refine ⟨fun hc => hm (h.memWrites prog hc), fun hc => hm (hwb.1 hc), ?_⟩
  rw [h.step_orderReg prog hi hd hk hpl, orderReg_of_not_writes hm, visible_of_wbWrites hw]
  exact hne

theorem Held.step_stale (prog : Program) (h : Held w i) (hi : IdExInv w) (hd : BusData w) (hk : Kinds w)
    (hpl : w.board.Plain) (hs : w.Stale x latch) : (step prog w i).Stale x latch := by
  obtain ⟨hm, hw, hne⟩ := hs
  have hwb := h.wbWrites prog hpl (x := x)
  refine ⟨fun hc => hm (h.memWrites prog hc), fun hc => ?_, ?_⟩
  · have := hwb.1 hc
    split_ifs at this
    · exact hm this
    · exact hw this
  · rwa [h.step_orderReg prog hi hd hk hpl]

/-! ## Entering ID/EX -/

theorem idEx_of_latches (prog : Program) (hpl : w.board.Plain) (hst : w.stallId i = false) (hf : w.flushId i = false) :
    (step prog w i).core.idEx = Decode.idEx w.core.ifId (w.core.visible (Decode.rs1 w.core.ifId.instruction))
      (w.core.visible (Decode.rs2 w.core.ifId.instruction)) := by
  have hst' : w.core.stallId (w.coreIn i) = false := hst
  have hf' : w.core.flushId (w.coreIn i) = false := hf
  have hsys : w.core.sysState = .idle := by
    by_contra hc
    simp [Rv32imCore.stallId, Rv32imCore.stallEx, Rv32imCore.stallMem, Rv32imCore.syscallActive, hc] at hst'
  have hc : w.core.ctxState = .idle := hpl.1
  have hh : w.core.debugHalt = false := hpl.2
  have h1 : w.core.rfRs1Addr (w.coreIn i) = Decode.rs1 w.core.ifId.instruction := by
    simp [Rv32imCore.rfRs1Addr, hc, hh]
  have h2 : w.core.rfRs2Addr = Decode.rs2 w.core.ifId.instruction := by simp [Rv32imCore.rfRs2Addr, hsys]
  have hwb : w.core.sysState ≠ .writeback := by rw [hsys]; decide
  change w.core.idExNext (w.coreIn i) = _
  rw [Rv32imCore.idExNext, hf', hst', h1, h2, readPort_eq hpl hwb, readPort_eq hpl hwb]
  rfl

theorem stallMem_of_stallId (hst : w.stallId i = false) : w.core.stallMem (w.coreIn i) = false := by
  have h : w.core.stallId (w.coreIn i) = false := hst
  simp only [Rv32imCore.stallId, Rv32imCore.stallEx, Bool.or_eq_false_iff] at h
  exact h.2.1

theorem sys_of_stallId (hst : w.stallId i = false) : w.core.sysState = .idle := by
  have h := stallMem_of_stallId hst
  by_contra hc
  simp [Rv32imCore.stallMem, Rv32imCore.syscallActive, hc] at h

theorem current_of_latches (prog : Program) (hd : BusData w) (hk : Kinds w) (hpl : w.board.Plain)
    (hst : w.stallId i = false) (hf : w.flushId i = false) (x : RegAddr) :
    (step prog w i).Current x (w.core.visible x) := by
  intro _ hw'
  have hent : w.entersWb i = true := by simp [Ledger.entersWb, flushMem_of_flushId hpl hf, stallMem_of_stallId hst]
  have hm : ¬ w.MemWrites x := by
    intro hm
    refine hw' ((step_wbWrites prog x).2 ?_)
    rw [hent, if_pos rfl]
    exact hm
  rw [step_visible prog hd hk hpl (by rw [sys_of_stallId hst]; decide), hent, if_pos rfl, orderReg_of_not_writes hm]

/-! ## Leaving ID/EX -/

/-- what EX reads for the register `x`, when no load in EX/MEM writes it -/
theorem forwarded_eq (hv : Valid w) (hload : Hazard.loads w.exMem x = false) :
    w.core.forwarded x latch =
      if w.MemWrites x then w.exMem.aluResult else if w.core.wbWrites x then w.core.memWb.rdData else latch := by
  have hex : w.core.exMem = w.exMem := rfl
  have hm : (w.exMem.regWrite && !w.exMem.memRead && w.exMem.rdAddr != 0 && w.exMem.rdAddr == x) = true ↔
      w.MemWrites x := by
    simp only [MemWrites, ExMem.isWrite, Bool.and_eq_true, Bool.not_eq_true', bne_iff_ne, ne_eq, beq_iff_eq]
    constructor
    · rintro ⟨⟨⟨h1, -⟩, h3⟩, h4⟩
      exact ⟨⟨⟨h1, hv.exMem h1⟩, h3⟩, h4⟩
    · rintro ⟨⟨⟨h1, -⟩, h3⟩, h4⟩
      refine ⟨⟨⟨h1, ?_⟩, h3⟩, h4⟩
      by_contra hr
      have hr : w.exMem.memRead = true := by simpa using hr
      simp [Hazard.loads, hr, h4] at hload
      exact h3 (h4.trans hload)
  have hw : (w.core.memWb.regWrite && w.core.memWb.rdAddr != 0 && w.core.memWb.rdAddr == x) = true ↔
      w.core.wbWrites x := by
    simp only [Rv32imCore.wbWrites, MemWb.writes, Bool.and_eq_true, bne_iff_ne, ne_eq, beq_iff_eq]
    constructor
    · rintro ⟨⟨h1, h2⟩, rfl⟩
      exact ⟨⟨h1, hv.memWb h1⟩, rfl, h2⟩
    · rintro ⟨⟨h1, -⟩, rfl, h2⟩
      exact ⟨⟨h1, h2⟩, rfl⟩
  unfold Rv32imCore.forwarded Hazard.forward
  rw [hex]
  by_cases h1 : w.MemWrites x
  · rw [if_pos h1, if_pos (hm.2 h1)]
  · rw [if_neg h1, if_neg fun hc => h1 (hm.1 hc)]
    by_cases h2 : w.core.wbWrites x
    · rw [if_pos h2, if_pos (hw.2 h2)]
    · rw [if_neg h2, if_neg fun hc => h2 (hw.1 hc)]

/-- the load in EX/MEM is no source of an instruction that leaves ID/EX -/
theorem loads_of_issues (h : w.issues i = true) :
    Hazard.loads w.exMem w.core.idEx.rs1Addr = false ∧ Hazard.loads w.exMem w.core.idEx.rs2Addr = false := by
  simp only [issues, Rv32imCore.flushEx, Bool.and_eq_true, Bool.not_eq_true', Bool.or_eq_false_iff] at h
  have hlu := h.1.2.1.1.1
  simp only [Rv32imCore.loadUse, Rv32imCore.loadUseEx, Hazard.loadUse, Bool.or_eq_false_iff] at hlu
  exact hlu.2

/-- **The operand that EX reads is the program-order register** if the latch is right and EX/MEM forwards what it
writes. -/
theorem forwarded_iff_of_current (hv : Valid w) (hload : Hazard.loads w.exMem x = false) (hc : w.Current x latch) :
    w.core.forwarded x latch = w.orderReg x ↔ (w.MemWrites x → w.exMem.aluResult = w.memValue) := by
  rw [forwarded_eq hv hload]
  by_cases hm : w.MemWrites x
  · rw [if_pos hm, orderReg_of_writes hm]
    exact ⟨fun h _ => h, fun h => h hm⟩
  · rw [if_neg hm, orderReg_of_not_writes hm]
    refine ⟨fun _ h => absurd h hm, fun _ => ?_⟩
    by_cases hw : w.core.wbWrites x
    · rw [if_pos hw, visible_of_wbWrites hw]
    · rw [if_neg hw]
      exact hc hm hw

theorem forwarded_of_stale (hv : Valid w) (hload : Hazard.loads w.exMem x = false) (hs : w.Stale x latch) :
    w.core.forwarded x latch ≠ w.orderReg x := by
  obtain ⟨hm, hw, hne⟩ := hs
  rw [forwarded_eq hv hload, if_neg hm, if_neg hw]
  exact hne

end Cycle

/-! ## The stay in ID/EX -/

section Run

variable (prog : Program) (mem : DataMem) (ins : ℕ → BoardIn)

theorem valid (n : ℕ) : Valid (stateAt prog mem ins n) := by
  induction n with
  | zero => constructor <;> exact fun h => Bool.noConfusion h
  | succ n ih => exact step_valid ih

/-- an instruction enters ID/EX, where it is in cycle `c` -/
def Latches (c : ℕ) : Prop :=
  ∃ n, c = n + 1 ∧ (stateAt prog mem ins n).stallId (ins n) = false ∧ (stateAt prog mem ins n).flushId (ins n) = false

/-- the valid instruction that entered ID/EX in cycle `c` is there in cycle `k` -/
def InEx (c k : ℕ) : Prop := c ≤ k ∧ (stateAt prog mem ins c).core.idEx.valid = true ∧
  ∀ j, c ≤ j → j < k → (stateAt prog mem ins j).stallId (ins j) = true ∧
    (stateAt prog mem ins j).flushId (ins j) = false

variable {prog mem ins} {c k : ℕ}

theorem InEx.idEx (h : InEx prog mem ins c k) : (stateAt prog mem ins k).core.idEx =
    (stateAt prog mem ins c).core.idEx := by
  obtain ⟨hk, hv, hh⟩ := h
  induction k, hk using Nat.le_induction with
  | base => rfl
  | succ k hk ih =>
    have hprev := ih fun j h1 h2 => hh j h1 (by omega)
    obtain ⟨h1, h2⟩ := hh k hk (Nat.lt_succ_self k)
    rw [stateAt_succ, Held.step_idEx prog ⟨by rw [hprev]; exact hv, h1, h2⟩, hprev]

theorem exists_latches {t : ℕ} (hv : (stateAt prog mem ins t).core.idEx.valid = true) :
    ∃ c, Latches prog mem ins c ∧ InEx prog mem ins c t := by
  induction t with
  | zero => exact Bool.noConfusion hv
  | succ t ih =>
    have hnext : (stateAt prog mem ins (t + 1)).core.idEx =
        (stateAt prog mem ins t).core.idExNext ((stateAt prog mem ins t).coreIn (ins t)) := rfl
    cases hf : (stateAt prog mem ins t).flushId (ins t) with
    | true =>
      have hf' : (stateAt prog mem ins t).core.flushId ((stateAt prog mem ins t).coreIn (ins t)) = true := hf
      rw [hnext, Rv32imCore.idExNext, if_pos hf'] at hv
      exact Bool.noConfusion hv
    | false =>
      cases hst : (stateAt prog mem ins t).stallId (ins t) with
      | false => exact ⟨t + 1, ⟨t, rfl, hst, hf⟩, le_refl _, hv, fun j h1 h2 => by omega⟩
      | true =>
        have hst' : (stateAt prog mem ins t).core.stallId ((stateAt prog mem ins t).coreIn (ins t)) = true := hst
        have hf' : (stateAt prog mem ins t).core.flushId ((stateAt prog mem ins t).coreIn (ins t)) = false := hf
        rw [hnext, Rv32imCore.idExNext, hf', hst'] at hv
        obtain ⟨c, hc, hct, hcv, hh⟩ := ih hv
        refine ⟨c, hc, Nat.le_succ_of_le hct, hcv, fun j h1 h2 => ?_⟩
        rcases Nat.lt_succ_iff_lt_or_eq.1 h2 with h2 | rfl
        · exact hh j h1 h2
        · exact ⟨hst, hf⟩

theorem InEx.pred (h : InEx prog mem ins c (k + 1)) (hk : c ≤ k) :
    InEx prog mem ins c k ∧ (stateAt prog mem ins k).Held (ins k) := by
  have hin : InEx prog mem ins c k := ⟨hk, h.2.1, fun j h1 h2 => h.2.2 j h1 (by omega)⟩
  obtain ⟨h1, h2⟩ := h.2.2 k hk (Nat.lt_succ_self k)
  exact ⟨hin, by rw [hin.idEx]; exact h.2.1, h1, h2⟩

/-- no cycle of the stay before `k` loses the register `x` -/
def Keeps (prog : Program) (mem : DataMem) (ins : ℕ → BoardIn) (c k : ℕ) (x : RegAddr) (latch : Word) : Prop :=
  ∀ j, c ≤ j → j < k → ¬ (stateAt prog mem ins j).Loses (ins j) x latch

theorem current_run {x : RegAddr} {latch : Word} (h : InEx prog mem ins c k)
    (hc : (stateAt prog mem ins c).Current x latch) (hkeep : Keeps prog mem ins c k x latch) :
    (stateAt prog mem ins k).Current x latch := by
  obtain ⟨hk, hv, hh⟩ := h
  induction k, hk using Nat.le_induction with
  | base => exact hc
  | succ k hk ih =>
    obtain ⟨-, hheld⟩ := InEx.pred ⟨Nat.le_succ_of_le hk, hv, hh⟩ hk
    exact hheld.step_current prog (idExInv prog mem ins k) (busData prog mem ins k) (kinds prog mem ins k)
      (plain prog mem ins k) (ih (fun j h1 h2 => hkeep j h1 (by omega)) fun j h1 h2 => hh j h1 (by omega))
      (hkeep k hk (Nat.lt_succ_self k))

theorem stale_run {x : RegAddr} {latch : Word} {j : ℕ} (h : InEx prog mem ins c k) (hcj : c ≤ j) (hjk : j < k)
    (hl : (stateAt prog mem ins j).Loses (ins j) x latch) : (stateAt prog mem ins k).Stale x latch := by
  obtain ⟨hk, hv, hh⟩ := h
  clear hk
  induction k, hjk using Nat.le_induction with
  | base =>
    obtain ⟨-, hheld⟩ := InEx.pred ⟨Nat.le_succ_of_le hcj, hv, hh⟩ hcj
    exact hheld.stale_of_loses prog (idExInv prog mem ins j) (busData prog mem ins j) (kinds prog mem ins j)
      (plain prog mem ins j) hl
  | succ k hk ih =>
    obtain ⟨-, hheld⟩ := InEx.pred ⟨by omega, hv, hh⟩ (by omega)
    exact hheld.step_stale prog (idExInv prog mem ins k) (busData prog mem ins k) (kinds prog mem ins k)
      (plain prog mem ins k) (ih fun j h1 h2 => hh j h1 (by omega))

/-- the program-order registers stay while the instruction is in ID/EX -/
theorem orderReg_run (h : InEx prog mem ins c k) (x : RegAddr) :
    (stateAt prog mem ins k).orderReg x = (stateAt prog mem ins c).orderReg x := by
  obtain ⟨hk, hv, hh⟩ := h
  induction k, hk using Nat.le_induction with
  | base => rfl
  | succ k hk ih =>
    obtain ⟨-, hheld⟩ := InEx.pred ⟨Nat.le_succ_of_le hk, hv, hh⟩ hk
    exact (hheld.step_orderReg prog (idExInv prog mem ins k) (busData prog mem ins k) (kinds prog mem ins k)
      (plain prog mem ins k) x).trans (ih fun j h1 h2 => hh j h1 (by omega))

/-- both latches are right in the first cycle -/
theorem current_first (h : Latches prog mem ins c) :
    (stateAt prog mem ins c).Current (stateAt prog mem ins c).core.idEx.rs1Addr
      (stateAt prog mem ins c).core.idEx.rs1Data ∧
      (stateAt prog mem ins c).Current (stateAt prog mem ins c).core.idEx.rs2Addr
        (stateAt prog mem ins c).core.idEx.rs2Data := by
  obtain ⟨n, rfl, hst, hf⟩ := h
  have hid := idEx_of_latches prog (plain prog mem ins n) hst hf
  have hcur := current_of_latches prog (busData prog mem ins n) (kinds prog mem ins n) (plain prog mem ins n) hst hf
  rw [stateAt_succ, hid]
  exact ⟨hcur _, hcur _⟩

/-- **An operand in EX is the program-order register exactly when** EX/MEM forwards what it writes, and no cycle of the
stay has lost it. -/
theorem forwarded_iff {x : RegAddr} {latch : Word} (h : InEx prog mem ins c k)
    (hc : (stateAt prog mem ins c).Current x latch) (hload : Hazard.loads (stateAt prog mem ins k).exMem x = false) :
    (stateAt prog mem ins k).core.forwarded x latch = (stateAt prog mem ins k).orderReg x ↔
      Keeps prog mem ins c k x latch ∧
        ((stateAt prog mem ins k).MemWrites x → (stateAt prog mem ins k).exMem.aluResult =
          (stateAt prog mem ins k).memValue) := by
  have hv := valid prog mem ins k
  constructor
  · intro heq
    have hkeep : Keeps prog mem ins c k x latch := by
      intro j h1 h2 hl
      exact forwarded_of_stale hv hload (stale_run h h1 h2 hl) heq
    exact ⟨hkeep, (forwarded_iff_of_current hv hload (current_run h hc hkeep)).1 heq⟩
  · rintro ⟨hkeep, hfwd⟩
    exact (forwarded_iff_of_current hv hload (current_run h hc hkeep)).2 hfwd

/-- **The latch is the program-order register exactly when** what EX/MEM and MEM/WB write to it in the first cycle is
the value already. -/
theorem latch_iff {x : RegAddr} {latch : Word} (h : InEx prog mem ins c k)
    (hc : (stateAt prog mem ins c).Current x latch) :
    latch = (stateAt prog mem ins k).orderReg x ↔
      ((stateAt prog mem ins c).MemWrites x → latch = (stateAt prog mem ins c).memValue) ∧
        (¬ (stateAt prog mem ins c).MemWrites x → (stateAt prog mem ins c).core.wbWrites x →
          latch = (stateAt prog mem ins c).core.memWb.rdData) := by
  rw [orderReg_run h x]
  by_cases hm : (stateAt prog mem ins c).MemWrites x
  · simp [orderReg_of_writes hm, hm]
  · rw [orderReg_of_not_writes hm]
    by_cases hw : (stateAt prog mem ins c).core.wbWrites x
    · simp [visible_of_wbWrites hw, hm, hw]
    · simp [hm, hw, hc hm hw]

end Run

end Vsync.Ledger
