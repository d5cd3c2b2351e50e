/-
How the pipeline drains behind a redirect.

A redirect empties IF/ID and ID/EX; the instruction in EX/MEM, if it is held, is the only one left.

- `step_draining`, `step_emptied`: as long as EX/MEM is held nothing comes behind it, and when it moves on nothing is
  left.
- `Interrupted`: an interrupt is taken. Its entry closes the gate, so interrupts do not keep a store from the bus for
  ever.
- `moves_on`: a memory that answers lets the older instruction go.
- `drained_iff`: the pipeline drains with all that was owed done, and nothing else, exactly when no store traps in MEM
  and every cycle up to the one in which EX/MEM moves on is accurate.
-/
import Vsync.Core.Accesses

namespace Vsync.Ledger

/-- no instruction is left in IF/ID, ID/EX and EX/MEM -/
def Emptied (w : Ledger) : Prop :=
  w.core.ifId.valid = false ∧ w.core.idEx.valid = false ∧ w.exMem.valid = false

instance (w : Ledger) : Decidable w.Emptied := by unfold Emptied; infer_instance

/-- after a redirect: nothing is valid in front of EX/MEM, the word that arrives is not wanted, and no syscall begins -/
structure Draining (w : Ledger) : Prop where
  ifId : w.core.ifId.valid = false
  idEx : w.core.idEx.valid = false
  suppress : w.core.suppressValid = true
  sys : w.core.sysState = .idle

def NoIrq (w : Ledger) (i : BoardIn) : Prop := (w.core.excIn (w.coreIn i)).irqCause = none

def Interrupted (w : Ledger) (i : BoardIn) : Prop := ∃ cause, (w.core.excIn (w.coreIn i)).irqCause = some cause

instance (w : Ledger) (i : BoardIn) : Decidable (w.NoIrq i) := by unfold NoIrq; infer_instance

section Cycle

variable {prog : Program} {w : Ledger} {i : BoardIn}

/-! ## Interrupts -/

theorem irqCause_of_mie (h : w.core.csr.mstatusMie = false) : w.NoIrq i := by
  simp [NoIrq, ExcIn.irqCause, Rv32imCore.excIn, h]

theorem noIrq_iff : w.NoIrq i ↔ ¬ w.Interrupted i := by
  constructor
  · rintro hq ⟨cause, hc⟩
    rw [NoIrq, hc] at hq
    exact absurd hq (by simp)
  · intro h
    apply Option.eq_none_iff_forall_ne_some.2
    intro cause hc
    exact h ⟨cause, hc⟩

theorem Interrupted.trap (h : w.Interrupted i) :
    ∃ cause target, w.core.trap (w.coreIn i) = .taken cause w.core.idEx.pc 0 target := by
  obtain ⟨cause, hc⟩ := h
  unfold Rv32imCore.trap ExcIn.trap
  rw [hc]
  exact ⟨cause, _, rfl⟩

theorem Interrupted.flushAll (h : w.Interrupted i) : w.core.flushAll (w.coreIn i) = true := by
  obtain ⟨cause, target, ht⟩ := h.trap
  simp [Rv32imCore.flushAll, ht, Trap.redirects]

/-- an interrupt waits for a syscall in progress -/
theorem Interrupted.sys (h : w.Interrupted i) : w.core.sysState = .idle := by
  by_contra hc
  obtain ⟨cause, hi⟩ := h
  simp [ExcIn.irqCause, Rv32imCore.excIn, Rv32imCore.syscallActive, hc] at hi

/-- the trap entry saves the pc of ID/EX and closes the gate -/
theorem Interrupted.step_csr (prog : Program) (h : w.Interrupted i) :
    (step prog w i).core.csr.mepc = w.core.idEx.pc ∧ (step prog w i).core.csr.mstatusMie = false := by
  obtain ⟨cause, target, ht⟩ := h.trap
  have hc : (step prog w i).core.csr =
      w.core.csr.step w.core.csrAccess (w.core.trap (w.coreIn i)) w.core.memWb.valid (w.coreIn i).irq := rfl
  rw [hc, ht]
  exact ⟨rfl, rfl⟩

/-! ## One cycle behind a redirect -/

theorem branchTaken_of_invalid (h : w.core.idEx.valid = false) : w.core.branchTaken = false := by
  simp [Rv32imCore.branchTaken, BranchUnit.taken, h]

/-- with ID/EX empty and no misaligned access, only an interrupt flushes -/
theorem interrupted_of_flushAll (hv : w.core.idEx.valid = false) (hm : ¬ w.Misaligned)
    (hf : w.core.flushAll (w.coreIn i) = true) : w.Interrupted i := by
  by_contra hno
  have hq := noIrq_iff.2 hno
  have hb : w.core.instrMisalign = false := by simp [Rv32imCore.instrMisalign, branchTaken_of_invalid hv]
  simp only [Misaligned, not_or, Bool.not_eq_true] at hm
  unfold NoIrq at hq
  unfold Rv32imCore.flushAll Rv32imCore.trap ExcIn.trap at hf
  rw [hq] at hf
  simp [ExcIn.anyException, Rv32imCore.excIn, hv, hm.1, hm.2, hb, Trap.redirects] at hf

theorem ecallDetected_of_invalid (h : w.core.idEx.valid = false) : w.core.ecallDetected = false := by
  simp [Rv32imCore.ecallDetected, h]

/-- with EX/MEM held, the front of the pipeline keeps draining -/
theorem step_draining (h : w.Draining) (hst : w.stallEx i = true) : (step prog w i).Draining := by
  have he := ecallDetected_of_invalid h.idEx
  have hid : w.core.stallId (w.coreIn i) = true := by
    have : w.core.stallEx (w.coreIn i) = true := hst
    simp [Rv32imCore.stallId, this]
  constructor
  · change (w.core.ifIdNext (w.coreIn i)).valid = false
    unfold Rv32imCore.ifIdNext
    split_ifs
    · rfl
    · exact h.ifId
  · change (w.core.idExNext (w.coreIn i)).valid = false
    unfold Rv32imCore.idExNext
    split_ifs
    · rfl
    · exact h.idEx
  · change w.core.suppressNext (w.coreIn i) = true
    simp [Rv32imCore.suppressNext, h.suppress, hid]
  · change w.core.sysNext (w.coreIn i) = .idle
    simp [Rv32imCore.sysNext, h.sys, he]

/-- when EX/MEM moves on behind a redirect, the pipeline is empty -/
theorem step_emptied (prog : Program) (h : w.Draining) (hst : w.stallEx i = false) : (step prog w i).Emptied := by
  refine ⟨?_, ?_, ?_⟩
  · change (w.core.ifIdNext (w.coreIn i)).valid = false
    unfold Rv32imCore.ifIdNext
    split_ifs
    · rfl
    · exact h.ifId
    · simp [h.suppress]
  · change (w.core.idExNext (w.coreIn i)).valid = false
    unfold Rv32imCore.idExNext
    split_ifs
    · rfl
    · exact h.idEx
    · exact h.ifId
  · have hx : w.core.stallEx (w.coreIn i) = false := hst
    simp only [step_exMem, Rv32imCore.exMemNext, hx, Bool.false_eq_true, if_false]
    split_ifs
    · rfl
    · exact h.idEx

/-- the cycle of a redirect empties the front of the pipeline -/
theorem draining_of_flushAll (prog : Program) (hf : w.core.flushAll (w.coreIn i) = true)
    (he : w.core.ecallDetected = false) (hsys : w.core.sysState = .idle) : (step prog w i).Draining := by
  refine ⟨?_, ?_, ?_, ?_⟩
  · change (w.core.ifIdNext (w.coreIn i)).valid = false
    simp [Rv32imCore.ifIdNext, Rv32imCore.flushIf, hf, IfId.bubble]
  · change (w.core.idExNext (w.coreIn i)).valid = false
    simp [Rv32imCore.idExNext, Rv32imCore.flushId, hf, IdEx.bubble]
  · change w.core.suppressNext (w.coreIn i) = true
    simp [Rv32imCore.suppressNext, Rv32imCore.redirect, hf]
  · change w.core.sysNext (w.coreIn i) = .idle
    simp [Rv32imCore.sysNext, hsys, he]

/-- and EX/MEM too, unless it is held -/
theorem emptied_of_flushAll (prog : Program) (hf : w.core.flushAll (w.coreIn i) = true)
    (hst : w.stallEx i = false) : (step prog w i).exMem = .bubble := by
  have hx : w.core.stallEx (w.coreIn i) = false := hst
  rw [step_exMem, Rv32imCore.exMemNext, hx]
  simp [Rv32imCore.flushEx, hf]

theorem step_owed_of_invalid (prog : Program) (h : (step prog w i).exMem.valid = false) :
    (step prog w i).owed = w.owed := by
  have hd := ExMem.duties_of_invalid h
  simp only [step]
  split_ifs
  · rfl
  · change w.owed ++ (step prog w i).exMem.duties = w.owed
    simp [ExMem.duties, hd.1, hd.2]

theorem owed_of_flushAll (prog : Program) (hf : w.core.flushAll (w.coreIn i) = true) :
    (step prog w i).owed = w.owed := by
  cases hst : w.stallEx i with
  | true => exact step_owed_of_held prog hst
  | false =>
    refine step_owed_of_invalid prog ?_
    rw [emptied_of_flushAll prog hf hst]
    rfl

theorem pending_of_emptied (h : w.Emptied) : w.pending = [] := by
  have hd := ExMem.duties_of_invalid h.2.2
  simp [pending, hd.1, hd.2]

/-- nothing starts a division while the front drains -/
theorem step_muldiv (h : w.Draining) : ∃ op x y, (step prog w i).core.muldiv = w.core.muldiv.step false op x y := by
  have hst : w.core.mextStart (w.coreIn i) = false := by simp [Rv32imCore.mextStart, Rv32imCore.mextInEx, h.idEx]
  exact ⟨w.core.idEx.ctrl.mextOp, w.core.rs1Forwarded, w.core.rs2Forwarded, by rw [← hst]; rfl⟩

/-- a draining stall without a division is one for memory -/
theorem stallEx_eq_memStall (h : w.Draining) (hpl : w.board.Plain) (hb : w.core.muldiv.calculating = false) :
    w.stallEx i = w.core.memStall (w.coreIn i) := by
  have hc : w.core.ctxState = .idle := hpl.1
  have hh : w.core.debugHalt = false := hpl.2
  simp [stallEx, Rv32imCore.stallEx, Rv32imCore.stallMem, Rv32imCore.ctxActive, Rv32imCore.syscallActive, hc, hh, h.sys,
    Rv32imCore.mextBusy_of_not_calculating hb]

/-- a stall for memory is one for an access that is not answered in this cycle -/
theorem access_of_memStall (h : w.core.memStall (w.coreIn i) = true) :
    w.exMem.isAccess = true ∧ ¬ (w.core.memReqSent = true ∧ (w.coreIn i).memReady = true) := by
  simp only [Rv32imCore.memStall, memOpActive_eq, Bool.and_eq_true, Bool.not_eq_true'] at h
  exact ⟨h.1, fun hans => by simp [hans] at h⟩

/-- an idle bus takes the access in EX/MEM, unless a flush keeps a store from it -/
theorem busy_of_access (prog : Program) (ha : w.exMem.isAccess = true) (hb : w.board.bus.busy = false)
    (hf : w.exMem.memRead = true ∨ w.flushMem i = false) : (step prog w i).board.bus.busy = true := by
  rw [step_busy, hb, accepts_of_access ha hb hf]
  rfl

/-- a store that does not trap is kept from the bus by an interrupt only -/
theorem interrupted_of_flushMem (h : w.Draining) (hpl : w.board.Plain) (hm : ¬ w.Misaligned)
    (hf : w.flushMem i = true) :
    w.Interrupted i := by
  have hc : w.core.ctxState = .idle := hpl.1
  refine interrupted_of_flushAll h.idEx hm ?_
  simpa [flushMem, Rv32imCore.flushMem, hc] using hf

/-- an instruction that is gone from EX/MEM owes nothing that a cycle could drop or repeat -/
theorem accurate_of_invalid (prog : Program) (mem : DataMem) (ins : ℕ → BoardIn) (k : ℕ)
    (h : (stateAt prog mem ins k).exMem.valid = false) : Accurate prog mem ins k := by
  obtain ⟨ha, hw⟩ := ExMem.duties_of_invalid h
  refine ⟨fun _ => Or.inr (Or.inr hw), fun hr => hr.2.2 ha, fun hs => ?_⟩
  have := (isAccess_of_accepts hs.1).1
  simp [ExMem.isAccess, h] at this

end Cycle

section Run

variable {prog : Program} {mem : DataMem} {ins : ℕ → BoardIn} {a k t m : ℕ}

theorem held_run (hd : (stateAt prog mem ins a).Draining) (hk : a ≤ k) (hh : HeldFrom prog mem ins a k) :
    (stateAt prog mem ins k).Draining ∧ (stateAt prog mem ins k).owed = (stateAt prog mem ins a).owed := by
  induction k, hk using Nat.le_induction with
  | base => exact ⟨hd, rfl⟩
  | succ k hk ih =>
    obtain ⟨h1, h2⟩ := ih fun j hj hlt => hh j hj (by omega)
    have hst := hh k hk (Nat.lt_succ_self k)
    rw [stateAt_succ]
    exact ⟨step_draining h1 hst, (step_owed_of_held prog hst).trans h2⟩

theorem stays_busy {c e : ℕ} (hb : (stateAt prog mem ins c).board.bus.busy = true) (hce : c ≤ e)
    (hstall : ∀ k ≥ c, (stateAt prog mem ins k).core.memStall ((stateAt prog mem ins k).coreIn (ins k)) = true) :
    (stateAt prog mem ins e).board.bus.busy = true := by
  induction e, hce using Nat.le_induction with
  | base => exact hb
  | succ k hk ih =>
    have h2 := (access_of_memStall (hstall k hk)).2
    have hr := (busInv prog mem ins k).busy ih
    rw [stateAt_succ, step_busy, ih]
    simpa [hr, coreIn, Board.coreIn, DataBus.done, ih] using h2

/-- the bus takes an access that waits in EX/MEM behind a redirect, at the latest behind an interrupt -/
theorem taken_later (hd : (stateAt prog mem ins a).Draining)
    (hm : (stateAt prog mem ins a).exMem.memRead = true ∨ ¬ (stateAt prog mem ins a).Misaligned)
    (hh : ∀ k, HeldFrom prog mem ins a k) (ha : (stateAt prog mem ins a).exMem.isAccess = true) {c : ℕ} (hc : a ≤ c) :
    ∃ e ≥ c, (stateAt prog mem ins e).board.bus.busy = true := by
  have hx (k : ℕ) (hk : a ≤ k) : (stateAt prog mem ins k).exMem = (stateAt prog mem ins a).exMem := (hh k).exMem hk
  have hacc (k : ℕ) (hk : a ≤ k) : (stateAt prog mem ins k).exMem.isAccess = true := by
    rw [hx k hk]
    exact ha
  by_contra hno
  have hidle (k : ℕ) (hk : c ≤ k) : (stateAt prog mem ins k).board.bus.busy = false := by
    by_contra hb
    exact hno ⟨k, hk, by simpa using hb⟩
  -- an idle bus has not taken a load, nor a store in a cycle without an interrupt
  have hirq (k : ℕ) (hk : c ≤ k) : (stateAt prog mem ins k).Interrupted (ins k) := by
    have hnot : ¬ ((stateAt prog mem ins k).exMem.memRead = true ∨
        (stateAt prog mem ins k).flushMem (ins k) = false) := by
      intro hf
      have hb := busy_of_access prog (hacc k (by omega)) (hidle k hk) hf
      rw [← stateAt_succ, hidle (k + 1) (by omega)] at hb
      exact Bool.noConfusion hb
    rw [hx k (by omega), not_or, Bool.not_eq_false] at hnot
    have hdr := (held_run hd (by omega) (hh k)).1
    refine interrupted_of_flushMem hdr (plain prog mem ins k) ?_ hnot.2
    exact fun hmis => hm.elim hnot.1 fun hm => hm (hmis.of_exMem (hx k (by omega)).symm)
  -- and two interrupts do not follow one another
  have hgate := ((hirq c (le_refl c)).step_csr prog).2
  exact noIrq_iff.1 (irqCause_of_mie hgate) (hirq (c + 1) (by omega))

/-- **EX/MEM moves on.** Behind a redirect, a memory that answers lets the older instruction go, unless it is a store
that traps. -/
theorem moves_on (ha : ∀ n, ∃ k ≥ n, (ins k).answer = true) (hd : (stateAt prog mem ins a).Draining)
    (hm : (stateAt prog mem ins a).exMem.memRead = true ∨ ¬ (stateAt prog mem ins a).Misaligned) :
    ∃ k ≥ a, HeldFrom prog mem ins a k ∧ (stateAt prog mem ins k).stallEx (ins k) = false := by
  by_contra hno
  -- then EX/MEM is held for ever
  have hheld : ∀ k, HeldFrom prog mem ins a k := by
    intro k
    induction k with
    | zero => intro j _ h; omega
    | succ k ih =>
      intro j h1 h2
      rcases Nat.lt_succ_iff_lt_or_eq.1 h2 with h2 | rfl
      · exact ih j h1 h2
      · by_contra hc
        exact hno ⟨j, h1, ih, by simpa using hc⟩
  have hrun (k : ℕ) (hk : a ≤ k) := held_run hd hk (hheld k)
  -- a division comes to its end, and it is memory that is waited for
  obtain ⟨n, hn⟩ := MulDiv.ends (fun k => (stateAt prog mem ins (a + k)).core.muldiv)
    (fun k => step_muldiv (hrun (a + k) (by omega)).1)
  have hmem (k : ℕ) (hk : a + n ≤ k) :
      (stateAt prog mem ins k).core.memStall ((stateAt prog mem ins k).coreIn (ins k)) = true := by
    have hb := hn (k - a) (by omega)
    rw [show a + (k - a) = k by omega] at hb
    rw [← stallEx_eq_memStall (hrun k (by omega)).1 (plain prog mem ins k) hb]
    exact hheld (k + 1) k (by omega) (by omega)
  have hacc : (stateAt prog mem ins a).exMem.isAccess = true := by
    rw [← (hheld (a + n)).exMem (by omega)]
    exact (access_of_memStall (hmem (a + n) (le_refl _))).1
  -- the bus takes the access, and is answered in the end
  obtain ⟨c, hc, hb⟩ := taken_later hd hm hheld hacc (show a ≤ a + n by omega)
  obtain ⟨e, he, hans⟩ := ha c
  have hbe := stays_busy hb he fun k hk => hmem k (by omega)
  exact (access_of_memStall (hmem e (by omega))).2 ⟨(busInv prog mem ins e).busy hbe, by
    simp [coreIn, Board.coreIn, DataBus.done, hbe, hans]⟩

/-! ## The pipeline behind a redirect -/

/-- after cycle `t` the pipeline empties, with what was owed at `t` done and nothing else: up to the first cycle `m` in
which no instruction is left in IF/ID, ID/EX and EX/MEM -/
def Drained (prog : Program) (mem : DataMem) (ins : ℕ → BoardIn) (t : ℕ) : Prop :=
  ∃ m, t < m ∧ (stateAt prog mem ins m).Emptied ∧ (∀ k, t < k → k < m → ¬ (stateAt prog mem ins k).Emptied) ∧
    (stateAt prog mem ins m).done = (stateAt prog mem ins t).owed

/-- the first empty cycle behind a redirect -/
structure EmptiesIn (prog : Program) (mem : DataMem) (ins : ℕ → BoardIn) (t m : ℕ) : Prop where
  after : t < m
  empty : (stateAt prog mem ins m).Emptied
  first : ∀ k, t < k → k < m → ¬ (stateAt prog mem ins k).Emptied

section Redirected

variable (hf : (stateAt prog mem ins t).core.flushAll ((stateAt prog mem ins t).coreIn (ins t)) = true)
  (he : (stateAt prog mem ins t).core.ecallDetected = false) (hsys : (stateAt prog mem ins t).core.sysState = .idle)

include hf he hsys

theorem draining_after : (stateAt prog mem ins (t + 1)).Draining := by
  rw [stateAt_succ]
  exact draining_of_flushAll prog hf he hsys

/-- EX/MEM is held up to the cycle before the first empty one -/
theorem EmptiesIn.held (h : EmptiesIn prog mem ins t m) (hk : k < m) : HeldFrom prog mem ins t k := by
  induction k with
  | zero => intro j h1 h2; omega
  | succ k ih =>
    intro j h1 h2
    rcases Nat.lt_succ_iff_lt_or_eq.1 h2 with h2 | rfl
    · exact ih (by omega) j h1 h2
    · by_contra hc
      have hst : (stateAt prog mem ins j).stallEx (ins j) = false := by simpa using hc
      refine h.first (j + 1) (by omega) hk ?_
      rw [stateAt_succ]
      rcases Nat.lt_or_eq_of_le h1 with hlt | rfl
      · have hheld : HeldFrom prog mem ins (t + 1) j := fun l h3 h4 => ih (by omega) l (by omega) h4
        exact step_emptied prog (held_run (draining_after hf he hsys) (by omega) hheld).1 hst
      · have hd := draining_of_flushAll prog hf he hsys
        refine ⟨hd.ifId, hd.idEx, ?_⟩
        rw [emptied_of_flushAll prog hf hst]
        rfl

/-- the first empty cycle owes what the redirect found -/
theorem EmptiesIn.owed (h : EmptiesIn prog mem ins t m) :
    (stateAt prog mem ins m).owed = (stateAt prog mem ins t).owed := by
  have ho : (stateAt prog mem ins (t + 1)).owed = (stateAt prog mem ins t).owed := owed_of_flushAll prog hf
  obtain ⟨d, rfl⟩ := Nat.exists_eq_add_of_lt h.after
  cases d with
  | zero => exact ho
  | succ d =>
    have hheld := h.held hf he hsys (show t + d + 1 < t + (d + 1) + 1 by omega)
    have hrun := held_run (draining_after hf he hsys) (by omega) (fun l h1 h2 => hheld l (by omega) h2)
    have hown := step_owed_of_invalid prog (w := stateAt prog mem ins (t + (d + 1)))
      (i := ins (t + (d + 1))) h.empty.2.2
    exact hown.trans (hrun.2.trans ho)

/-- the pipeline empties, unless a store traps in MEM -/
theorem empties_in (ha : ∀ n, ∃ k ≥ n, (ins k).answer = true)
    (hs : (stateAt prog mem ins t).core.storeMisalign = false) :
    ∃ m, EmptiesIn prog mem ins t m := by
  have hd := draining_after hf he hsys
  have hm : (stateAt prog mem ins (t + 1)).exMem.memRead = true ∨ ¬ (stateAt prog mem ins (t + 1)).Misaligned := by
    cases hst : (stateAt prog mem ins t).stallEx (ins t) with
    | false =>
      right
      have hx : (stateAt prog mem ins (t + 1)).exMem = .bubble := emptied_of_flushAll prog hf hst
      intro hm
      have := hm.isAccess
      rw [hx] at this
      exact Bool.noConfusion this
    | true =>
      have hx : (stateAt prog mem ins (t + 1)).exMem = (stateAt prog mem ins t).exMem := step_held hst
      by_cases hm : (stateAt prog mem ins t).Misaligned
      · left
        rw [hx, ← hm.loadMisalign]
        exact hm.resolve_right (by simp [hs])
      · exact Or.inr fun hc => hm (hc.of_exMem hx.symm)
  have hex : ∃ m, t < m ∧ (stateAt prog mem ins m).Emptied := by
    obtain ⟨k, hk, hh, hst⟩ := moves_on ha hd hm
    exact ⟨k + 1, by omega, step_emptied prog (held_run hd hk hh).1 hst⟩
  classical
  obtain ⟨h1, h2⟩ := Nat.find_spec hex
  exact ⟨Nat.find hex, h1, h2, fun k h3 h4 hc => Nat.find_min hex h4 ⟨h3, hc⟩⟩

/-- **The pipeline drains behind a redirect exactly when** no store traps in MEM, and every cycle up to the one in which
EX/MEM moves on is accurate: it drops no register write, repeats no access, and puts none on the bus that traps. -/
theorem drained_iff (ha : ∀ n, ∃ k ≥ n, (ins k).answer = true) : Drained prog mem ins t ↔
    (stateAt prog mem ins t).core.storeMisalign = false ∧
      ∀ k, HeldFrom prog mem ins t k → Accurate prog mem ins k := by
  have hexact {m : ℕ} (h : EmptiesIn prog mem ins t m) : (stateAt prog mem ins m).done = (stateAt prog mem ins t).owed ↔
      ∀ k < m, Accurate prog mem ins k := by
    rw [← exact_iff, Exact, pending_of_emptied h.empty, List.append_nil, h.owed hf he hsys]
  constructor
  · rintro ⟨m, h1, h2, h3, hdone⟩
    have h : EmptiesIn prog mem ins t m := ⟨h1, h2, h3⟩
    refine ⟨?_, fun k hk => ?_⟩
    · -- a store that traps would still be there
      by_contra hs
      have hm : (stateAt prog mem ins t).Misaligned := Or.inr (by simpa using hs)
      have hread : (stateAt prog mem ins t).exMem.memRead = false := by
        by_contra hr
        have := ((accesses prog mem ins t).load (by simpa using hr)).1
        have hw : (stateAt prog mem ins t).core.exMem.memWrite = false := this
        simp [Rv32imCore.storeMisalign, hw] at hs
      have hacc := hm.isAccess
      rw [← (store_stays hm hread h1.le).exMem h1.le] at hacc
      simp [ExMem.isAccess, h2.2.2] at hacc
    · rcases Nat.lt_or_ge k m with hlt | hge
      · exact (hexact h).1 hdone k hlt
      · refine accurate_of_invalid prog mem ins k ?_
        rw [HeldFrom.exMem hge fun j hj1 hj2 => hk j (by omega) hj2]
        exact h2.2.2
  · rintro ⟨hs, hacc⟩
    obtain ⟨m, h⟩ := empties_in hf he hsys ha hs
    exact ⟨m, h.after, h.empty, h.first, (hexact h).2 fun k hk => hacc k (h.held hf he hsys hk)⟩

end Redirected

/-- EX/MEM moves on in cycle `m`: the cycles up to there are all that count -/
theorem accurate_of_moves (htm : t ≤ m) (hm : (stateAt prog mem ins m).stallEx (ins m) = false)
    (h : ∀ k ≤ m, Accurate prog mem ins k) (k : ℕ) (hk : HeldFrom prog mem ins t k) : Accurate prog mem ins k := by
  refine h k ?_
  by_contra hc
  have := hk m htm (by omega)
  simp [hm] at this

end Run

end Vsync.Ledger
