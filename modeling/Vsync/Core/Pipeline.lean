/-
The pipeline against the interpreter, over whole runs.

- `step_sim`, `step_log`, `run_sim`: as long as every cycle is sound, the board is in lockstep with the interpreter, and
  its log is the interpreter's.
- `retires_again`: with a memory that answers again and again, instructions go on retiring.
- `pipeline_correct_iff`: the pipeline is correct exactly when every cycle is sound.
- `pipeline_loses_operand`: behind a load, an instruction reads a register before the write of the instruction in front.
-/
import Vsync.Core.Lockstep

namespace Vsync.Lockstep

open Rv32imCore

structure Sim (prog : Program) (mem : DataMem) (b : Board) (j : ℕ) : Prop where
  back : Back prog mem b j
  front : Front prog mem b (entered b j)
  latched : Latched prog mem b (entered b j)

/-- the access of the instruction in EX/MEM, when the bus has taken it -/
def pending (prog : Program) (mem : DataMem) (b : Board) (j : ℕ) : List Isa.Event :=
  if b.bus.busy then Isa.accessEvents ((isa prog mem j).effect prog) (isa prog mem j).mem else []

/-! ## One cycle -/

section Step

variable {prog : Program} {mem : DataMem} {b : Board} {i : BoardIn} {j : ℕ}

theorem Sim.calm (hr : Isa.Runs prog mem) (h : Sim prog mem b j) (hk : Sound b.core (b.coreIn i)) :
    Calm b.core (b.coreIn i) := Lockstep.calm hr h.back h.front h.latched _ hk.target

theorem entered_of_stall (hc : Calm b.core (b.coreIn i)) (hs : b.core.memStall (b.coreIn i) = true) :
    entered (b.step prog i) j = entered b j := by
  unfold entered
  rw [step_exMem hc, if_pos hs]

theorem entered_of_loadUse (hc : Calm b.core (b.coreIn i)) (hs : b.core.memStall (b.coreIn i) = false)
    (hu : b.core.loadUse = true) : entered (b.step prog i) j = j := by
  simp [entered, step_exMem hc, hs, hu, ExMem.bubble]

theorem entered_of_moves (hc : Calm b.core (b.coreIn i)) (hs : b.core.memStall (b.coreIn i) = false)
    (hu : b.core.loadUse = false) : entered (b.step prog i) j = if b.core.idEx.valid then j + 1 else j := by
  simp [entered, step_exMem hc, hs, hu, Rv32imCore.executed]

/-- **One cycle** of the board in lockstep, when no operand is lost. -/
theorem step_sim (hr : Isa.Runs prog mem) (h : Sim prog mem b j) (hk : Sound b.core (b.coreIn i)) :
    Sim prog mem (b.step prog i) (after b i j) := by
  have hc := h.calm hr hk
  obtain ⟨hb, hf, hl⟩ := h
  cases hs : b.core.memStall (b.coreIn i) with
  | true =>
    rw [after_of_stall hc hs]
    refine ⟨step_back_of_stall hb hc (idEx_base hr hf) hs, ?_, ?_⟩
    · rw [entered_of_stall hc hs]
      exact step_front_of_stall hr hb hf hl hc hs
    · rw [entered_of_stall hc hs]
      exact step_latched_of_stall hl hc hs
  | false =>
    rw [after_of_moves hc hs]
    have hback := step_back_of_moves hr hb hf hl hc hs
    cases hu : b.core.loadUse with
    | true =>
      refine ⟨hback, ?_, ?_⟩
      · rw [entered_of_loadUse hc hs hu]
        exact step_front_of_loadUse hb hf hc hs hu
      · rw [entered_of_loadUse hc hs hu]
        exact step_latched_of_loadUse hb hf hl hc hs hu hk
    | false =>
      refine ⟨hback, ?_, step_latched_of_moves hb hback hc hs hu⟩
      rw [entered_of_moves hc hs hu]
      exact step_front_of_moves hr hb hf hl hc hs hu

theorem step_entered (hc : Calm b.core (b.coreIn i)) :
    entered (b.step prog i) (after b i j) = if b.issues i then entered b j + 1 else entered b j := by
  rw [issues_eq hc]
  cases hs : b.core.memStall (b.coreIn i) with
  | true =>
    rw [after_of_stall hc hs, entered_of_stall hc hs]
    rfl
  | false =>
    rw [after_of_moves hc hs]
    cases hu : b.core.loadUse with
    | true =>
      rw [entered_of_loadUse hc hs hu]
      rfl
    | false =>
      rw [entered_of_moves hc hs hu]
      rfl

theorem writeEvents_of_moves (hb : Back prog mem b j) (hc : Calm b.core (b.coreIn i))
    (hs : b.core.memStall (b.coreIn i) = false) :
    b.writeEvents i = if b.core.exMem.valid then Isa.writeEvents ((isa prog mem j).effect prog) else [] := by
  have hrd : (b.core.memDone (b.coreIn i)).rdAddr = b.core.exMem.rdAddr := rfl
  simp only [Board.writeEvents, retires_eq hc, hs, Bool.not_false, Bool.true_and]
  cases hv : b.core.exMem.valid with
  | false => rfl
  | true =>
    cases hw : b.core.exMem.regWrite with
    | false =>
      have hnone : ((isa prog mem j).effect prog).write = none := by
        rw [← (hb.carries hv).write]
        simp [ExMem.write, hw]
      simp [Isa.writeEvents, hnone, MemWb.writes, memDone, hw]
    | true =>
      obtain ⟨h1, h2⟩ := memDone_eq hb hs hv hw
      rw [Isa.writeEvents, h2, hrd, h1]
      by_cases hz : b.core.exMem.rdAddr = 0#5
      · simp [hz]
      · simp [hz]

theorem accessEvents_of_moves (hb : Back prog mem b j) (hc : Calm b.core (b.coreIn i))
    (hs : b.core.memStall (b.coreIn i) = false) : b.accessEvents i = [] := by
  rw [Board.accessEvents, accepts_eq hb hc, if_neg]
  intro h
  simp only [Bool.and_eq_true, Bool.not_eq_true'] at h
  simp [(answered hb hs h.1).1] at h

/-- when EX/MEM moves on, its access has been made -/
theorem pending_of_moves (hb : Back prog mem b j) (hs : b.core.memStall (b.coreIn i) = false) :
    pending prog mem b j =
      if b.core.exMem.valid then Isa.accessEvents ((isa prog mem j).effect prog) (isa prog mem j).mem else [] := by
  unfold pending
  cases ha : b.core.memOpActive with
  | true =>
    have hv : b.core.exMem.valid = true := by
      simp only [memOpActive, Bool.and_eq_true] at ha
      exact ha.2
    rw [(answered hb hs ha).2.1, hv]
  | false =>
    rw [(not_busy hb ha).2]
    cases hv : b.core.exMem.valid with
    | false => rfl
    | true => simp [Isa.accessEvents, access_eq_none hb hv ha]

theorem log_entered (b : Board) (j : ℕ) : Isa.log prog mem (entered b j) =
    Isa.log prog mem j ++
      ((if b.core.exMem.valid then Isa.accessEvents ((isa prog mem j).effect prog) (isa prog mem j).mem else []) ++
        if b.core.exMem.valid then Isa.writeEvents ((isa prog mem j).effect prog) else []) := by
  unfold entered
  cases b.core.exMem.valid with
  | false => simp
  | true => rfl

/-- **What one cycle adds to the log.** -/
theorem step_log (hb : Back prog mem b j) (hc : Calm b.core (b.coreIn i)) :
    Isa.log prog mem j ++ pending prog mem b j ++ b.events i =
      Isa.log prog mem (after b i j) ++ pending prog mem (b.step prog i) (after b i j) := by
  cases hs : b.core.memStall (b.coreIn i) with
  | true =>
    have hw : b.writeEvents i = [] := by simp [Board.writeEvents, retires_eq hc, hs]
    have ha : b.core.memOpActive = true := by
      simp only [memStall, Bool.and_eq_true] at hs
      exact hs.1
    rw [after_of_stall hc hs, Board.events, hw, List.append_nil, pending, pending,
      (step_bus_of_stall prog hb hc hs).2, if_pos rfl, List.append_assoc]
    cases hn : b.core.memReqSent with
    | false => simp [hb.busy, hn, (taken hb hc ha hn).1]
    | true => simp [hb.busy, hn, Board.accessEvents, accepts_eq hb hc]
  | false =>
    have hp : pending prog mem (b.step prog i) (entered b j) = [] := by
      simp [pending, (step_bus_of_moves prog hb hc hs).2.1]
    rw [after_of_moves hc hs, Board.events, accessEvents_of_moves hb hc hs, writeEvents_of_moves hb hc hs,
      List.nil_append, pending_of_moves hb hs, hp, List.append_nil, log_entered, List.append_assoc]

end Step

/-! ## Whole runs -/

section Run

variable (prog : Program) (mem : DataMem) (ins : ℕ → BoardIn)

/-- cycle `n` is sound -/
def SoundAt (n : ℕ) : Prop :=
  Sound (Board.stateAt prog mem ins n).core ((Board.stateAt prog mem ins n).coreIn (ins n))

variable {prog mem ins}

theorem reset_sim : Sim prog mem (Board.reset mem) 0 where
  back := by
    refine ⟨⟨rfl, rfl, rfl, rfl, rfl⟩, nofun, fun _ => ⟨rfl, rfl, rfl⟩, nofun, fun x => ?_, rfl, nofun, rfl, nofun⟩
    change (if x = 0 then 0 else if false && _ then _ else 0) = if x = 0 then 0 else 0
    simp
  front := ⟨nofun, nofun, fun _ => rfl, nofun, nofun⟩
  latched := ⟨nofun, nofun⟩

/-- **As long as every cycle is sound, the board is in lockstep**, and its log is the interpreter's. -/
theorem run_sim (hr : Isa.Runs prog mem) (n : ℕ) (hk : ∀ k < n, SoundAt prog mem ins k) :
    Sim prog mem (Board.stateAt prog mem ins n) (Board.retired prog mem ins n) ∧
      Board.issued prog mem ins n = entered (Board.stateAt prog mem ins n) (Board.retired prog mem ins n) ∧
      Board.log prog mem ins n = Isa.log prog mem (Board.retired prog mem ins n) ++
        pending prog mem (Board.stateAt prog mem ins n) (Board.retired prog mem ins n) := by
  induction n with
  | zero => exact ⟨reset_sim, rfl, rfl⟩
  | succ n ih =>
    obtain ⟨h1, h2, h3⟩ := ih fun k hlt => hk k (Nat.lt_succ_of_lt hlt)
    have hn := hk n (Nat.lt_succ_self n)
    have hc := h1.calm hr hn
    have hret : Board.retired prog mem ins (n + 1) =
        after (Board.stateAt prog mem ins n) (ins n) (Board.retired prog mem ins n) := by
      rw [Board.retired, Nat.count_succ, after]
      split_ifs <;> rfl
    rw [hret, Board.stateAt_succ]
    refine ⟨step_sim hr h1 hn, ?_, ?_⟩
    · rw [step_entered hc, Board.issued, Nat.count_succ, ← h2]
      split_ifs <;> rfl
    · rw [Board.log_succ, h3]
      exact step_log h1.back hc

/-! ## Instructions go on retiring -/

variable (hr : Isa.Runs prog mem) (hk : ∀ n, SoundAt prog mem ins n)

include hr hk

theorem run_calm (n : ℕ) :
    Calm (Board.stateAt prog mem ins n).core ((Board.stateAt prog mem ins n).coreIn (ins n)) :=
  (run_sim hr n fun k _ => hk k).1.calm hr (hk n)

theorem run_back (n : ℕ) : Back prog mem (Board.stateAt prog mem ins n) (Board.retired prog mem ins n) :=
  (run_sim hr n fun k _ => hk k).1.back

theorem moves_again (ha : ∀ n, ∃ k ≥ n, (ins k).answer = true) (n : ℕ) : ∃ m ≥ n,
    (Board.stateAt prog mem ins m).core.memStall ((Board.stateAt prog mem ins m).coreIn (ins m)) = false ∧
      (Board.stateAt prog mem ins m).core.exMem = (Board.stateAt prog mem ins n).core.exMem := by
  have hex : ∃ m ≥ n, (Board.stateAt prog mem ins m).core.memStall
      ((Board.stateAt prog mem ins m).coreIn (ins m)) = false := by
    by_contra hno
    have hst (k : ℕ) (h : n ≤ k) : (Board.stateAt prog mem ins k).core.memStall
        ((Board.stateAt prog mem ins k).coreIn (ins k)) = true := by
      by_contra hc
      exact hno ⟨k, h, by simpa using hc⟩
    -- the access is on the bus from the next cycle on, and is answered in the end
    obtain ⟨e, he, hans⟩ := ha (n + 1)
    obtain ⟨d, rfl⟩ := Nat.exists_eq_add_of_le' (show 1 ≤ e by omega)
    have hbus := step_bus_of_stall prog (run_back hr hk d) (run_calm hr hk d) (hst d (by omega))
    rw [← Board.stateAt_succ] at hbus
    have := hst (d + 1) (by omega)
    simp [memStall, hbus.1, Board.coreIn, DataBus.done, hbus.2, hans] at this
  classical
  obtain ⟨hge, hmove⟩ := Nat.find_spec hex
  refine ⟨Nat.find hex, hge, hmove, ?_⟩
  have hkeep (k : ℕ) (h : n ≤ k) : k ≤ Nat.find hex →
      (Board.stateAt prog mem ins k).core.exMem = (Board.stateAt prog mem ins n).core.exMem := by
    induction k, h using Nat.le_induction with
    | base => exact fun _ => rfl
    | succ k h ih =>
      intro hle
      have hst : (Board.stateAt prog mem ins k).core.memStall
          ((Board.stateAt prog mem ins k).coreIn (ins k)) = true := by
        by_contra hc
        exact Nat.find_min hex (show k < Nat.find hex by omega) ⟨h, by simpa using hc⟩
      rw [Board.stateAt_succ, step_exMem (run_calm hr hk k), if_pos hst]
      exact ih (by omega)
  exact hkeep _ hge (le_refl _)

/-- how far the next instruction is from EX/MEM, when nothing is there -/
def rank (b : Board) : ℕ :=
  if b.core.idEx.valid then 0 else if b.core.ifId.valid then 1 else if b.core.suppressValid then 3 else 2

omit hr hk in
theorem no_stall {b : Board} {i : BoardIn} {j : ℕ} (hb : Back prog mem b j) (hv : b.core.exMem.valid = false) :
    b.core.memStall (b.coreIn i) = false ∧ b.core.loadUse = false := by
  refine ⟨by simp [memStall, memOpActive, hv], ?_⟩
  simp [loadUse, loadUseId, loadUseEx, Hazard.loadUse, Hazard.loads, (hb.bubble hv).1]

omit hr hk in
/-- an empty EX/MEM is filled, or the next instruction comes closer -/
theorem step_rank {b : Board} {i : BoardIn} {j : ℕ} (hb : Back prog mem b j) (hc : Calm b.core (b.coreIn i))
    (hv : b.core.exMem.valid = false) :
    (b.step prog i).core.exMem.valid = true ∨
      (b.step prog i).core.exMem.valid = false ∧ rank (b.step prog i) < rank b := by
  obtain ⟨hs, hu⟩ := no_stall (i := i) hb hv
  have hx : (b.step prog i).core.exMem.valid = b.core.idEx.valid := by simp [step_exMem hc, hs, hu, Rv32imCore.executed]
  rw [hx]
  cases hid : b.core.idEx.valid with
  | true => exact .inl rfl
  | false =>
    have hbf : b.core.branchFlush = false := by simp [branchFlush, branchTaken, BranchUnit.taken, hid]
    have hd : (b.step prog i).core.idEx.valid = b.core.ifId.valid := by
      change (b.core.idExNext (b.coreIn i)).valid = _
      simp [hc.idExNext, hs, hu, hbf, Decode.idEx]
    obtain ⟨-, h2, -, h4, -⟩ := step_front_regs prog hc
    refine .inr ⟨rfl, ?_⟩
    unfold rank
    rw [hd, h4, h2]
    simp only [hid, hbf, hs, hu]
    cases b.core.ifId.valid <;> cases b.core.suppressValid <;> simp

theorem enters_again (n : ℕ) : ∃ m ≥ n, (Board.stateAt prog mem ins m).core.exMem.valid = true := by
  have h : ∀ d n, rank (Board.stateAt prog mem ins n) ≤ d →
      ∃ m ≥ n, (Board.stateAt prog mem ins m).core.exMem.valid = true := by
    intro d
    induction d with
    | zero =>
      intro n hd
      cases hv : (Board.stateAt prog mem ins n).core.exMem.valid with
      | true => exact ⟨n, le_refl n, hv⟩
      | false =>
        rcases step_rank (run_back hr hk n) (run_calm hr hk n) hv with h | ⟨-, h⟩
        · exact ⟨n + 1, by omega, h⟩
        · omega
    | succ d ih =>
      intro n hd
      cases hv : (Board.stateAt prog mem ins n).core.exMem.valid with
      | true => exact ⟨n, le_refl n, hv⟩
      | false =>
        rcases step_rank (run_back hr hk n) (run_calm hr hk n) hv with h | ⟨-, h⟩
        · exact ⟨n + 1, by omega, h⟩
        · obtain ⟨m, hm, hvm⟩ := ih (n + 1) (by rw [Board.stateAt_succ]; omega)
          exact ⟨m, by omega, hvm⟩
  exact h _ n (le_refl _)

/-- **Progress.** With a memory that answers again and again, every instruction of the interpreter retires. -/
theorem retires_again (ha : ∀ n, ∃ k ≥ n, (ins k).answer = true) (k : ℕ) : ∃ n, k ≤ Board.retired prog mem ins n := by
  induction k with
  | zero => exact ⟨0, Nat.zero_le _⟩
  | succ k ih =>
    obtain ⟨n, hn⟩ := ih
    obtain ⟨m, hm, hv⟩ := enters_again hr hk n
    obtain ⟨t, ht, hs, hx⟩ := moves_again hr hk ha m
    have hret : (Board.stateAt prog mem ins t).retires (ins t) = true := by
      rw [retires_eq (run_calm hr hk t), hs, hx, hv]
      rfl
    refine ⟨t + 1, ?_⟩
    have hmono : Board.retired prog mem ins n ≤ Board.retired prog mem ins t := Nat.count_monotone _ (by omega)
    rw [Board.retired, Nat.count_succ, if_pos hret]
    unfold Board.retired at hn hmono
    omega

end Run

/-! ## Correctness -/

/-- the pipeline does what the interpreter does: the same register writes and data accesses in the same order, every
operand used in EX is the value of the youngest older write, and no trap is taken -/
structure Correct (prog : Program) (mem : DataMem) (ins : ℕ → BoardIn) : Prop where
  sound : ∀ n, ∃ k, Board.log prog mem ins n <+: Isa.log prog mem k
  complete : ∀ k, ∃ n, Isa.log prog mem k <+: Board.log prog mem ins n
  /-- the instruction that enters EX/MEM is the next one of the interpreter, and it has its operands -/
  operands : ∀ n, (Board.stateAt prog mem ins n).issues (ins n) = true →
    (Board.stateAt prog mem ins n).core.idEx.pc = (isa prog mem (Board.issued prog mem ins n)).pc ∧
    (Board.stateAt prog mem ins n).core.idEx.Operands (Board.stateAt prog mem ins n).core.rs1Forwarded
      (Board.stateAt prog mem ins n).core.rs2Forwarded (isa prog mem (Board.issued prog mem ins n))
  noTrap : ∀ n, (Board.stateAt prog mem ins n).core.flushAll ((Board.stateAt prog mem ins n).coreIn (ins n)) = false

section Correct

variable {prog : Program} {mem : DataMem} {ins : ℕ → BoardIn}

theorem correct_of_sound (hr : Isa.Runs prog mem) (ha : ∀ n, ∃ k ≥ n, (ins k).answer = true)
    (hk : ∀ n, SoundAt prog mem ins n) : Correct prog mem ins where
  sound n := by
    obtain ⟨hsim, -, hlog⟩ := run_sim hr n fun k _ => hk k
    refine ⟨Board.retired prog mem ins n + 1, ?_⟩
    rw [hlog, pending]
    apply (List.prefix_append_right_inj _).2
    split_ifs
    · exact List.prefix_append _ _
    · exact List.nil_prefix
  complete k := by
    obtain ⟨n, hn⟩ := retires_again hr hk ha k
    refine ⟨n, ?_⟩
    rw [(run_sim hr n fun k _ => hk k).2.2]
    exact (Isa.log_prefix prog mem hn).trans (List.prefix_append _ _)
  operands n hi := by
    obtain ⟨⟨hb, hf, hl⟩, hiss, -⟩ := run_sim hr n fun k _ => hk k
    have hc := run_calm hr hk n
    rw [issues_eq hc] at hi
    simp only [Bool.and_eq_true, Bool.not_eq_true', loadUse, Bool.or_eq_false_iff] at hi
    rw [hiss]
    refine ⟨?_, operands hb hf hl hi.2 hi.1.2.2⟩
    obtain ⟨r1, r2, h⟩ := hf.idEx hi.2
    rw [h]
    rfl
  noTrap n := (run_calm hr hk n).flushAll

/-- an instruction that waits for a load enters EX/MEM in the next cycle -/
theorem issues_behind_loadUse {b : Board} {i k : BoardIn} {j : ℕ} (hb : Back prog mem b j)
    (hf : Front prog mem b (entered b j)) (hc : Calm b.core (b.coreIn i))
    (hs : b.core.memStall (b.coreIn i) = false) (hu : b.core.loadUse = true) (hv : b.core.idEx.valid = true)
    (hback : Back prog mem (b.step prog i) (entered b j)) (hbase : b.core.idEx.ctrl.Base)
    (hn : (b.step prog i).core.flushAll ((b.step prog i).coreIn k) = false) :
    (b.step prog i).core.idEx = b.core.idEx ∧ (b.step prog i).core.exMem = .bubble ∧
      (b.step prog i).issues k = true := by
  have hbf := (not_branchFlush_of_loadUse hb hf hs hu).1
  have hx : (b.step prog i).core.exMem = .bubble := by simp [step_exMem hc, hs, hu]
  have hd : (b.step prog i).core.idEx = b.core.idEx := by
    change b.core.idExNext (b.coreIn i) = _
    simp [hc.idExNext, hbf, hu]
  refine ⟨hd, hx, ?_⟩
  have hidle := hback.idle
  have hnos := no_stall (i := k) hback (by rw [hx]; rfl)
  have hst : (b.step prog i).core.stallEx ((b.step prog i).coreIn k) = false := by
    simp [Rv32imCore.stallEx, Rv32imCore.stallMem, ctxActive, syscallActive, hidle.ctx, hidle.sys, hidle.halt, hnos.1,
      mextBusy_of_not_calculating (show (b.step prog i).core.muldiv.calculating = false by
        simp [MulDiv.calculating, hidle.muldiv])]
  have hec : (b.step prog i).core.ecallDetected = false := by simp [ecallDetected, hd, hbase.ecall]
  simp [Board.issues, hst, Rv32imCore.flushEx, hnos.2, hn, hidle.ctx, hec, hd, hv]

/-- an operand that was forwarded for the last time is wrong in the next cycle -/
theorem latch_of_operand {b : Board} {i : BoardIn} {j : ℕ} (hb : Back prog mem b j) (hc : Calm b.core (b.coreIn i))
    (hs : b.core.memStall (b.coreIn i) = false) (hx : (b.step prog i).core.exMem = .bubble) {x : RegAddr}
    {latch : Word} (hw : b.core.wbWrites x) (hm : ¬ b.core.memWrites x)
    (ho : (b.step prog i).core.forwarded x latch = (isa prog mem (entered b j)).reg x) :
    latch = b.core.memWb.rdData := by
  rw [← reg_of_wbWrites hb hw, ← reg_entered hb hm, ← ho]
  have hwb : (b.step prog i).core.memWb = b.core.memDone (b.coreIn i) := by rw [step_memWb hc, hs]; rfl
  have hno : ((b.core.memDone (b.coreIn i)).regWrite && (b.core.memDone (b.coreIn i)).rdAddr != 0 &&
      (b.core.memDone (b.coreIn i)).rdAddr == x) = false := by
    by_contra hcon
    simp only [Bool.not_eq_false, Bool.and_eq_true, bne_iff_ne, beq_iff_eq, memDone] at hcon
    exact hm ⟨hcon.1.1.1, hcon.2, hw.2.2⟩
  simp only [forwarded, Hazard.forward, hx, hwb, hno]
  rfl

theorem instrMisalign_of_noTrap {s : Rv32imCore} {i : CoreIn} (hidle : s.Idle) (h : s.flushAll i = false) :
    s.instrMisalign = false := by
  by_contra hc
  have hm : s.instrMisalign = true := by simpa using hc
  have hirq : (s.excIn i).irqCause = none := by simp [ExcIn.irqCause, excIn, hidle.mie]
  have hany : (s.excIn i).anyException = true := by simp [ExcIn.anyException, excIn, hm]
  unfold Rv32imCore.flushAll trap ExcIn.trap at h
  rw [hirq, hany] at h
  cases h

/-- **The pipeline is correct exactly when every cycle is sound**, for every program that runs without traps, every data
memory, and every memory that answers again and again. -/
theorem pipeline_correct_iff (prog : Program) (mem : DataMem) (ins : ℕ → BoardIn) (hr : Isa.Runs prog mem)
    (ha : ∀ n, ∃ k ≥ n, (ins k).answer = true) : Correct prog mem ins ↔ ∀ n, SoundAt prog mem ins n := by
  refine ⟨fun h => ?_, correct_of_sound hr ha⟩
  intro n
  induction n using Nat.strong_induction_on with
  | _ n ih =>
    obtain ⟨⟨hb, hf, hl⟩, hiss, -⟩ := run_sim hr n ih
    -- no trap is taken, so no target is misaligned
    have hmis := instrMisalign_of_noTrap hb.idle (h.noTrap n)
    have hc : Calm (Board.stateAt prog mem ins n).core ((Board.stateAt prog mem ins n).coreIn (ins n)) :=
      calm hr hb hf hl _ fun _ => hmis
    refine ⟨fun hu hs hv => ?_, fun _ => hmis⟩
    have hback := step_back_of_moves hr hb hf hl hc hs
    have hno := h.noTrap (n + 1)
    rw [Board.stateAt_succ] at hno
    obtain ⟨hd, hx, hi⟩ := issues_behind_loadUse hb hf hc hs hu hv hback (idEx_base hr hf hv) hno
    -- the instruction in EX issues in the next cycle, with its operands
    have hcount : Board.issued prog mem ins (n + 1) =
        entered (Board.stateAt prog mem ins n) (Board.retired prog mem ins n) := by
      have hnot : ¬ (Board.stateAt prog mem ins n).issues (ins n) = true := by simp [issues_eq hc, hu]
      rw [Board.issued, Nat.count_succ, if_neg hnot, ← hiss]
      rfl
    have ho := (h.operands (n + 1) (by rw [Board.stateAt_succ]; exact hi)).2
    rw [Board.stateAt_succ, hcount, hd] at ho
    refine ⟨fun h1 hw hm => ?_, fun h2 hw hm => ?_⟩
    · have h1' := ho.rs1 h1
      rw [rs1Forwarded, hd] at h1'
      exact latch_of_operand hb hc hs hx hw hm h1'
    · have h2' := ho.rs2 h2
      rw [rs2Forwarded, hd] at h2'
      exact latch_of_operand hb hc hs hx hw hm h2'

/-- a run without loads is sound -/
theorem sound_of_noLoad (hr : Isa.Runs prog mem)
    (h : ∀ k addr, ((isa prog mem k).effect prog).access ≠ some (.load addr)) (n : ℕ) : SoundAt prog mem ins n := by
  induction n using Nat.strong_induction_on with
  | _ n ih =>
    obtain ⟨⟨hb, -, -⟩, -, -⟩ := run_sim hr n ih
    have hread : (Board.stateAt prog mem ins n).core.exMem.memRead = false := by
      cases hv : (Board.stateAt prog mem ins n).core.exMem.valid with
      | false => exact (hb.bubble hv).1
      | true =>
        by_contra hc
        apply h (Board.retired prog mem ins n) (Board.stateAt prog mem ins n).core.exMem.aluResult
        rw [← (hb.carries hv).access, ExMem.access, if_pos (by simpa using hc)]
    have hu : (Board.stateAt prog mem ins n).core.loadUse = false ∧
        (Board.stateAt prog mem ins n).core.loadUseEx = false := by
      simp [loadUse, loadUseId, loadUseEx, Hazard.loadUse, Hazard.loads, hread]
    exact ⟨fun hc => by simp [hu.1] at hc, fun hc => by simp [hu.2] at hc⟩

theorem runs_of_aligned
    (h : ∀ a, ∃ i, Isa.decode (prog a) = some i ∧ ∀ s : Isa.State, s.pc.toNat % 4 = 0 → i.Aligned s) (mem : DataMem) :
    Isa.Runs prog mem := by
  have hpc (k : ℕ) : (isa prog mem k).pc.toNat % 4 = 0 := by
    induction k with
    | zero => rfl
    | succ k ih =>
      obtain ⟨i, hi, ha⟩ := h ((isa prog mem k).pc.extractLsb' 2 14)
      have he : (isa prog mem k).instr prog = some i := hi
      rw [isa_succ, Isa.State.next, Isa.State.effect, he]
      exact (ha _ ih).1
  intro k
  obtain ⟨i, hi, ha⟩ := h ((isa prog mem k).pc.extractLsb' 2 14)
  exact ⟨i, hi, ha _ (hpc k)⟩

end Correct

def countProgram : Program := fun _ => 0x00108093

def answering (_ : ℕ) : BoardIn := { BoardIn.quiet with answer := true }

theorem countProgram_runs (mem : DataMem) : Isa.Runs countProgram mem := by
  have hd : Isa.decode 0x00108093 = some (.opImm .add 1 1 1) := by decide
  refine runs_of_aligned (fun _ => ⟨.opImm .add 1 1 1, hd, fun s hs => ⟨?_, trivial⟩⟩) mem
  simp only [Isa.Instr.effect]
  bv_omega

theorem pipeline_counts : Correct countProgram (fun _ => 0) answering := by
  refine (pipeline_correct_iff countProgram (fun _ => 0) answering (countProgram_runs _)
    fun n => ⟨n, le_refl n, rfl⟩).2 (sound_of_noLoad (countProgram_runs _) fun k addr => ?_)
  have he : (isa countProgram (fun _ => 0) k).instr countProgram = some (.opImm .add 1 1 1) := by
    change Isa.decode 0x00108093 = _
    decide
  rw [Isa.State.effect, he]
  nofun

/-- a load between an instruction and its use by the next one -/
def lossyProgram : Program := fun a =>
  if a = 0 then 0x00500093 -- addi x1, x0, 5
  else if a = 1 then 0x00002103 -- lw x2, 0(x0)
  else if a = 2 then 0x002081B3 -- add x3, x1, x2
  else 0x00000013

theorem lossyProgram_runs (mem : DataMem) : Isa.Runs lossyProgram mem := by
  have hnop : Isa.decode 0x00000013 = some (.opImm .add 0 0 0) := by decide
  have hadd : Isa.decode 0x002081B3 = some (.op .add 3 1 2) := by decide
  have hload : Isa.decode 0x00002103 = some (.load .word true 2 0 0) := by decide
  have hfirst : Isa.decode 0x00500093 = some (.opImm .add 1 0 5) := by decide
  have hpc (x : Word) (h : x.toNat % 4 = 0) : (x + 4).toNat % 4 = 0 := by bv_omega
  refine runs_of_aligned (fun a => ?_) mem
  unfold lossyProgram
  split_ifs
  · exact ⟨_, hfirst, fun s hs => ⟨hpc _ hs, trivial⟩⟩
  · exact ⟨_, hload, fun s hs => ⟨hpc _ hs, rfl⟩⟩
  · exact ⟨_, hadd, fun s hs => ⟨hpc _ hs, trivial⟩⟩
  · exact ⟨_, hnop, fun s hs => ⟨hpc _ hs, trivial⟩⟩

/-- **An operand is lost behind a load.** `addi x1, x0, 5`, `lw x2, 0(x0)`, `add x3, x1, x2`: the sum is made with the
`x1` from before the `addi`, and 0 instead of 5 is written to `x3`. -/
theorem pipeline_loses_operand :
    Isa.Runs lossyProgram (fun _ => 0) ∧
      Board.log lossyProgram (fun _ => 0) answering 10 = [.write 1 5, .load 0 0, .write 2 0, .write 3 0] ∧
      Isa.log lossyProgram (fun _ => 0) 3 = [.write 1 5, .load 0 0, .write 2 0, .write 3 5] ∧
      ¬ Correct lossyProgram (fun _ => 0) answering := by
  have hlog : Board.log lossyProgram (fun _ => 0) answering 10 = [.write 1 5, .load 0 0, .write 2 0, .write 3 0] := by
    decide +kernel
  have hisa : Isa.log lossyProgram (fun _ => 0) 3 = [.write 1 5, .load 0 0, .write 2 0, .write 3 5] := by
    decide +kernel
  refine ⟨lossyProgram_runs _, hlog, hisa, fun h => ?_⟩
  obtain ⟨k, hk⟩ := h.sound 10
  have h1 := hk.trans (Isa.log_prefix lossyProgram (fun _ => 0) (le_max_right 3 k))
  have h2 := Isa.log_prefix lossyProgram (fun _ => 0) (le_max_left 3 k)
  rw [hlog] at h1
  rw [hisa] at h2
  exact absurd (List.prefix_of_prefix_length_le h1 h2 (by decide)) (by decide)

end Vsync.Lockstep
