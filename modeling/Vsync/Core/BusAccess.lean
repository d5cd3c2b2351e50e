/-
The bus accesses of loads and stores.

The command lines are levels from EX/MEM: an access that has been answered and is still there is requested again.

- `accepted_soon`: an aligned access in EX/MEM is taken by the free bus within three cycles.
- `one_access_iff`: an access is taken once exactly when no syscall is in progress in the cycle of its answer.
- `load_repeats`: a load before an `ecall`, which is taken twice.
-/
import Vsync.Core.Misaligned
import Vsync.Core.Order

namespace Vsync

def ExMem.command (m : ExMem) : BusCmd where
  read := m.memRead
  write := m.memWrite
  addr := m.aluResult
  wdata := if m.memWrite then MemoryStage.storeData m.memFunct3 m.aluResult m.rs2Data else 0
  strobe := if m.memWrite then MemoryStage.byteEnable m.memFunct3 m.aluResult else 0

namespace Ledger

/-! ## The stay of an access in EX/MEM -/

section Run

variable (prog : Program) (mem : DataMem) (ins : ℕ → BoardIn)

/-- an aligned access enters EX/MEM, where it is in cycle `a` -/
def Enters (a : ℕ) : Prop :=
  ((stateAt prog mem ins a).exMem.isAccess = true ∧ ¬ (stateAt prog mem ins a).Misaligned) ∧
    ∃ n, a = n + 1 ∧ (stateAt prog mem ins n).stallEx (ins n) = false

/-- the access that is in EX/MEM from cycle `a` on is taken by the bus in cycle `c` -/
def TakenAt (a c : ℕ) : Prop := InMem prog mem ins a c ∧ (stateAt prog mem ins c).accepts (ins c) = true

/-- the access of cycle `a` is taken once, as the instruction has it, and a load writes what the bus returned for it -/
structure OneAccess (a : ℕ) : Prop where
  once : ∃! c, TakenAt prog mem ins a c
  command : ∀ c, TakenAt prog mem ins a c →
    (stateAt prog mem ins c).board.cmd (ins c) = (stateAt prog mem ins a).exMem.command
  loaded : ∀ c e, TakenAt prog mem ins a c → InMem prog mem ins a e → (stateAt prog mem ins e).stallEx (ins e) = false →
    (stateAt prog mem ins e).flushMem (ins e) = false → (stateAt prog mem ins a).exMem.memRead = true →
    (stateAt prog mem ins a).exMem.rdAddr ≠ 0#5 →
    (stateAt prog mem ins (e + 2)).core.regs (stateAt prog mem ins a).exMem.rdAddr =
      MemoryStage.loadData (stateAt prog mem ins a).exMem.memFunct3 (stateAt prog mem ins a).exMem.aluResult
        (stateAt prog mem ins (c + 1)).board.bus.rdata

variable {prog mem ins} {a : ℕ}

theorem Enters.isAccess (h : Enters prog mem ins a) {k : ℕ} (hk : InMem prog mem ins a k) :
    (stateAt prog mem ins k).exMem.isAccess = true := by
  rw [hk.exMem]
  exact h.1.1

theorem Enters.aligned (h : Enters prog mem ins a) {k : ℕ} (hk : InMem prog mem ins a k) :
    ¬ (stateAt prog mem ins k).Misaligned := fun hm => h.1.2 (hm.of_exMem hk.exMem.symm)

theorem Enters.stays (h : Enters prog mem ins a) {k : ℕ} (hk : InMem prog mem ins a k)
    (hb : (stateAt prog mem ins k).board.bus.busy = false) : InMem prog mem ins a (k + 1) :=
  hk.succ (stallEx_of_unanswered (h.isAccess hk) (Or.inr hb))

theorem busy_of_not_accepts {w : Ledger} {i : BoardIn} (prog : Program) (hb : w.board.bus.busy = false)
    (hn : w.accepts i = false) : (step prog w i).board.bus.busy = false := by
  rw [step_busy, hb, hn]
  rfl

theorem flushAll_of_not_accepts {k : ℕ} (h : Enters prog mem ins a) (hk : InMem prog mem ins a k)
    (hb : (stateAt prog mem ins k).board.bus.busy = false)
    (hn : (stateAt prog mem ins k).accepts (ins k) = false) :
    (stateAt prog mem ins k).core.flushAll ((stateAt prog mem ins k).coreIn (ins k)) = true := by
  by_contra hf
  have hc : (stateAt prog mem ins k).core.ctxState = .idle := (plain prog mem ins k).1
  have hfm : (stateAt prog mem ins k).flushMem (ins k) = false := by
    simp [flushMem, Rv32imCore.flushMem, Bool.eq_false_of_not_eq_true hf, hc]
  have := accepts_of_access (h.isAccess hk) hb (Or.inr hfm)
  simp [hn] at this

/-- **An aligned access is taken by the free bus.** A trap may keep a store from it, and an interrupt behind an `mret`
once more; then the gate is closed and EX is empty. -/
theorem accepted_soon {k : ℕ} (h : Enters prog mem ins a) (hk : InMem prog mem ins a k)
    (hb : (stateAt prog mem ins k).board.bus.busy = false) : ∃ c ≥ k, TakenAt prog mem ins a c := by
  by_contra hno
  have hnot (j : ℕ) (hj : k ≤ j) (hin : InMem prog mem ins a j) :
      (stateAt prog mem ins j).accepts (ins j) = false := by
    by_contra hc
    exact hno ⟨j, hj, hin, Bool.eq_true_of_not_eq_false hc⟩
  have hn0 := hnot k (le_refl k) hk
  have hk1 := h.stays hk hb
  have hb1 : (stateAt prog mem ins (k + 1)).board.bus.busy = false := busy_of_not_accepts prog hb hn0
  have hn1 := hnot (k + 1) (by omega) hk1
  have hk2 := h.stays hk1 hb1
  have hb2 : (stateAt prog mem ins (k + 2)).board.bus.busy = false := busy_of_not_accepts prog hb1 hn1
  have hn2 := hnot (k + 2) (by omega) hk2
  have hid1 : (stateAt prog mem ins (k + 1)).core.idEx.valid = false :=
    (restarts_of_flushAll (flushAll_of_not_accepts h hk hb hn0)).2.2.2
  have hf1 := flushAll_of_not_accepts h hk1 hb1 hn1
  have hid2 : (stateAt prog mem ins (k + 2)).core.idEx.valid = false := (restarts_of_flushAll hf1).2.2.2
  have hirq1 := interrupted_of_flushAll hid1 (h.aligned hk1) hf1
  have hmie : (stateAt prog mem ins (k + 2)).core.csr.mstatusMie = false := (hirq1.step_csr prog).2
  have hirq2 := interrupted_of_flushAll hid2 (h.aligned hk2) (flushAll_of_not_accepts h hk2 hb2 hn2)
  exact noIrq_iff.1 (irqCause_of_mie hmie) hirq2

theorem InMem.pred {k : ℕ} (h : InMem prog mem ins a (k + 1)) (hk : a ≤ k) :
    InMem prog mem ins a k ∧ (stateAt prog mem ins k).stallEx (ins k) = true :=
  ⟨⟨hk, fun j h1 h2 => h.2 j h1 (by omega)⟩, h.2 k hk (Nat.lt_succ_self k)⟩

theorem TakenAt.busy {c : ℕ} (h : TakenAt prog mem ins a c) :
    (stateAt prog mem ins c).board.bus.busy = false ∧ (stateAt prog mem ins (c + 1)).board.bus.busy = true := by
  have hb := (isAccess_of_accepts h.2).2
  refine ⟨hb, ?_⟩
  rw [stateAt_succ, step_busy, hb]
  exact h.2

/-- no syscall is in progress in a cycle in which the bus answers the access of cycle `a` -/
def AnsweredIdle (prog : Program) (mem : DataMem) (ins : ℕ → BoardIn) (a : ℕ) : Prop :=
  ∀ k, InMem prog mem ins a k → (stateAt prog mem ins k).board.bus.done (ins k).answer = true →
    (stateAt prog mem ins k).core.sysState = .idle

/-- an answer behind which the access stays would come in a syscall -/
theorem not_done_of_held (hidle : AnsweredIdle prog mem ins a) {k : ℕ} (hk : InMem prog mem ins a k)
    (hst : (stateAt prog mem ins k).stallEx (ins k) = true) :
    (stateAt prog mem ins k).board.bus.done (ins k).answer = false := by
  by_contra hd
  have hd := Bool.eq_true_of_not_eq_false hd
  have hsys := hidle k hk hd
  rw [stallEx_of_answered (plain prog mem ins k) (busInv prog mem ins k) (accesses prog mem ins k) hd,
    Rv32imCore.syscallActive, hsys] at hst
  exact absurd hst (by decide)

/-- the bus is busy with the access, and keeps its data, until the access leaves -/
theorem busy_run (hidle : AnsweredIdle prog mem ins a) {c j : ℕ} (hc : TakenAt prog mem ins a c) (hj : c < j)
    (hin : InMem prog mem ins a j) : (stateAt prog mem ins j).board.bus.busy = true ∧
      (stateAt prog mem ins j).board.bus.rdata = (stateAt prog mem ins (c + 1)).board.bus.rdata := by
  induction j, hj using Nat.le_induction with
  | base => exact ⟨hc.busy.2, rfl⟩
  | succ j hj ih =>
    obtain ⟨hk, hst⟩ := hin.pred (by have := hc.1.1; omega)
    obtain ⟨hb, hr⟩ := ih hk
    have hd := not_done_of_held hidle hk hst
    have hans : (ins j).answer = false := by simpa [DataBus.done, hb] using hd
    have hbus : (stateAt prog mem ins (j + 1)).board.bus = (stateAt prog mem ins j).board.bus := by
      change (stateAt prog mem ins j).board.bus.step _ (ins j).answer = _
      simp [DataBus.step, hb, hans]
    rw [hbus]
    exact ⟨hb, hr⟩

theorem busy_of_not_taken (h : Enters prog mem ins a) {k : ℕ} (hk : InMem prog mem ins a k)
    (hno : ∀ c < k, ¬ TakenAt prog mem ins a c) : (stateAt prog mem ins k).board.bus.busy = false := by
  obtain ⟨hak, hheld⟩ := hk
  induction k, hak using Nat.le_induction with
  | base =>
    obtain ⟨-, n, rfl, hst⟩ := h
    exact (step_entered prog (busInv prog mem ins n) hst).2
  | succ k hak ih =>
    obtain ⟨hin, -⟩ := InMem.pred ⟨Nat.le_succ_of_le hak, hheld⟩ hak
    have hb := ih (fun c hc => hno c (by omega)) hin.2
    have hn : (stateAt prog mem ins k).accepts (ins k) = false := by
      by_contra hacc
      exact hno k (Nat.lt_succ_self k) ⟨hin, Bool.eq_true_of_not_eq_false hacc⟩
    exact busy_of_not_accepts prog hb hn

theorem command_of_taken (h : Enters prog mem ins a) {c : ℕ} (hc : TakenAt prog mem ins a c) :
    (stateAt prog mem ins c).board.cmd (ins c) = (stateAt prog mem ins a).exMem.command := by
  have hx := hc.1.exMem
  have hv : (stateAt prog mem ins c).exMem.valid = true := by
    have := h.isAccess hc.1
    simp only [ExMem.isAccess, Bool.and_eq_true] at this
    exact this.2
  have hload := (accesses prog mem ins c).load
  have hacc := hc.2
  rw [← hx]
  generalize stateAt prog mem ins c = w at *
  have hv' : w.board.core.exMem.valid = true := hv
  have hload' : w.board.core.exMem.memRead = true → w.board.core.exMem.memWrite = false := fun hr => (hload hr).1
  simp only [accepts, DataBus.accepts, Board.cmd, Rv32imCore.memRead, Rv32imCore.memWrite, hv', Bool.and_true,
    Bool.and_eq_true, Bool.or_eq_true] at hacc
  simp only [Board.cmd, ExMem.command, exMem, Rv32imCore.memRead, Rv32imCore.memWrite, Rv32imCore.memWdata,
    Rv32imCore.memBe, hv', Bool.and_true, BusCmd.mk.injEq, true_and]
  rcases hacc.2 with hr | hr
  · simp [hload' hr]
  · simp [hr.1, hr.2]

/-- the access leaves behind the cycle in which it is taken -/
theorem lt_of_leaves {c e : ℕ} (h : Enters prog mem ins a) (hc : TakenAt prog mem ins a c) (he : InMem prog mem ins a e)
    (hst : (stateAt prog mem ins e).stallEx (ins e) = false) : c < e := by
  rcases Nat.lt_trichotomy c e with hlt | rfl | hlt
  · exact hlt
  · have := stallEx_of_unanswered (h.isAccess he) (Or.inr hc.busy.1) (i := ins c)
    simp [hst] at this
  · have := hc.1.2 e he.1 hlt
    simp [hst] at this

/-- a load that enters WB writes the data of the word that the bus holds -/
theorem loaded_of_leaves {e : ℕ} (he : InMem prog mem ins a e)
    (hst : (stateAt prog mem ins e).stallEx (ins e) = false) (hf : (stateAt prog mem ins e).flushMem (ins e) = false)
    (hr : (stateAt prog mem ins a).exMem.memRead = true) (hv : (stateAt prog mem ins a).exMem.valid = true)
    (hrd : (stateAt prog mem ins a).exMem.rdAddr ≠ 0#5) :
    (stateAt prog mem ins (e + 2)).core.regs (stateAt prog mem ins a).exMem.rdAddr =
      MemoryStage.loadData (stateAt prog mem ins a).exMem.memFunct3 (stateAt prog mem ins a).exMem.aluResult
        (stateAt prog mem ins e).board.bus.rdata := by
  rw [← he.exMem] at hr hv hrd ⊢
  obtain ⟨-, hreg, hsel⟩ := (accesses prog mem ins e).load hr
  have hent : (stateAt prog mem ins e).entersWb (ins e) = true := by simp [entersWb, hf, stallMem_of_moves hst]
  have hw : (stateAt prog mem ins e).exMem.isWrite = true := by simp [ExMem.isWrite, hreg, hv, hrd]
  rw [stateAt_succ, stateAt_succ, written_of_enters (plain prog mem ins e) hent hw]
  generalize stateAt prog mem ins e = w at *
  have hsel' : w.core.exMem.wbSel = 0b01#2 := hsel
  simp only [MemWb.rdData, Rv32imCore.memDone, hsel']
  rfl

/-- **An access is taken once exactly when** no syscall is in progress in a cycle in which the bus answers it. -/
theorem one_access_iff (prog : Program) (mem : DataMem) (ins : ℕ → BoardIn) (a : ℕ) (h : Enters prog mem ins a) :
    OneAccess prog mem ins a ↔ AnsweredIdle prog mem ins a := by
  constructor
  · intro hone k hk hd
    obtain ⟨c, -, huniq⟩ := hone.once
    by_contra hsys
    have hst : (stateAt prog mem ins k).stallEx (ins k) = true := by
      rw [stallEx_of_answered (plain prog mem ins k) (busInv prog mem ins k) (accesses prog mem ins k) hd]
      simp [Rv32imCore.syscallActive, hsys]
    simp only [DataBus.done, Bool.and_eq_true] at hd
    have hfree : (stateAt prog mem ins (k + 1)).board.bus.busy = false := by
      rw [stateAt_succ, step_busy, hd.1, hd.2]
      rfl
    -- it is taken again, so it was not taken before
    obtain ⟨c', hc', htaken⟩ := accepted_soon h (hk.succ hst) hfree
    have hcc := huniq c' htaken
    have hbusy := busy_of_not_taken h hk fun j hj hjt => by
      have := huniq j hjt
      omega
    simp [hbusy] at hd
  · intro hidle
    have hfirst := busy_of_not_taken h (InMem.first a) fun j hj hjt => by
      have := hjt.1.1
      omega
    obtain ⟨c, -, hc⟩ := accepted_soon h (InMem.first a) hfirst
    refine ⟨⟨c, hc, fun c' hc' => ?_⟩, fun c' hc' => command_of_taken h hc', ?_⟩
    · rcases Nat.lt_trichotomy c c' with hlt | heq | hlt
      · have := (busy_run hidle hc hlt hc'.1).1
        simp [hc'.busy.1] at this
      · exact heq.symm
      · have := (busy_run hidle hc' hlt hc.1).1
        simp [hc.busy.1] at this
    · intro c' e hc' he hst hf hr hrd
      have hv : (stateAt prog mem ins a).exMem.valid = true := by
        have := h.1.1
        simp only [ExMem.isAccess, Bool.and_eq_true] at this
        exact this.2
      rw [loaded_of_leaves he hst hf hr hv hrd, (busy_run hidle hc' (lt_of_leaves h hc' he hst) he).2]

end Run

/-- `lw x1, 0(x0)`, and `ecall` behind it -/
def loadEcall : Program := fun a =>
  if a = 0 then 0x00002083
  else if a = 1 then 0x00000073
  else 0x00000013

/-- the memory answers from cycle `d` on, and the syscalls are done at once -/
def answerRun (d k : ℕ) : BoardIn := ⟨decide (d ≤ k), .none, some 0, false⟩

/-- the load is taken once when its answer waits for the end of the syscall in cycle 11 -/
theorem load_once : OneAccess loadEcall (fun _ => 0) (answerRun 11) 4 := by
  apply (one_access_iff loadEcall (fun _ => 0) (answerRun 11) 4
    ⟨⟨by decide +kernel, by decide +kernel⟩, 3, rfl, by decide +kernel⟩).2
  intro k hk hd
  have hge : 11 ≤ k := by
    simp only [DataBus.done, answerRun, Bool.and_eq_true, decide_eq_true_eq] at hd
    exact hd.2
  have hgo : (stateAt loadEcall (fun _ => 0) (answerRun 11) 11).stallEx (answerRun 11 11) = false := by decide +kernel
  have hle : k ≤ 11 := by
    by_contra hlt
    exact absurd (hgo.symm.trans (hk.2 11 (by decide) (by omega))) (by decide)
  obtain rfl : k = 11 := by omega
  decide +kernel

/-- **A load before an `ecall` is taken twice.** It enters MEM in cycle 4, where the bus takes it; the answer comes in
cycle 5, in the syscall of the `ecall` behind it, and in cycle 6 the bus takes it again. -/
theorem load_repeats :
    Enters loadEcall (fun _ => 0) (answerRun 0) 4 ∧ TakenAt loadEcall (fun _ => 0) (answerRun 0) 4 4 ∧
      TakenAt loadEcall (fun _ => 0) (answerRun 0) 4 6 ∧ ¬ OneAccess loadEcall (fun _ => 0) (answerRun 0) 4 := by
  have h4 : TakenAt loadEcall (fun _ => 0) (answerRun 0) 4 4 := ⟨InMem.first 4, by decide +kernel⟩
  have h6 : TakenAt loadEcall (fun _ => 0) (answerRun 0) 4 6 := by
    refine ⟨⟨by decide, fun j h1 h2 => ?_⟩, by decide +kernel⟩
    interval_cases j <;> decide +kernel
  refine ⟨⟨⟨by decide +kernel, by decide +kernel⟩, 3, rfl, by decide +kernel⟩, h4, h6, fun h => ?_⟩
  obtain ⟨c, -, huniq⟩ := h.once
  have e4 := huniq 4 h4
  have e6 := huniq 6 h6
  omega

end Ledger

end Vsync
