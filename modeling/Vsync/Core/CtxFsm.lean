/-
The context FSM of the core, in any run of it.

- `flush_of_accepts`, `saveRegs_run`, `savePc_of_accepts`: a switch up to `CTX_SAVE_PC`, cycle by cycle.
- `active_of_accepts`: the FSM does not rest in it.
- `save_port`: what the save port shows.
-/
import Vsync.Core.Rv32imCore
import Vsync.Rtos.Transaction

namespace Vsync

namespace Rv32imCore

/-! ## A switch -/

/-- the core `c n` before cycle `n` reads `i n` in it -/
def Runs (c : ℕ → Rv32imCore) (i : ℕ → CoreIn) : Prop := ∀ n, c (n + 1) = (c n).step (i n)

def AcceptsSwitch (s : Rv32imCore) (i : CoreIn) : Prop :=
  s.ctxState = .idle ∧ i.ctxSwitchReq = true ∧ s.sysState = .idle

section Switch

variable {c : ℕ → Rv32imCore} {i : ℕ → CoreIn} {t : ℕ}

theorem flush_of_accepts (hc : Runs c i) (h : (c t).AcceptsSwitch (i t)) : (c (t + 1)).ctxState = .flush := by
  obtain ⟨h1, h2, h3⟩ := h
  rw [hc]
  change (c t).ctxNext (i t) = .flush
  simp [ctxNext, h1, h2, syscallActive, h3]

theorem saveRegs_run (hc : Runs c i) (h : (c t).AcceptsSwitch (i t)) (n : ℕ) (hn : n < 32) :
    (c (t + 2 + n)).ctxState = .saveRegs ∧ (c (t + 2 + n)).ctxRegCounter = BitVec.ofNat 5 n := by
  induction n with
  | zero =>
    have hf := flush_of_accepts hc h
    rw [Nat.add_zero, hc]
    constructor
    · change (c (t + 1)).ctxNext _ = _
      simp [ctxNext, hf]
    · change (c (t + 1)).ctxRegCounterNext _ = _
      simp [ctxRegCounterNext, hf]
  | succ n ih =>
    obtain ⟨h1, h2⟩ := ih (by omega)
    have hne : BitVec.ofNat 5 n ≠ 31#5 := ofNat_ne_last (by omega)
    rw [← Nat.add_assoc, hc]
    constructor
    · change (c (t + 2 + n)).ctxNext _ = _
      simp [ctxNext, h1, h2, hne]
    · change (c (t + 2 + n)).ctxRegCounterNext _ = _
      simp [ctxRegCounterNext, h1, h2, hne, BitVec.ofNat_add]

theorem savePc_of_accepts (hc : Runs c i) (h : (c t).AcceptsSwitch (i t)) : (c (t + 34)).ctxState = .savePc := by
  obtain ⟨h1, h2⟩ := saveRegs_run hc h 31 (by omega)
  rw [show t + 34 = t + 2 + 31 + 1 by omega, hc]
  change (c (t + 2 + 31)).ctxNext _ = _
  simp [ctxNext, h1, h2]

/-- **The FSM does not rest** from the flush up to `CTX_SAVE_PC`. -/
theorem active_of_accepts (hc : Runs c i) (h : (c t).AcceptsSwitch (i t)) {m : ℕ} (h1 : t < m) (h2 : m ≤ t + 34) :
    (c m).ctxState ≠ .idle := by
  rcases Nat.lt_or_ge m (t + 2) with hm | hm
  · obtain rfl : m = t + 1 := by omega
    rw [flush_of_accepts hc h]
    decide
  · rcases Nat.lt_or_ge m (t + 34) with hm' | hm'
    · have := (saveRegs_run hc h (m - (t + 2)) (by omega)).1
      rw [show t + 2 + (m - (t + 2)) = m by omega] at this
      rw [this]
      decide
    · obtain rfl : m = t + 34 := by omega
      rw [savePc_of_accepts hc h]
      decide

/-! ## The registers during the save -/

/-- nothing in the core is about to write a register -/
structure Still (s : Rv32imCore) : Prop where
  idEx : s.idEx.valid = false
  memWb : s.memWb.writes = false
  sys : s.sysState = .idle

theorem still_of_flush (hc : Runs c i) (h : (c t).AcceptsSwitch (i t)) (hsys : (c (t + 2)).sysState = .idle) :
    Still (c (t + 2)) := by
  have hf := flush_of_accepts hc h
  refine ⟨?_, ?_, hsys⟩
  · rw [show t + 2 = t + 1 + 1 from rfl, hc]
    change ((c (t + 1)).idExNext (i (t + 1))).valid = false
    simp [idExNext, flushId, hf, IdEx.bubble]
  · rw [show t + 2 = t + 1 + 1 from rfl, hc]
    change ((c (t + 1)).memWbNext (i (t + 1))).writes = false
    simp [memWbNext, flushMem, hf, MemWb.bubble, MemWb.writes]

/-- a cycle of the save writes no register -/
theorem step_still {s : Rv32imCore} (j : CoreIn) (h : Still s) (hctx : s.ctxState = .saveRegs) :
    Still (s.step j) ∧ s.writePort j = none := by
  have hmem : s.stallMem j = true := by simp [stallMem, ctxActive, hctx]
  have hid : s.stallId j = true := by simp [stallId, stallEx, hmem]
  refine ⟨⟨?_, ?_, ?_⟩, ?_⟩
  · change (s.idExNext j).valid = false
    rw [idExNext, hid]
    cases s.flushId j <;> simp [h.idEx, IdEx.bubble]
  · change (s.memWbNext j).writes = false
    rw [memWbNext, hmem]
    cases s.flushMem j
    · simpa using h.memWb
    · simp [MemWb.bubble, MemWb.writes]
  · change s.sysNext j = .idle
    simp [sysNext, h.sys, ecallDetected, h.idEx]
  · simp [writePort, hctx, h.sys, h.memWb]

theorem still_run (hc : Runs c i) (h : (c t).AcceptsSwitch (i t)) (hsys : (c (t + 2)).sysState = .idle) (n : ℕ)
    (hn : n < 32) : Still (c (t + 2 + n)) ∧ (c (t + 2 + n)).regs = (c (t + 2)).regs := by
  induction n with
  | zero => exact ⟨still_of_flush hc h hsys, rfl⟩
  | succ n ih =>
    obtain ⟨h1, h2⟩ := ih (by omega)
    obtain ⟨h3, h4⟩ := step_still (i (t + 2 + n)) h1 (saveRegs_run hc h n (by omega)).1
    rw [← Nat.add_assoc, hc]
    refine ⟨h3, ?_⟩
    change (c (t + 2 + n)).regsNext (i (t + 2 + n)) = _
    rw [regsNext, h4]
    exact h2

/-- **The save port shows `x n`** in the cycle `n` of the save. -/
theorem save_port (hc : Runs c i) (h : (c t).AcceptsSwitch (i t)) (hsys : (c (t + 2)).sysState = .idle) (n : ℕ)
    (hn : n < 32) : (c (t + 2 + n)).readPort (i (t + 2 + n)) ((c (t + 2 + n)).rfRs1Addr (i (t + 2 + n))) =
      if n = 0 then 0 else (c (t + 2)).regs (BitVec.ofNat 5 n) := by
  obtain ⟨h1, h2⟩ := saveRegs_run hc h n hn
  obtain ⟨h3, h4⟩ := still_run hc h hsys n hn
  have hzero : BitVec.ofNat 5 n = 0#5 ↔ n = 0 := by
    constructor
    · intro hz
      have := congrArg BitVec.toNat hz
      simp only [BitVec.toNat_ofNat] at this
      change n % 32 = 0 at this
      omega
    · rintro rfl
      rfl
  rw [rfRs1Addr, if_pos h1, h2, readPort, (step_still (i (t + 2 + n)) h3 h1).2, h4]
  by_cases hz : n = 0
  · rw [if_pos hz]
    exact if_pos (hzero.2 hz)
  · rw [if_neg hz]
    exact if_neg fun hc => hz (hzero.1 hc)

end Switch

end Rv32imCore

end Vsync
