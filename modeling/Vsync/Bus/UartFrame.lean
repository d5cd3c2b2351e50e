/-
One frame of `uart_apb` with `uart_tx` wired to `uart_rx`: a byte `b` at a divisor `d`, `t` cycles after the start
state.

- `Sending`: the transmitter spends `d` cycles on each of the ten bits; `level` is its line.
- `Receiving`: the receiver in the cycle `c` of its tick `j`, with the bits it has sampled by then. Sixteen ticks take
  `d` cycles whatever the divisor, so the samples meet the first cycle of each bit.
- `Quiet`, `Frame`: both between frames, and both in one; `quiet_step`, `frame_step`: one cycle.
-/
import Vsync.FracTicks
import Vsync.Bus.Uart

namespace Vsync

open FracTicks

/-! ## The line -/

/-- the bits of a frame: the start bit, the data, then the line stays up -/
def frameBit (b : BitVec 8) : ℕ → Bool
  | 0 => false
  | k + 1 => if k < 8 then b.getLsbD k else true

/-- `uart_tx` after `t` cycles; it lags the state by one -/
def level (b : BitVec 8) (d t : ℕ) : Bool := if t = 0 then true else frameBit b ((t - 1) / d)

theorem level_succ (b : BitVec 8) (d t : ℕ) : level b d (t + 1) = frameBit b (t / d) := rfl

theorem frameBit_stop (b : BitVec 8) {k : ℕ} (hk : 9 ≤ k) : frameBit b k = true := by
  obtain ⟨k, rfl⟩ : ∃ l, k = l + 1 := ⟨k - 1, by omega⟩
  simp only [frameBit]
  rw [if_neg (by omega)]

/-- from the stop bit on -/
theorem level_high (b : BitVec 8) {d t : ℕ} (hd : 0 < d) (ht : 9 * d < t) : level b d t = true := by
  obtain ⟨t, rfl⟩ : ∃ l, t = l + 1 := ⟨t - 1, by omega⟩
  rw [level_succ]
  exact frameBit_stop b ((Nat.le_div_iff_mul_le hd).2 (by omega))

/-! ## The transmitter -/

namespace TxState

/-- the states of a frame -/
def stage : ℕ → TxState
  | 0 => .start
  | k + 1 => if h : k < 8 then .data ⟨k, h⟩ else .stop

/-- the state that follows at a tick -/
def after : TxState → TxState
  | .idle => .idle
  | .start => .data 0
  | .data k => if k = 7 then .stop else .data (k + 1)
  | .stop => .idle

theorem stage_ne_idle (q : ℕ) : stage q ≠ .idle := by
  cases q with
  | zero => simp [stage]
  | succ k =>
    simp only [stage]
    split_ifs <;> simp

theorem after_stage {q : ℕ} (hq : q < 9) : (stage q).after = stage (q + 1) := by
  revert q
  decide

end TxState

/-- `t` cycles into the frame of `b` -/
structure Sending (b : BitVec 8) (d t : ℕ) (x : UartTx) : Prop where
  state : x.state = .stage (t / d)
  baudCnt : x.baudCnt.toNat = t % d
  shiftReg : x.shiftReg = b

section Transmitter

variable {x : UartTx} {c : UartCtrl} {i : UartIn} {b : BitVec 8} {d t : ℕ}

theorem UartTx.tick_iff (hs : x.state ≠ .idle) (hc : c.baudDiv.toNat = d) (hd : 0 < d) :
    x.tick c = true ↔ x.baudCnt.toNat + 1 = d := by
  have hsub : (c.baudDiv - 1).toNat + 1 = d := by bv_omega
  rw [UartTx.tick, bne_iff_ne.2 hs, Bool.true_and, beq_iff_eq, ← BitVec.toNat_inj]
  omega

/-- a frame goes on at each tick -/
theorem UartTx.stateNext_eq (hs : x.state ≠ .idle) : x.stateNext c = if x.tick c then x.state.after else x.state := by
  cases h : x.state with
  | idle => exact absurd h hs
  | start => simp [UartTx.stateNext, h, TxState.after]
  | data k => simp [UartTx.stateNext, h, TxState.after]
  | stop => simp [UartTx.stateNext, h, TxState.after]

theorem UartTx.not_pop (hs : x.state ≠ .idle) : x.pop c = false := by simp [UartTx.pop, hs]

theorem UartTx.sending_of_pop (hpop : x.pop c = true) : Sending x.fifo.head d 0 (x.step c i) := by
  have hidle : x.state = .idle := by
    simp only [UartTx.pop, Bool.and_eq_true, beq_iff_eq] at hpop
    exact hpop.1.1
  refine ⟨?_, ?_, ?_⟩
  · simp [UartTx.step, UartTx.stateNext, hidle, hpop, TxState.stage]
  · simp [UartTx.step, hidle]
  · simp [UartTx.step, hpop]

namespace Sending

theorem not_idle (h : Sending b d t x) : x.state ≠ .idle := by
  rw [h.state]
  exact TxState.stage_ne_idle _

theorem line (h : Sending b d t x) : (x.step c i).line = level b d (t + 1) := by
  rw [level_succ]
  simp only [UartTx.step, h.state, h.shiftReg]
  cases t / d with
  | zero => rfl
  | succ k =>
    simp only [TxState.stage, frameBit]
    split_ifs <;> rfl

/-- within the frame -/
theorem step (h : Sending b d t x) (hc : c.baudDiv.toNat = d) (hd : 0 < d) (ht : t + 1 < 10 * d) :
    Sending b d (t + 1) (x.step c i) := by
  have hlt := Nat.mod_lt t hd
  have hcnt := h.baudCnt
  have hsub : (c.baudDiv - 1).toNat + 1 = d := by bv_omega
  have htick := UartTx.tick_iff h.not_idle hc hd
  refine ⟨?_, ?_, ?_⟩
  · change x.stateNext c = _
    rw [UartTx.stateNext_eq h.not_idle]
    by_cases hlast : t % d + 1 = d
    · rw [if_pos (htick.2 (by omega)), h.state, (div_succ_of_last hlast).1]
      refine TxState.after_stage ?_
      have hq : t / d + 1 < 10 := by
        rw [← (div_succ_of_last hlast).1]
        exact (Nat.div_lt_iff_lt_mul hd).2 ht
      omega
    · rw [if_neg (fun h => hlast (by have := htick.1 h; omega)), h.state, (div_succ_of_not_last hd hlast).1]
  · simp only [UartTx.step, if_neg h.not_idle, BitVec.ule_iff_le, BitVec.le_def]
    by_cases hlast : t % d + 1 = d
    · rw [if_pos (by omega), (div_succ_of_last hlast).2]
      rfl
    · rw [if_neg (by omega), (div_succ_of_not_last hd hlast).2, ← hcnt]
      bv_omega
  · simp [UartTx.step, UartTx.not_pop h.not_idle, h.shiftReg]

theorem step_last (h : Sending b d t x) (hc : c.baudDiv.toNat = d) (hd : 0 < d) (ht : t + 1 = 10 * d) :
    (x.step c i).state = .idle := by
  have hdiv : t / d = 9 := by
    rw [Nat.div_eq_iff hd]
    omega
  have hmod : t % d + 1 = d := by
    have := Nat.div_add_mod t d
    rw [hdiv] at this
    omega
  have htick := (UartTx.tick_iff h.not_idle hc hd).2 (by rw [h.baudCnt, hmod])
  change x.stateNext c = _
  rw [UartTx.stateNext_eq h.not_idle, if_pos htick, h.state, hdiv]
  rfl

end Sending

end Transmitter

/-! ## The receiver -/

namespace RxState

/-- the states of a frame, by the ticks that have passed -/
def stage (j : ℕ) : RxState :=
  if j < 8 then .startDet else if j < 136 then .sample (Fin.ofNat 8 ((j - 8) / 16)) else .stopCheck

theorem stage_ne_idle (j : ℕ) : stage j ≠ .idle := by
  unfold stage
  split_ifs <;> simp

theorem stage_startDet {j : ℕ} (hj : j < 8) : stage j = .startDet := if_pos hj

theorem stage_sample {j : ℕ} (h8 : 8 ≤ j) (hj : j < 136) : stage j = .sample (Fin.ofNat 8 ((j - 8) / 16)) := by
  rw [stage, if_neg (by omega), if_pos hj]

theorem stage_stopCheck {j : ℕ} (hj : 136 ≤ j) : stage j = .stopCheck := by
  rw [stage, if_neg (by omega), if_neg (by omega)]

end RxState

/-- the sample counter behind tick `j`: it starts anew in the middle of the start bit -/
def sampleCount (j : ℕ) : ℕ := if j < 8 then j else (j + 8) % 16

/-- `j` ticks and `k` cycles into the frame of `b` -/
structure Receiving (b : BitVec 8) (d j k : ℕ) (r : UartRx) : Prop where
  state : r.state = .stage j
  baudCnt : r.baudCnt.toNat = k
  fracAcc : r.fracAcc.toNat = phase d 16 j
  sampleCnt : r.sampleCnt.toNat = sampleCount j
  bits : ∀ l < j / 16, r.shiftReg.getLsbD l = b.getLsbD l

/-- the ticks of a middle of a bit -/
theorem sampleCount_mid {j : ℕ} (h8 : 8 ≤ j) : sampleCount j = 7 ↔ (j + 1) % 16 = 0 := by
  rw [sampleCount, if_neg (by omega)]
  omega

section Receiver

variable {r : UartRx} {c : UartCtrl} {i : UartIn} {b : BitVec 8} {d j k : ℕ}

theorem UartRx.fracSum_toNat (hc : c.baudDiv.toNat = d) : (r.fracSum c).toNat = r.fracAcc.toNat + d % 16 := by
  have hfrac : (c.baudDiv.extractLsb' 0 4).toNat = d % 16 := by
    rw [BitVec.extractLsb'_toNat, Nat.shiftRight_zero, hc]
  have hacc := r.fracAcc.isLt
  have hmod : d % 16 < 16 := Nat.mod_lt d (by decide)
  rw [UartRx.fracSum, BitVec.toNat_add, BitVec.toNat_setWidth, BitVec.toNat_setWidth, hfrac]
  omega

/-- a tick takes as long as the accumulator says -/
theorem UartRx.tickLimit_succ (hc : c.baudDiv.toNat = d) (hd : 16 ≤ d) (hacc : r.fracAcc.toNat = phase d 16 j) :
    elapsed d 16 j + (r.tickLimit c).toNat + 1 = elapsed d 16 (j + 1) := by
  have hsum := UartRx.fracSum_toNat (r := r) hc
  have hlt := phase_lt (d := d) (m := 16) (by decide) j
  have hmod : d % 16 < 16 := Nat.mod_lt d (by decide)
  have hint : ((c.baudDiv.extractLsb' 4 28).setWidth 32).toNat = d / 16 := by
    have hbound := c.baudDiv.isLt
    rw [BitVec.toNat_setWidth, BitVec.extractLsb'_toNat, Nat.shiftRight_eq_div_pow, hc]
    omega
  have hcarry : (r.fracSum c).getLsbD 4 = decide (16 ≤ phase d 16 j + d % 16) := by
    have hmsb : (r.fracSum c).msb = (r.fracSum c).getLsbD 4 := BitVec.msb_eq_getLsbD_last _
    rw [← hmsb, BitVec.msb_eq_decide, hsum, hacc]
  rw [elapsed_succ (by decide), UartRx.tickLimit, hcarry]
  by_cases hc16 : 16 ≤ phase d 16 j + d % 16
  · rw [if_pos (by simpa using hc16), if_pos hc16, hint]
  · rw [if_neg (by simpa using hc16), if_neg hc16, BitVec.toNat_sub_of_le (by rw [BitVec.le_def, hint]; simp; omega),
      hint]
    simp
    omega

namespace Receiving

theorem not_idle (h : Receiving b d j k r) : r.state ≠ .idle := by
  rw [h.state]
  exact RxState.stage_ne_idle j

/-- the last cycle of a tick -/
theorem tick_iff (h : Receiving b d j k r) (hc : c.baudDiv.toNat = d) (hd : 16 ≤ d) :
    r.tick c = true ↔ elapsed d 16 j + k + 1 = elapsed d 16 (j + 1) := by
  have hlimit := UartRx.tickLimit_succ hc hd h.fracAcc
  have hcnt := h.baudCnt
  rw [UartRx.tick, bne_iff_ne.2 h.not_idle, Bool.true_and, beq_iff_eq, ← BitVec.toNat_inj]
  omega

theorem baudCnt_ge (h : Receiving b d j k r) (hc : c.baudDiv.toNat = d) (hd : 16 ≤ d) :
    (r.tickLimit c).ule r.baudCnt = true ↔ elapsed d 16 (j + 1) ≤ elapsed d 16 j + k + 1 := by
  have hlimit := UartRx.tickLimit_succ hc hd h.fracAcc
  have hcnt := h.baudCnt
  rw [BitVec.ule_iff_le, BitVec.le_def]
  omega

/-- between two ticks -/
theorem step_hold (h : Receiving b d j k r) (hc : c.baudDiv.toNat = d) (hd : 16 ≤ d)
    (hk : elapsed d 16 j + k + 1 < elapsed d 16 (j + 1)) : Receiving b d j (k + 1) (r.step c i) ∧ r.done c = false := by
  have htick : r.tick c = false := by
    rw [← Bool.not_eq_true, h.tick_iff hc hd]
    omega
  have hge : (r.tickLimit c).ule r.baudCnt = false := by
    rw [← Bool.not_eq_true, h.baudCnt_ge hc hd]
    omega
  have hmid : r.midSample c = false := by simp [UartRx.midSample, htick]
  have hdone : r.bitDone c = false := by simp [UartRx.bitDone, htick]
  have hcnt := h.baudCnt
  have hbound := r.tickLimit c |>.isLt
  have hlimit := UartRx.tickLimit_succ hc hd h.fracAcc
  refine ⟨⟨?_, ?_, ?_, ?_, ?_⟩, by simp [UartRx.done, hmid]⟩
  · rw [← h.state]
    cases hs : r.state with
    | idle => exact absurd hs h.not_idle
    | startDet => simp [UartRx.step, UartRx.stateNext, hs, hmid]
    | sample l => simp [UartRx.step, UartRx.stateNext, hs, hdone]
    | stopCheck => simp [UartRx.step, UartRx.stateNext, hs, hmid]
  · simp only [UartRx.step, if_neg h.not_idle, hge]
    rw [if_neg (by simp), BitVec.toNat_add_of_lt (by simp; omega), hcnt]
    rfl
  · simp [UartRx.step, h.not_idle, hge, h.fracAcc]
  · simp [UartRx.step, h.not_idle, hmid, htick, h.sampleCnt]
  · intro l hl
    rw [← h.bits l hl]
    cases hs : r.state <;> simp [UartRx.step, hs, hmid]

theorem midSample_eq (h : Receiving b d j k r) (htick : r.tick c = true) :
    r.midSample c = decide (sampleCount j = 7) := by
  rw [UartRx.midSample, htick, Bool.true_and, ← h.sampleCnt, Bool.beq_eq_decide_eq, decide_eq_decide,
    ← BitVec.toNat_inj]
  rfl

/-- the receiver changes its state at the ticks that it should -/
theorem stateNext_tick (h : Receiving b d j k r) (htick : r.tick c = true) (hj : j + 1 < 144)
    (hsync : j = 7 ∨ (j + 1) % 16 = 0 → r.sync2 = frameBit b ((j + 1) / 16)) : r.stateNext c = .stage (j + 1) := by
  have hmid := h.midSample_eq htick
  have hdone : r.bitDone c = decide (sampleCount j = 15) := by
    rw [UartRx.bitDone, htick, Bool.true_and, ← h.sampleCnt, Bool.beq_eq_decide_eq, decide_eq_decide,
      ← BitVec.toNat_inj]
    rfl
  rcases Nat.lt_or_ge j 8 with hstart | h8
  · -- the start bit
    have hstate := h.state
    rw [RxState.stage_startDet hstart] at hstate
    simp only [UartRx.stateNext, hstate, hmid, sampleCount, if_pos hstart]
    by_cases h7 : j = 7
    · subst h7
      rw [hsync (.inl rfl)]
      rfl
    · rw [if_neg (by simpa using h7), RxState.stage_startDet (by omega)]
  · rcases Nat.lt_or_ge j 136 with hdata | hstop
    · have hstate := h.state
      rw [RxState.stage_sample h8 hdata] at hstate
      simp only [UartRx.stateNext, hstate, hdone, sampleCount, if_neg (Nat.not_lt.2 h8)]
      by_cases hlast : (j + 8) % 16 = 15
      · rw [if_pos (by simpa using hlast)]
        obtain ⟨q, rfl⟩ : ∃ q, j = 16 * q + 23 := ⟨(j - 23) / 16, by omega⟩
        have hq : q < 8 := by omega
        clear h hmid hdone hsync hj hstate hlast h8 hdata htick
        revert q
        decide
      · rw [if_neg (by simpa using hlast), RxState.stage_sample (by omega) (by omega)]
        have hsame : (j + 1 - 8) / 16 = (j - 8) / 16 := by omega
        rw [hsame]
    · have hstate := h.state
      rw [RxState.stage_stopCheck hstop] at hstate
      simp only [UartRx.stateNext, hstate, hmid]
      rw [if_neg (by simp only [decide_eq_true_eq, sampleCount_mid h8]; omega), RxState.stage_stopCheck (by omega)]

theorem sampleCnt_tick (h : Receiving b d j k r) (htick : r.tick c = true)
    (hsync : j = 7 ∨ (j + 1) % 16 = 0 → r.sync2 = frameBit b ((j + 1) / 16)) :
    (r.step c i).sampleCnt.toNat = sampleCount (j + 1) := by
  have hcnt := h.sampleCnt
  have hmid := h.midSample_eq htick
  have hstate := h.state
  simp only [UartRx.step, if_neg h.not_idle, if_pos htick]
  by_cases h7 : j = 7
  · subst h7
    rw [if_pos ⟨hstate, by rw [hmid]; rfl, hsync (.inl rfl)⟩]
    rfl
  · have hrun : ¬ (r.state = .startDet ∧ r.midSample c = true ∧ r.sync2 = false) := by
      rintro ⟨hdet, hm, -⟩
      rcases Nat.lt_or_ge j 8 with hstart | h8
      · rw [hmid, decide_eq_true_eq, sampleCount, if_pos hstart] at hm
        exact h7 hm
      · rw [hstate, RxState.stage, if_neg (by omega)] at hdet
        split_ifs at hdet
    have hone : (1 : BitVec 4).toNat = 1 := rfl
    rw [if_neg hrun, BitVec.toNat_add, hcnt, hone]
    simp only [sampleCount]
    split_ifs <;> omega

theorem sampled_getLsbD (r : UartRx) (m : Fin 8) (l : ℕ) (hl : l < 8) :
    (r.sampled m).getLsbD l = if l = m then r.sync2 else r.shiftReg.getLsbD l := by
  by_cases hlm : l = m
  · cases hs : r.sync2 <;> simp [UartRx.sampled, hs, hlm]
  · cases hs : r.sync2 <;> simp [UartRx.sampled, hs, hlm, hl]

theorem bits_tick (h : Receiving b d j k r) (htick : r.tick c = true) (hj : j + 1 < 144)
    (hsync : j = 7 ∨ (j + 1) % 16 = 0 → r.sync2 = frameBit b ((j + 1) / 16)) :
    ∀ l < (j + 1) / 16, (r.step c i).shiftReg.getLsbD l = b.getLsbD l := by
  intro l hl
  have hmid := h.midSample_eq htick
  have hstate := h.state
  have h8 : 8 ≤ j := by omega
  by_cases hlast : (j + 1) % 16 = 0
  · -- the middle of a data bit
    have hdata : j < 136 := by omega
    have hm : r.midSample c = true := by
      rw [hmid, decide_eq_true_eq, sampleCount_mid h8]
      exact hlast
    rw [RxState.stage_sample h8 hdata] at hstate
    have hindex : ((Fin.ofNat 8 ((j - 8) / 16) : Fin 8) : ℕ) = (j + 1) / 16 - 1 := by
      rw [Fin.val_ofNat]
      omega
    simp only [UartRx.step, hstate, if_pos hm]
    rw [sampled_getLsbD r _ l (by omega), hindex]
    by_cases hnew : l = (j + 1) / 16 - 1
    · have hbit : (j + 1) / 16 = l + 1 := by omega
      rw [if_pos hnew, hsync (.inr hlast), hbit, frameBit, if_pos (by omega)]
    · rw [if_neg hnew]
      exact h.bits l (by omega)
  · have hm : r.midSample c = false := by
      rw [hmid, decide_eq_false_iff_not, sampleCount_mid h8]
      exact hlast
    rw [← h.bits l (by omega)]
    cases hs : r.state <;> simp [UartRx.step, hs, hm]

/-- one tick: the line counts in the middle of the start bit and where a bit is sampled -/
theorem step_tick (h : Receiving b d j k r) (hc : c.baudDiv.toNat = d) (hd : 16 ≤ d)
    (hk : elapsed d 16 j + k + 1 = elapsed d 16 (j + 1)) (hj : j + 1 < 144)
    (hsync : j = 7 ∨ (j + 1) % 16 = 0 → r.sync2 = frameBit b ((j + 1) / 16)) :
    Receiving b d (j + 1) 0 (r.step c i) ∧ r.done c = false := by
  have htick := (h.tick_iff hc hd).2 hk
  have hge := (h.baudCnt_ge hc hd).2 hk.ge
  refine ⟨⟨h.stateNext_tick htick hj hsync, ?_, ?_, h.sampleCnt_tick htick hsync, h.bits_tick htick hj hsync⟩, ?_⟩
  · simp [UartRx.step, h.not_idle, hge]
  · simp only [UartRx.step, if_neg h.not_idle, if_pos hge, BitVec.toNat_setWidth, UartRx.fracSum_toNat hc, h.fracAcc]
    rw [phase_succ]
  · -- the stop bit is not in its middle
    rw [UartRx.done, h.midSample_eq htick, h.state, RxState.stage]
    split_ifs with h8 h136
    · rfl
    · rfl
    · simp only [Bool.and_eq_false_iff, decide_eq_false_iff_not, sampleCount_mid (Nat.not_lt.1 h8)]
      omega

theorem step_last (h : Receiving b d 143 k r) (hc : c.baudDiv.toNat = d) (hd : 16 ≤ d)
    (hk : elapsed d 16 143 + k + 1 = elapsed d 16 144) :
    (r.step c i).state = .idle ∧ r.done c = true ∧ r.shiftReg = b := by
  have htick := (h.tick_iff hc hd).2 hk
  have hmid : r.midSample c = true := by
    rw [h.midSample_eq htick]
    rfl
  have hstate : r.state = .stopCheck := h.state
  refine ⟨?_, ?_, ?_⟩
  · simp [UartRx.step, UartRx.stateNext, hstate, hmid]
  · simp [UartRx.done, hstate, hmid]
  · apply BitVec.eq_of_getLsbD_eq
    intro l hl
    exact h.bits l hl

end Receiving

end Receiver

/-! ## Both -/

namespace Uart

/-- one clock edge with `uart_tx` wired to `uart_rx` -/
def loop (u : Uart) (i : UartIn) : Uart := u.step { i with uartRx := u.tx.line }

/-- between two frames -/
structure Quiet (u : Uart) : Prop where
  tx : u.tx.state = .idle
  rx : u.rx.state = .idle
  line : u.tx.line = true
  sync1 : u.rx.sync1 = true
  sync2 : u.rx.sync2 = true

/-- where the receiver is: it sees the start bit four cycles after the transmitter begins it -/
inductive RxPhase (b : BitVec 8) (d t : ℕ) (r : UartRx) : Prop
  | before (ht : t < 4) (h : r.state = .idle)
  | during (j k : ℕ) (ht : t = 4 + elapsed d 16 j + k) (hk : elapsed d 16 j + k < elapsed d 16 (j + 1)) (hj : j < 144)
      (h : Receiving b d j k r)
  | behind (ht : 9 * d + 4 ≤ t) (h : r.state = .idle)

/-- `t` cycles into the frame of `b` -/
structure Frame (b : BitVec 8) (d t : ℕ) (u : Uart) : Prop where
  inside : t < 10 * d
  tx : Sending b d t u.tx
  line : u.tx.line = level b d t
  sync1 : u.rx.sync1 = level b d (t - 1)
  sync2 : u.rx.sync2 = level b d (t - 2)
  rx : RxPhase b d t u.rx

/-- both sides are on, at the divisor `d` -/
structure Enabled (d : ℕ) (u : Uart) : Prop where
  txEn : u.ctrl.txEn = true
  rxEn : u.ctrl.rxEn = true
  baudDiv : u.ctrl.baudDiv.toNat = d

/-- the byte that a cycle pushes towards the receive FIFO -/
def received (u : Uart) : List (BitVec 8) := if u.rx.done u.ctrl then [u.rx.shiftReg] else []

section Step

variable {u : Uart} {i : UartIn} {b : BitVec 8} {d t : ℕ} {r : UartRx} {c : UartCtrl}

theorem done_of_idle (h : r.state = .idle) : r.done c = false := by simp [UartRx.done, h]

theorem idle_of_high (h : r.state = .idle) (hsync : r.sync2 = true) : (r.step c i).state = .idle := by
  simp [UartRx.step, UartRx.stateNext, h, hsync]

/-- a low line starts the receiver -/
theorem receiving_of_low (h : r.state = .idle) (hsync : r.sync2 = false) (hen : c.rxEn = true) :
    Receiving b d 0 0 (r.step c i) := by
  refine ⟨?_, ?_, ?_, ?_, by simp⟩
  · simp [UartRx.step, UartRx.stateNext, h, hsync, hen, RxState.stage]
  · simp [UartRx.step, h]
  · simp [UartRx.step, h]
  · simp [UartRx.step, h, sampleCount]

/-- **One cycle of the receiver**: it pushes the byte in one cycle of the frame. -/
theorem RxPhase.step (h : RxPhase b d t r) (hc : c.baudDiv.toNat = d) (hen : c.rxEn = true) (hd : 16 ≤ d)
    (hsync : r.sync2 = level b d (t - 2)) :
    RxPhase b d (t + 1) (r.step c i) ∧ (r.done c = true ↔ t = 9 * d + 3) ∧ (r.done c = true → r.shiftReg = b) := by
  have hend : elapsed d 16 144 = 9 * d := elapsed_mul (by decide) 9
  cases h with
  | before ht hidle =>
    have hdone := done_of_idle (c := c) hidle
    refine ⟨?_, by rw [hdone]; simp; omega, by simp [hdone]⟩
    by_cases h3 : t = 3
    · subst h3
      have hlow : r.sync2 = false := by
        rw [hsync, level_succ, Nat.zero_div]
        rfl
      refine .during 0 0 (by simp) ?_ (by decide) (receiving_of_low hidle hlow hen)
      exact elapsed_lt (by decide) hd 0
    · have hzero : t - 2 = 0 := by omega
      exact .before (by omega) (idle_of_high hidle (by rw [hsync, hzero]; rfl))
  | during j k ht hk hj h =>
    have hle : elapsed d 16 (j + 1) ≤ elapsed d 16 144 := elapsed_le (by omega)
    rcases Nat.lt_or_eq_of_le (Nat.succ_le_of_lt hk) with hlt | hlast
    · obtain ⟨hnext, hdone⟩ := h.step_hold (i := i) hc hd hlt
      exact ⟨.during j (k + 1) (by omega) hlt hj hnext, by rw [hdone]; simp; omega, by simp [hdone]⟩
    · have hbit : r.sync2 = frameBit b ((j + 1) / 16) := by
        have htime : t - 2 = elapsed d 16 (j + 1) + 1 := by omega
        rw [hsync, htime, level_succ, elapsed_div (by omega)]
      by_cases h143 : j = 143
      · subst h143
        have hlast : elapsed d 16 143 + k + 1 = elapsed d 16 144 := hlast
        obtain ⟨hidle, hdone, hbyte⟩ := h.step_last (i := i) hc hd hlast
        exact ⟨.behind (by omega) hidle, by rw [hdone]; simp; omega, fun _ => hbyte⟩
      · obtain ⟨hnext, hdone⟩ := h.step_tick (i := i) hc hd hlast (by omega) fun _ => hbit
        have hlt := elapsed_lt (m := 16) (by decide) hd (j + 1)
        have hle' : elapsed d 16 (j + 1 + 1) ≤ elapsed d 16 144 := elapsed_le (by omega)
        exact ⟨.during (j + 1) 0 (by omega) hlt (by omega) hnext, by rw [hdone]; simp; omega, by simp [hdone]⟩
  | behind ht hidle =>
    have hdone := done_of_idle (c := c) hidle
    refine ⟨.behind (by omega) (idle_of_high hidle ?_), by rw [hdone]; simp; omega, by simp [hdone]⟩
    rw [hsync]
    exact level_high b (by omega) (by omega)

theorem frame_of_pop (hq : u.Quiet) (hd : 0 < d) (hpop : u.tx.pop u.ctrl = true) :
    Frame u.tx.fifo.head d 0 (u.loop i) := by
  refine ⟨by omega, UartTx.sending_of_pop hpop, ?_, hq.line, hq.sync1,
    .before (by decide) (idle_of_high hq.rx hq.sync2)⟩
  simp [loop, Uart.step, UartTx.step, hq.tx, level]

/-- without one nothing starts -/
theorem quiet_of_not_pop (hq : u.Quiet) (hpop : u.tx.pop u.ctrl = false) : (u.loop i).Quiet := by
  refine ⟨?_, idle_of_high hq.rx hq.sync2, ?_, hq.line, hq.sync1⟩
  · simp [loop, Uart.step, UartTx.step, UartTx.stateNext, hq.tx, hpop]
  · simp [loop, Uart.step, UartTx.step, hq.tx]

theorem received_of_quiet (hq : u.Quiet) : u.received = [] := by simp [received, done_of_idle hq.rx]

/-- **One cycle of a frame**: it goes on, or it ends and all is quiet. -/
theorem Frame.loop (h : Frame b d t u) (hen : u.Enabled d) (hd : 16 ≤ d) :
    (t + 1 < 10 * d ∧ Frame b d (t + 1) (u.loop i) ∨ t + 1 = 10 * d ∧ (u.loop i).Quiet) ∧
      u.received = if t = 9 * d + 3 then [b] else [] := by
  obtain ⟨hrx, hdone, hbyte⟩ := h.rx.step (i := { i with uartRx := u.tx.line }) hen.baudDiv hen.rxEn hd h.sync2
  have hline := h.tx.line (c := u.ctrl) (i := { i with uartRx := u.tx.line })
  have hsync2 : (u.loop i).rx.sync2 = level b d (t + 1 - 2) := by
    have htime : t + 1 - 2 = t - 1 := by omega
    rw [htime]
    exact h.sync1
  constructor
  · rcases Nat.lt_or_eq_of_le (Nat.succ_le_of_lt h.inside) with hlt | hlast
    · exact .inl ⟨hlt, hlt, h.tx.step hen.baudDiv (by omega) hlt, hline, h.line, hsync2, hrx⟩
    · refine .inr ⟨hlast, h.tx.step_last hen.baudDiv (by omega) hlast, ?_, ?_, ?_, ?_⟩
      · -- the receiver is long done
        cases hrx with
        | before ht _ => omega
        | during j k ht hk hj _ =>
          have hend : elapsed d 16 144 = 9 * d := elapsed_mul (by decide) 9
          have hle : elapsed d 16 (j + 1) ≤ elapsed d 16 144 := elapsed_le (by omega)
          omega
        | behind _ hidle => exact hidle
      · exact hline.trans (level_high b (by omega) (by omega))
      · exact h.line.trans (level_high b (by omega) (by omega))
      · exact hsync2.trans (level_high b (by omega) (by omega))
  · rw [received]
    by_cases ht : t = 9 * d + 3
    · rw [if_pos (hdone.2 ht), if_pos ht, hbyte (hdone.2 ht)]
    · rw [if_neg (fun h => ht (hdone.1 h)), if_neg ht]

end Step

end Uart

end Vsync
