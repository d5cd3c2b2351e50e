/-
Where the receiver of `uart_apb` samples the bits of a frame, for a sender with a clock of its own.

- `UartRx.samples`: the receiver reads the line for data bit `k`, or looks for the end of the stop bit (`k = 8`).
- `Catches`: all that the receiver needs of the line; `receiving_at`, `samples_iff`: it then samples bit `k` exactly
  `(k + 1) * d` cycles behind the first low cycle.
- `Hears`: the line brings a frame with `p` cycles a bit. The period of bit `k` begins `(k + 1) * p` cycles behind the
  first low cycle, so with `p = d` every sample meets the first cycle of its bit, and with `d < p` the bit before it.
- `sampling_margin_never`: **no bit is ever sampled in the middle half of its period.**
-/
import Vsync.Bus.UartFrame

namespace Vsync

open FracTicks

/-- the line is read in this cycle, for the data bit `k` or for the stop bit -/
def UartRx.samples (r : UartRx) (c : UartCtrl) (k : ℕ) : Bool :=
  if h : k < 8 then r.state == .sample ⟨k, h⟩ && r.midSample c else r.done c

theorem UartRx.samples_idle {r : UartRx} {c : UartCtrl} {k : ℕ} (h : r.state = .idle) : r.samples c k = false := by
  rw [UartRx.samples]
  split_ifs
  · simp [h]
  · exact Uart.done_of_idle h

/-- the tick of a sample -/
theorem RxState.stage_sampled {j k : ℕ} (hj : j < 144) (hk : k ≤ 8) :
    (if h : k < 8 then RxState.stage j = .sample ⟨k, h⟩ else RxState.stage j = .stopCheck) ∧ sampleCount j = 7 ↔
      j + 1 = (k + 1) * 16 := by
  rcases Nat.lt_or_ge j 8 with hstart | h8
  · have hne : j + 1 ≠ (k + 1) * 16 := by omega
    rw [RxState.stage_startDet hstart]
    split_ifs <;> simp [hne]
  · rw [sampleCount_mid h8]
    rcases Nat.lt_or_ge j 136 with hdata | hstop
    · rw [RxState.stage_sample h8 hdata]
      split_ifs with hk8
      · rw [RxState.sample.injEq, Fin.ext_iff, Fin.val_ofNat]
        dsimp only
        omega
      · simp only [false_and, false_iff]
        omega
    · rw [RxState.stage_stopCheck hstop]
      split_ifs with hk8
      · simp only [false_and, false_iff]
        omega
      · rw [eq_self_iff_true, true_and]
        omega

/-- the samples are taken sixteen ticks apart -/
theorem Receiving.samples_iff {r : UartRx} {c : UartCtrl} {b : BitVec 8} {d j m k : ℕ} (h : Receiving b d j m r)
    (hc : c.baudDiv.toNat = d) (hd : 16 ≤ d) (hm : elapsed d 16 j + m < elapsed d 16 (j + 1)) (hj : j < 144)
    (hk : k ≤ 8) :
    r.samples c k = true ↔ elapsed d 16 j + m + 1 = (k + 1) * d := by
  have htime : elapsed d 16 ((k + 1) * 16) = (k + 1) * d := elapsed_mul (by decide) (k + 1)
  -- the time of the sample is in the last cycle of tick `j` only if it ends that tick
  have hend : elapsed d 16 j + m + 1 = (k + 1) * d ↔ j + 1 = (k + 1) * 16 ∧ r.tick c = true := by
    rw [h.tick_iff hc hd, ← htime]
    constructor
    · intro heq
      have hstrict := strictMono_nat_of_lt_succ (fun n => elapsed_lt (m := 16) (by decide) hd n)
      have hlow : j < (k + 1) * 16 := hstrict.lt_iff_lt.1 (by omega)
      have hhigh : (k + 1) * 16 ≤ j + 1 := hstrict.le_iff_le.1 (by omega)
      have hsame : j + 1 = (k + 1) * 16 := by omega
      exact ⟨hsame, by rw [hsame]; exact heq⟩
    · rintro ⟨hsame, heq⟩
      rw [← hsame]
      exact heq
  rw [hend, UartRx.samples]
  cases htick : r.tick c with
  | false =>
    have hmid : r.midSample c = false := by simp [UartRx.midSample, htick]
    split_ifs <;> simp [UartRx.done, hmid]
  | true =>
    have hmid := h.midSample_eq htick
    rw [and_iff_left rfl, ← RxState.stage_sampled hj hk]
    split_ifs with h8
    · rw [h.state, hmid, Bool.and_eq_true, beq_iff_eq, decide_eq_true_eq]
    · rw [UartRx.done, h.state, hmid, Bool.and_eq_true, beq_iff_eq, decide_eq_true_eq]

namespace Uart

section Frame

variable (u : Uart) (ins : ℕ → UartIn)

abbrev runFrom (n : ℕ) : Uart := Machine.trace Uart.step u ins n

/-- the bytes that the receiver has pushed before cycle `n` -/
def heardBy (n : ℕ) : List (BitVec 8) := Machine.log (fun u _ => u.received) Uart.step u ins n

/-- the line is read in cycle `n` for bit `k` -/
def SampledAt (k n : ℕ) : Prop := (runFrom u ins n).rx.samples (runFrom u ins n).ctrl k = true

/-- cycle `n` is in the middle half of bit `k`, as `uart_rx_sync2` shows it, two cycles behind the pin -/
def InMiddleHalf (p k n : ℕ) : Prop := 4 * (2 + (k + 1) * p) + p ≤ 4 * n ∧ 4 * n ≤ 4 * (2 + (k + 1) * p) + 3 * p

/-- every sample of the frame is in the middle half of its bit -/
def SampledInMiddle (d : ℕ) : Prop := ∀ k ≤ 8, ∀ n ≤ 2 + 9 * d, SampledAt u ins k n → InMiddleHalf d k n

/-- the receiver counts to `d`, and from cycle 0 on the line brings the frame of `b` with `p` cycles a bit -/
structure Hears (d p : ℕ) (b : BitVec 8) : Prop where
  idle : u.rx.state = .idle
  sync1 : u.rx.sync1 = true
  sync2 : u.rx.sync2 = true
  rxEn : ∀ n, (runFrom u ins n).ctrl.rxEn = true
  baudDiv : ∀ n, (runFrom u ins n).ctrl.baudDiv.toNat = d
  line : ∀ n, (ins n).uartRx = frameBit b (n / p)

/-- the line is low in cycle `s` and in the middle of the start bit, and it is that of `b` where the bits are sampled -/
structure Catches (d s : ℕ) (b : BitVec 8) : Prop where
  idle : ∀ n ≤ s, (runFrom u ins n).rx.state = .idle
  low : (runFrom u ins s).rx.sync2 = false
  middle : (runFrom u ins (s + elapsed d 16 8)).rx.sync2 = false
  bits : ∀ k < 8, (runFrom u ins (s + (k + 1) * d)).rx.sync2 = b.getLsbD k
  rxEn : ∀ n, (runFrom u ins n).ctrl.rxEn = true
  baudDiv : ∀ n, (runFrom u ins n).ctrl.baudDiv.toNat = d

end Frame

namespace Catches

variable {u : Uart} {ins : ℕ → UartIn} {d s : ℕ} {b : BitVec 8}

/-- **The receiver in every cycle of a frame.** -/
theorem receiving_at (h : Catches u ins d s b) (hd : 16 ≤ d) (x : ℕ) (hx : x < 9 * d) :
    ∃ j k, j < 144 ∧ x = elapsed d 16 j + k ∧ x < elapsed d 16 (j + 1) ∧
      Receiving b d j k (runFrom u ins (s + 1 + x)).rx := by
  have hend : elapsed d 16 144 = 9 * d := elapsed_mul (by decide) 9
  induction x with
  | zero =>
    have hfirst := elapsed_lt (m := 16) (by decide) hd 0
    rw [elapsed_zero] at hfirst
    refine ⟨0, 0, by decide, by simp, hfirst, ?_⟩
    exact receiving_of_low (h.idle s (le_refl s)) h.low (h.rxEn s)
  | succ x ih =>
    obtain ⟨j, k, hj, rfl, hlt, hrec⟩ := ih (by omega)
    rcases Nat.lt_or_eq_of_le (Nat.succ_le_of_lt hlt) with hwithin | hlast
    · refine ⟨j, k + 1, hj, by omega, hwithin, ?_⟩
      exact (hrec.step_hold (h.baudDiv _) hd hwithin).1
    · have hlast : elapsed d 16 j + k + 1 = elapsed d 16 (j + 1) := hlast
      have hnext : j + 1 < 144 := by
        by_contra hge
        have hle := elapsed_le (d := d) (m := 16) (show 144 ≤ j + 1 by omega)
        omega
      refine ⟨j + 1, 0, hnext, hlast, ?_, ?_⟩
      · rw [hlast]
        exact elapsed_lt (by decide) hd (j + 1)
      · refine (hrec.step_tick (h.baudDiv _) hd hlast hnext ?_).1
        have hcycle : s + 1 + (elapsed d 16 j + k) = s + elapsed d 16 (j + 1) := by omega
        rw [hcycle]
        rintro (rfl | hmid)
        · exact h.middle
        · obtain ⟨q, hq⟩ : ∃ q, j + 1 = (q + 1) * 16 := ⟨(j + 1) / 16 - 1, by omega⟩
          rw [hq, elapsed_mul (by decide), h.bits q (by omega), Nat.mul_div_cancel _ (by decide), frameBit,
            if_pos (by omega)]

theorem sampledAt_iff (h : Catches u ins d s b) (hd : 16 ≤ d) {k n : ℕ} (hk : k ≤ 8) (hn : n ≤ s + 9 * d) :
    SampledAt u ins k n ↔ n = s + (k + 1) * d := by
  have hpos : 0 < (k + 1) * d := Nat.mul_pos (by omega) (by omega)
  rcases Nat.lt_or_ge s n with hafter | hbefore
  · obtain ⟨x, rfl⟩ : ∃ x, n = s + 1 + x := ⟨n - s - 1, by omega⟩
    obtain ⟨j, m, hj, rfl, hlt, hrec⟩ := h.receiving_at hd x (by omega)
    rw [SampledAt, hrec.samples_iff (h.baudDiv _) hd hlt hj hk]
    omega
  · rw [SampledAt, UartRx.samples_idle (h.idle n hbefore)]
    constructor
    · exact nofun
    · intro heq
      omega

theorem heardBy_eq (h : Catches u ins d s b) (hd : 16 ≤ d) : heardBy u ins (s + 9 * d + 1) = [b] := by
  have hbefore : heardBy u ins (s + 9 * d) = [] := by
    rw [List.eq_nil_iff_forall_not_mem]
    intro e he
    obtain ⟨n, hn, hmem⟩ := (Machine.mem_log _ _ _).1 he
    have hdone : ¬ SampledAt u ins 8 n := by
      rw [h.sampledAt_iff hd (le_refl 8) hn.le]
      omega
    rw [SampledAt, UartRx.samples, dif_neg (by decide)] at hdone
    rw [received, if_neg hdone] at hmem
    exact absurd hmem (List.not_mem_nil)
  have hend : elapsed d 16 144 = 9 * d := elapsed_mul (by decide) 9
  obtain ⟨j, k, hj, hx, hlt, hrec⟩ := h.receiving_at hd (9 * d - 1) (by omega)
  obtain rfl : j = 143 := by
    by_contra hne
    have hle := elapsed_le (d := d) (m := 16) (show j + 2 ≤ 144 by omega)
    have hstep := elapsed_lt (d := d) (m := 16) (by decide) hd (j + 1)
    rw [show j + 1 + 1 = j + 2 from rfl] at hstep
    omega
  have hlt' : 9 * d - 1 < elapsed d 16 144 := hlt
  rw [show s + 1 + (9 * d - 1) = s + 9 * d by omega] at hrec
  obtain ⟨-, hdone, hbyte⟩ := hrec.step_last (i := ins 0) (h.baudDiv _) hd
    (show elapsed d 16 143 + k + 1 = elapsed d 16 144 by omega)
  rw [heardBy, Machine.log_succ, ← heardBy, hbefore, List.nil_append, received, if_pos hdone, hbyte]

end Catches

namespace Hears

variable {u : Uart} {ins : ℕ → UartIn} {d p : ℕ} {b heard : BitVec 8}

theorem sync2_at (h : Hears u ins d p b) (n : ℕ) : (runFrom u ins (2 + n)).rx.sync2 = frameBit b (n / p) := by
  rw [Nat.add_comm]
  exact h.line n

theorem idle_at (h : Hears u ins d p b) {n : ℕ} (hn : n ≤ 2) : (runFrom u ins n).rx.state = .idle := by
  have hone : (runFrom u ins 1).rx.state = .idle := idle_of_high h.idle h.sync2
  interval_cases n
  · exact h.idle
  · exact hone
  · exact idle_of_high hone h.sync1

/-- what is heard is what the line shows every `d` cycles -/
theorem catches (h : Hears u ins d p b) (hp : d < 2 * p)
    (hheard : ∀ k < 8, frameBit b ((k + 1) * d / p) = heard.getLsbD k) :
    Catches u ins d 2 heard where
  idle _ hn := h.idle_at hn
  low := by
    rw [show 2 = 2 + 0 from rfl, h.sync2_at, Nat.zero_div]
    rfl
  middle := by
    have hmiddle : elapsed d 16 8 < p := by
      rw [elapsed]
      omega
    rw [h.sync2_at, Nat.div_eq_of_lt hmiddle]
    rfl
  bits k hk := by rw [h.sync2_at, hheard k hk]
  rxEn := h.rxEn
  baudDiv := h.baudDiv

theorem frameBit_data (b : BitVec 8) {k : ℕ} (hk : k < 8) : frameBit b (k + 1) = b.getLsbD k := by
  rw [frameBit, if_pos hk]

/-- with one clock on both sides the samples are those of the bits -/
theorem catches_matched (h : Hears u ins d d b) (hd : 16 ≤ d) : Catches u ins d 2 b :=
  h.catches (by omega) fun k hk => by rw [Nat.mul_div_cancel _ (by omega), frameBit_data b hk]

/-- a sender up to 2 percent faster: the samples fall behind the beginning of the bits -/
theorem catches_fast (h : Hears u ins d p b) (hd : 16 ≤ d) (hle : p ≤ d) (hfast : 49 * d ≤ 50 * p) :
    Catches u ins d 2 b := by
  refine h.catches (by omega) fun k hk => ?_
  have hperiod : (k + 1) * d / p = k + 1 := by
    have hpos : 0 < p := by omega
    rw [Nat.div_eq_iff hpos]
    interval_cases k <;> omega
  rw [hperiod, frameBit_data b hk]

/-- a slower sender: every sample still meets the bit before -/
theorem catches_slow (h : Hears u ins d p b) (hlt : d < p) (hslow : 50 * p ≤ 51 * d) :
    Catches u ins d 2 (b <<< 1) := by
  refine h.catches (by omega) fun k hk => ?_
  have hperiod : (k + 1) * d / p = k := by
    have hpos : 0 < p := by omega
    rw [Nat.div_eq_iff hpos]
    interval_cases k <;> omega
  rw [hperiod, BitVec.getLsbD_shiftLeft]
  cases k with
  | zero => rfl
  | succ k => simp [frameBit_data b (show k < 8 by omega), hk]

end Hears

/-- the receiver is on, with this divisor -/
def listening (divisor : Word) : Uart := { reset (fun _ => 0) (fun _ => 0) with ctrl :=
  ⟨false, false, true, true, divisor⟩ }

/-- a frame at the pin and nothing at the APB port -/
def frameIn (p : ℕ) (b : BitVec 8) (n : ℕ) : UartIn := ⟨false, false, false, 0, 0, frameBit b (n / p)⟩

theorem hears_listening (divisor : Word) (p : ℕ) (b : BitVec 8) :
    Hears (listening divisor) (frameIn p b) divisor.toNat p b := by
  have hctrl (n : ℕ) : (runFrom (listening divisor) (frameIn p b) n).ctrl = ⟨false, false, true, true, divisor⟩ := by
    induction n with
    | zero => rfl
    | succ n ih => exact ih
  refine ⟨rfl, rfl, rfl, ?_, ?_, fun n => rfl⟩
  · intro n
    rw [hctrl]
  · intro n
    rw [hctrl]

/-- **The margin of the samples.** With one clock on both sides each of the nine samples is taken in the first cycle of
its period, so never in the middle half; a sender that is slower at all, by up to 2 percent, has its byte heard shifted
by one. -/
theorem sampling_margin_never (divisor : Word) (hd : 64 ≤ divisor.toNat) (b : BitVec 8) :
    (∀ p, ∃ u ins, Hears u ins divisor.toNat p b) ∧
      (∀ u ins, Hears u ins divisor.toNat divisor.toNat b → ¬ SampledInMiddle u ins divisor.toNat ∧
        ∀ k ≤ 8, ∀ n ≤ 2 + 9 * divisor.toNat, (SampledAt u ins k n ↔ n = 2 + (k + 1) * divisor.toNat) ∧
          (SampledAt u ins k n → ¬ InMiddleHalf divisor.toNat k n)) ∧
      ∀ p u ins, 49 * divisor.toNat ≤ 50 * p → 50 * p ≤ 51 * divisor.toNat → Hears u ins divisor.toNat p b →
        heardBy u ins (2 + 9 * divisor.toNat + 1) = [if p ≤ divisor.toNat then b else b <<< 1] := by
  refine ⟨fun p => ⟨_, _, hears_listening divisor p b⟩, ?_, ?_⟩
  · intro u ins h
    have hcatches := h.catches_matched (by omega)
    have houtside {k n : ℕ} (hk : k ≤ 8) (hn : n ≤ 2 + 9 * divisor.toNat) (hs : SampledAt u ins k n) :
        ¬ InMiddleHalf divisor.toNat k n := by
      have hfirst := (hcatches.sampledAt_iff (by omega) hk hn).1 hs
      rintro ⟨hlow, -⟩
      omega
    refine ⟨fun hmiddle => ?_, fun k hk n hn => ⟨hcatches.sampledAt_iff (by omega) hk hn, houtside hk hn⟩⟩
    have hfirst := (hcatches.sampledAt_iff (k := 0) (n := 2 + divisor.toNat) (by omega) (by omega) (by omega)).2
      (by omega)
    exact houtside (by omega) (by omega) hfirst (hmiddle 0 (by omega) _ (by omega) hfirst)
  · intro p u ins hfast hslow h
    split_ifs with hle
    · exact (h.catches_fast (by omega) hle hfast).heardBy_eq (by omega)
    · exact (h.catches_slow (by omega) hslow).heardBy_eq (by omega)

/-- at the divisor 64 the first data bit lasts from cycle 66 to cycle 129, and is sampled in cycle 66 -/
theorem sampled_at_edge : Hears (listening 64) (frameIn 64 0x55) 64 64 0x55 ∧
    SampledAt (listening 64) (frameIn 64 0x55) 0 66 ∧ ¬ InMiddleHalf 64 0 66 := by
  refine ⟨hears_listening 64 64 0x55, ?_, ?_⟩
  · unfold SampledAt
    decide +kernel
  · unfold InMiddleHalf
    decide

theorem sampling_margin_never_slowSender :
    heardBy (listening 64) (frameIn 65 0x55) 579 = [0xAA] :=
  (sampling_margin_never 64 (by decide) 0x55).2.2 65 _ _ (by decide) (by decide) (hears_listening 64 65 0x55)

end Uart

end Vsync
