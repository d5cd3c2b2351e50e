/-
The transactions of `hyperram_ctrl` at its pins, cycle by cycle, for every `LATENCY` from 2 to 127 and any device.

- `HyperPins`: the inputs of a cycle; `HyperCtrl.accepted`, `answers`: the handshakes at the AXI port.
- `Phase`: where a transaction stands in its counters; `phase_cmd`, `phase_latency`, `phase_data`: one cycle of each
  phase.
- `Stale`: what `lat_total` can be left at by the transactions before. It is compared in the cycle in which it is
  loaded.
- `Shape`: six command cycles, the latency, four data cycles, one response.
- `transaction_shape`: **every transaction of every run has this shape.**
-/
import Vsync.Bus.HyperBus

namespace Vsync

/-- the AXI port, `hb_rwds_i` and `hb_dq_i` -/
structure HyperPins where
  m : BusRequest
  rwds : Bool
  dqI : BitVec 8

namespace PortOp

def isRead : PortOp → Bool
  | read _ => true
  | write .. => false

def addr : PortOp → Word
  | read a => a
  | write a _ _ => a

/-- the command and address of the access: memory space, linear burst -/
def ca (op : PortOp) : BitVec 48 :=
  BitVec.ofBool op.isRead ++ 0#1 ++ 1#1 ++ op.addr.extractLsb' 3 29 ++ 0#13 ++ op.addr.extractLsb' 0 3

end PortOp

namespace HyperCtrl

def next (latency : BitVec 8) (s : HyperCtrl) (i : HyperPins) : HyperCtrl := s.step i.m latency i.rwds i.dqI

section Port

variable (s : HyperCtrl) (i : HyperPins)

def accepted : Option PortOp :=
  if s.state = .idle then
    if i.m.arvalid then some (.read i.m.araddr)
    else if i.m.awvalid && i.m.wvalid then some (.write i.m.awaddr i.m.wdata i.m.wstrb)
    else none
  else none

def responds : Bool := (s.response i.m).rvalid || (s.response i.m).bvalid

def answers : Bool :=
  ((s.response i.m).rvalid && i.m.rready) || ((s.response i.m).bvalid && i.m.bready)

def dqOe : Bool := s.state == .cmd || (s.state == .data && !s.isRead)

def op : PortOp := if s.isRead then .read s.txnAddr else .write s.txnAddr s.wrData s.wrStrb

end Port

theorem op_isRead (s : HyperCtrl) : s.op.isRead = s.isRead := by
  unfold op
  cases s.isRead <;> rfl

theorem op_ca (s : HyperCtrl) : s.op.ca = s.caWord := by
  unfold op caWord
  cases s.isRead <;> rfl

theorem responds_iff (s : HyperCtrl) (i : HyperPins) : s.responds i = true ↔ s.state = .done := by
  simp only [responds, response]
  cases s.isRead <;> simp

/-! ## One cycle of each phase -/

/-- the phase, the access and the counters -/
structure Phase (s : HyperCtrl) (st : HyperState) (o : PortOp) (cmd lat data : ℕ) : Prop where
  state : s.state = st
  op : s.op = o
  cmd : s.cmdCnt.toNat = cmd
  lat : s.latCnt.toNat = lat
  data : s.dataCnt.toNat = data

/-- what `lat_total` is left at: nothing yet, or the latency of a transaction -/
def Stale (latency : BitVec 8) (s : HyperCtrl) : Prop :=
  s.latTotal = 0 ∨ s.latTotal = latency ∨ s.latTotal = latency * 2

/-- `lat_total` of a transaction -/
def total (latency : BitVec 8) (rwds : Bool) : BitVec 8 := if rwds then latency * 2 else latency

section Cycle

variable (latency : BitVec 8) {s : HyperCtrl} {o : PortOp} {cmd lat data : ℕ} (i : HyperPins)

theorem stale_step {latency : BitVec 8} (h : Stale latency s) : Stale latency (s.next latency i) := by
  unfold Stale next step
  cases s.state with
  | latency =>
    dsimp only
    split_ifs
    · exact .inr (.inr rfl)
    · exact .inr (.inl rfl)
    · exact h
  | idle | cmd | data | done => exact h

/-- outside `ST_IDLE` the access stays -/
theorem op_step (h : s.state ≠ .idle) : (s.next latency i).op = s.op := by
  rcases s with ⟨state, c, lc, dc, rd, a, w, st, r, t⟩
  cases state with
  | idle => exact absurd rfl h
  | cmd | latency | data | done => rfl

/-- the cycle that takes an access over -/
theorem phase_accept (h : s.accepted i = some o) :
    (s.next latency i).Phase .cmd o 0 0 0 ∧ (s.next latency i).latTotal = s.latTotal := by
  rcases s with ⟨state, c, lc, dc, rd, a, w, st, r, t⟩
  unfold accepted at h
  split_ifs at h with hidle har haw
  · obtain rfl : state = .idle := hidle
    refine ⟨⟨?_, ?_, rfl, rfl, rfl⟩, rfl⟩
    · simp [next, step, stateNext, har]
    · rw [← Option.some.inj h]
      simp [op, next, step, har]
  · obtain rfl : state = .idle := hidle
    refine ⟨⟨?_, ?_, rfl, rfl, rfl⟩, rfl⟩
    · simp only [next, step, stateNext, har, haw]
      rfl
    · obtain ⟨hav, hwv⟩ := Bool.and_eq_true_iff.1 haw
      rw [← Option.some.inj h]
      simp [op, next, step, har, hav, hwv]

theorem phase_cmd (h : s.Phase .cmd o cmd 0 0) (hc : cmd ≤ 5) :
    (s.next latency i).Phase (if cmd = 5 then .latency else .cmd) o (min (cmd + 1) 5) 0 0 ∧
      (s.next latency i).latTotal = s.latTotal ∧
      s.dqOe = true ∧ s.dqO = o.ca.extractLsb' (8 * (5 - cmd)) 8 := by
  have hop := op_step latency i (s := s) (by rw [h.state]; decide)
  have hdq : s.dqO = o.ca.extractLsb' (8 * (5 - cmd)) 8 := by
    rw [← h.op, op_ca, dqO, h.state]
    dsimp only
    rw [if_pos (by rw [h.cmd]; exact hc), h.cmd]
  have hfive : s.cmdCnt = 5 ↔ cmd = 5 := by
    rw [← BitVec.toNat_inj, h.cmd]
    rfl
  have hlt : s.cmdCnt.ult 5 = decide (cmd < 5) := by
    rw [BitVec.ult, h.cmd]
    rfl
  refine ⟨⟨?_, hop.trans h.op, ?_, ?_, ?_⟩, ?_, by simp [dqOe, h.state], hdq⟩
  · simp only [next, step, stateNext, h.state, hfive]
  · simp only [next, step, h.state, hlt, decide_eq_true_eq]
    split_ifs with h5
    · rw [HyperRam.toNat_succ (by rw [h.cmd]; omega), h.cmd]
      omega
    · rw [h.cmd]
      omega
  · simp only [next, step, h.state]
    exact h.lat
  · simp only [next, step, h.state]
    exact h.data
  · simp only [next, step, h.state]

theorem total_toNat {latency : BitVec 8} (hlat : 2 ≤ latency.toNat ∧ latency.toNat ≤ 127) (rwds : Bool) :
    (total latency rwds).toNat = if rwds then 2 * latency.toNat else latency.toNat := by
  cases rwds with
  | false => rfl
  | true =>
    have htwo : (2 : BitVec 8).toNat = 2 := rfl
    rw [total, if_pos rfl, if_pos rfl, BitVec.toNat_mul, htwo]
    omega

/-- the first latency cycle loads `lat_total`, and is not the last one, whatever `lat_total` is -/
theorem phase_latency_first {latency : BitVec 8} (hlat : 2 ≤ latency.toNat ∧ latency.toNat ≤ 127)
    (hstale : Stale latency s) (h : s.Phase .latency o cmd 0 data) :
    (s.next latency i).Phase .latency o cmd 1 data ∧ (s.next latency i).latTotal = total latency i.rwds := by
  have hop := op_step latency i (s := s) (by rw [h.state]; decide)
  have hzero : s.latCnt = 0 := BitVec.eq_of_toNat_eq h.lat
  have hover : s.latencyOver = false := by
    rcases hstale with h0 | h1
    · simp [latencyOver, h0, hzero, BitVec.ule]
    · have hge : 2 ≤ s.latTotal.toNat := by
        rcases h1 with h1 | h1
        · rw [h1]
          exact hlat.1
        · have hdouble := total_toNat hlat true
          rw [total, if_pos rfl, if_pos rfl] at hdouble
          rw [h1, hdouble]
          omega
      rw [← Bool.not_eq_true, HyperBus.latencyOver_iff (by omega), h.lat]
      omega
  refine ⟨⟨?_, hop.trans h.op, ?_, ?_, ?_⟩, ?_⟩
  · simp only [next, step, stateNext, h.state, hover, Bool.false_eq_true, if_false]
  · simp only [next, step, h.state]
    exact h.cmd
  · simp only [next, step, h.state]
    rw [HyperRam.toNat_succ (by rw [h.lat]; decide), h.lat]
  · simp only [next, step, h.state]
    exact h.data
  · simp only [next, step, h.state, hzero, if_true]
    rfl

theorem phase_latency {T : ℕ} (htotal : s.latTotal.toNat = T) (hpos : 0 < lat) (hlt : lat < T)
    (h : s.Phase .latency o cmd lat data) :
    (s.next latency i).Phase (if lat + 1 = T then .data else .latency) o cmd (lat + 1) data ∧
      (s.next latency i).latTotal = s.latTotal := by
  have hop := op_step latency i (s := s) (by rw [h.state]; decide)
  have hbound := s.latTotal.isLt
  have hzero : s.latCnt ≠ 0 := by
    intro h0
    have := h.lat
    rw [h0] at this
    simp at this
    omega
  have hover : s.latencyOver = decide (lat + 1 = T) := by
    rw [Bool.eq_iff_iff, HyperBus.latencyOver_iff (by omega), htotal, h.lat, decide_eq_true_eq]
    omega
  refine ⟨⟨?_, hop.trans h.op, ?_, ?_, ?_⟩, ?_⟩
  · simp only [next, step, stateNext, h.state, hover, decide_eq_true_eq]
  · simp only [next, step, h.state]
    exact h.cmd
  · simp only [next, step, h.state]
    rw [HyperRam.toNat_succ (by rw [h.lat]; omega), h.lat]
  · simp only [next, step, h.state]
    exact h.data
  · simp only [next, step, h.state, if_neg hzero]

/-- a data cycle: the byte that is sent with its mask, or the byte that is taken -/
theorem phase_data (hd : data < 4) (dq : ℕ → BitVec 8) (h : s.Phase .data o cmd lat data)
    (hrd : o.isRead = true → ∀ j < data, byteOf s.rdData j = dq j) (hdq : dq data = i.dqI) :
    (s.next latency i).Phase (if data = 3 then .done else .data) o cmd lat (data + 1) ∧
      (o.isRead = true → ∀ j < data + 1, byteOf (s.next latency i).rdData j = dq j) ∧
      ∀ a d strb, o = .write a d strb → s.dqOe = true ∧ s.dqO = byteOf d data ∧ s.rwdsO = !strb.getLsbD data := by
  have hop := op_step latency i (s := s) (by rw [h.state]; decide)
  have hlane := HyperBus.lane_eq h.data hd
  have hread : s.isRead = o.isRead := by rw [← h.op, op_isRead]
  refine ⟨⟨?_, hop.trans h.op, ?_, ?_, ?_⟩, ?_, ?_⟩
  · simp only [next, step, stateNext, h.state, HyperBus.dataOver_eq h.data hd, decide_eq_true_eq]
  · simp only [next, step, h.state]
    exact h.cmd
  · simp only [next, step, h.state]
    exact h.lat
  · simp only [next, step, h.state]
    exact HyperBus.dataCnt_succ h.data hd
  · intro hr j hj
    have hnext : (s.next latency i).rdData = s.capture i.dqI := by
      simp only [next, step, h.state, hread, hr, if_true]
    rw [hnext, byteOf_capture _ hlane hd (by omega)]
    by_cases hjd : j = data
    · rw [if_pos hjd, hjd, hdq]
    · rw [if_neg hjd]
      exact hrd hr j (by omega)
  · rintro a d strb rfl
    have hop' := h.op
    unfold op at hop'
    have hwrite : s.isRead = false := hread
    rw [hwrite] at hop'
    obtain ⟨-, rfl, rfl⟩ := PortOp.write.inj hop'
    refine ⟨?_, ?_, ?_⟩
    · simp [dqOe, h.state, hwrite]
    · simp [dqO, h.state, hwrite, hlane, byteOf]
    · simp [rwdsO, h.state, hwrite, hlane]

theorem phase_done (h : s.Phase .done o cmd lat data) :
    (s.next latency i).Phase (if s.answers i then .idle else .done) o cmd lat data ∧
      (s.next latency i).rdData = s.rdData := by
  have hop := op_step latency i (s := s) (by rw [h.state]; decide)
  refine ⟨⟨?_, hop.trans h.op, ?_, ?_, ?_⟩, ?_⟩
  · cases hr : s.isRead <;> simp [next, step, stateNext, answers, response, h.state, hr]
  · simp only [next, step, h.state]
    exact h.cmd
  · simp only [next, step, h.state]
    exact h.lat
  · simp only [next, step, h.state]
    exact h.data
  · simp only [next, step, h.state]

end Cycle

/-! ## Runs -/

section Run

variable (latency : BitVec 8) (ins : ℕ → HyperPins)

/-- the controller before cycle `n` -/
abbrev run (n : ℕ) : HyperCtrl := Machine.trace (next latency) reset ins n

/-- an access is taken over in cycle `n` -/
def AcceptedAt (n : ℕ) (o : PortOp) : Prop := (run latency ins n).accepted (ins n) = some o

/-- the latency of the transaction that is taken over in cycle `n`: `hb_rwds_i` counts in its first latency cycle -/
def latencyOf (n : ℕ) : ℕ := if (ins (n + 7)).rwds then 2 * latency.toNat else latency.toNat

/-- the response of this transaction is there in cycle `m`: its phases are over, and it was not handed over before -/
def Pending (n m : ℕ) : Prop :=
  n + 11 + latencyOf latency ins n ≤ m ∧
    ∀ j, n + 11 + latencyOf latency ins n ≤ j → j < m → (run latency ins j).answers (ins j) = false

/-- what the controller does for the access `o`, taken over in cycle `n` -/
structure Shape (n : ℕ) (o : PortOp) : Prop where
  command : ∀ k < 6, (run latency ins (n + 1 + k)).state = .cmd ∧ (run latency ins (n + 1 + k)).dqOe = true ∧
    (run latency ins (n + 1 + k)).dqO = o.ca.extractLsb' (8 * (5 - k)) 8
  waits : ∀ k < latencyOf latency ins n, (run latency ins (n + 7 + k)).state = .latency
  transfer : ∀ k < 4, (run latency ins (n + 7 + latencyOf latency ins n + k)).state = .data ∧
    ∀ a d strb, o = .write a d strb →
      (run latency ins (n + 7 + latencyOf latency ins n + k)).dqOe = true ∧
      (run latency ins (n + 7 + latencyOf latency ins n + k)).dqO = byteOf d k ∧
      (run latency ins (n + 7 + latencyOf latency ins n + k)).rwdsO = !strb.getLsbD k
  response : ∀ m, Pending latency ins n m → (run latency ins m).state = .done ∧
    ((run latency ins m).response (ins m).m).rvalid = o.isRead ∧
    ((run latency ins m).response (ins m).m).bvalid = !o.isRead ∧
    (o.isRead = true → ∀ k < 4, byteOf ((run latency ins m).response (ins m).m).rdata k =
      (ins (n + 7 + latencyOf latency ins n + k)).dqI)
  closed : ∀ m, Pending latency ins n m → (run latency ins m).answers (ins m) = true →
    (run latency ins (m + 1)).state = .idle

variable {latency : BitVec 8} {ins : ℕ → HyperPins} {n : ℕ} {o : PortOp}

theorem stale_at (n : ℕ) : Stale latency (run latency ins n) :=
  Machine.trace_inv _ _ ins (P := Stale latency) (.inl rfl) (fun _ i h => stale_step i h) n

theorem cmd_at (h : AcceptedAt latency ins n o) (k : ℕ) (hk : k ≤ 5) :
    (run latency ins (n + 1 + k)).Phase .cmd o k 0 0 := by
  induction k with
  | zero => exact (phase_accept latency (ins n) h).1
  | succ k ih =>
    have hnext := (phase_cmd latency (ins (n + 1 + k)) (ih (by omega)) (by omega)).1
    rw [if_neg (by omega), min_eq_left (by omega)] at hnext
    exact hnext

theorem loads_at (hlat : 2 ≤ latency.toNat ∧ latency.toNat ≤ 127) (h : AcceptedAt latency ins n o) :
    (run latency ins (n + 7)).Phase .latency o 5 0 0 ∧ (run latency ins (n + 8)).Phase .latency o 5 1 0 ∧
      (run latency ins (n + 8)).latTotal.toNat = latencyOf latency ins n := by
  have hfirst : (run latency ins (n + 7)).Phase .latency o 5 0 0 :=
    (phase_cmd latency (ins (n + 6)) (cmd_at h 5 (le_refl 5)) (le_refl 5)).1
  have hload := phase_latency_first (ins (n + 7)) hlat (stale_at (n + 7)) hfirst
  refine ⟨hfirst, hload.1, ?_⟩
  rw [latencyOf, ← total_toNat hlat, ← hload.2]
  rfl

theorem latency_at (hlat : 2 ≤ latency.toNat ∧ latency.toNat ≤ 127) (h : AcceptedAt latency ins n o) (k : ℕ)
    (hk : k + 1 ≤ latencyOf latency ins n) :
    (run latency ins (n + 8 + k)).Phase (if k + 1 = latencyOf latency ins n then .data else .latency) o 5 (k + 1) 0 ∧
      (run latency ins (n + 8 + k)).latTotal.toNat = latencyOf latency ins n := by
  obtain ⟨-, hone, htotal⟩ := loads_at hlat h
  induction k with
  | zero =>
    have hge : 2 ≤ latencyOf latency ins n := by
      unfold latencyOf
      split_ifs
      · omega
      · exact hlat.1
    rw [if_neg (by omega)]
    exact ⟨hone, htotal⟩
  | succ k ih =>
    obtain ⟨hphase, hstays⟩ := ih (by omega)
    rw [if_neg (by omega)] at hphase
    have hnext := phase_latency latency (ins (n + 8 + k)) hstays (by omega) (by omega) hphase
    refine ⟨hnext.1, ?_⟩
    rw [← hstays]
    exact congrArg BitVec.toNat hnext.2

theorem data_at (hlat : 2 ≤ latency.toNat ∧ latency.toNat ≤ 127) (h : AcceptedAt latency ins n o) (k : ℕ) (hk : k ≤ 4) :
    (run latency ins (n + 7 + latencyOf latency ins n + k)).Phase (if k = 4 then .done else .data) o 5
        (latencyOf latency ins n) k ∧
      (o.isRead = true → ∀ j < k, byteOf (run latency ins (n + 7 + latencyOf latency ins n + k)).rdData j =
        (ins (n + 7 + latencyOf latency ins n + j)).dqI) := by
  induction k with
  | zero =>
    have hpos : 0 < latencyOf latency ins n := by
      unfold latencyOf
      split_ifs <;> omega
    have hlast := (latency_at hlat h (latencyOf latency ins n - 1) (by omega)).1
    rw [if_pos (by omega), Nat.sub_add_cancel hpos,
      show n + 8 + (latencyOf latency ins n - 1) = n + 7 + latencyOf latency ins n + 0 by omega] at hlast
    exact ⟨hlast, fun _ j hj => absurd hj (Nat.not_lt_zero j)⟩
  | succ k ih =>
    obtain ⟨hphase, hbytes⟩ := ih (by omega)
    rw [if_neg (by omega)] at hphase
    have hnext := phase_data latency (ins (n + 7 + latencyOf latency ins n + k)) (by omega)
      (fun j => (ins (n + 7 + latencyOf latency ins n + j)).dqI) hphase hbytes rfl
    refine ⟨?_, hnext.2.1⟩
    have hstate : (if k + 1 = 4 then HyperState.done else .data) = if k = 3 then .done else .data := by
      simp only [Nat.succ.injEq]
    rw [hstate]
    exact hnext.1

/-- the controller waits with the response until it is taken -/
theorem done_at (hlat : 2 ≤ latency.toNat ∧ latency.toNat ≤ 127) (h : AcceptedAt latency ins n o) {m : ℕ}
    (hm : Pending latency ins n m) :
    (run latency ins m).Phase .done o 5 (latencyOf latency ins n) 4 ∧
      (o.isRead = true → ∀ j < 4, byteOf (run latency ins m).rdData j =
        (ins (n + 7 + latencyOf latency ins n + j)).dqI) := by
  obtain ⟨hge, hwait⟩ := hm
  induction m, hge using Nat.le_induction with
  | base =>
    have hlast := data_at hlat h 4 (le_refl 4)
    rw [show n + 7 + latencyOf latency ins n + 4 = n + 11 + latencyOf latency ins n by omega] at hlast
    exact hlast
  | succ m hge ih =>
    obtain ⟨hphase, hbytes⟩ := ih fun j h1 h2 => hwait j h1 (by omega)
    obtain ⟨hnext, hkept⟩ := phase_done latency (ins m) hphase
    rw [hwait m hge (Nat.lt_succ_self m), if_neg Bool.false_ne_true] at hnext
    refine ⟨hnext, fun hr j hj => ?_⟩
    rw [← hbytes hr j hj, ← hkept]
    rfl

theorem shape_of_accepted (hlat : 2 ≤ latency.toNat ∧ latency.toNat ≤ 127) (h : AcceptedAt latency ins n o) :
    Shape latency ins n o where
  command k hk := by
    have hphase := cmd_at h k (by omega)
    exact ⟨hphase.state, (phase_cmd latency (ins (n + 1 + k)) hphase (by omega)).2.2⟩
  waits k hk := by
    cases k with
    | zero => exact (loads_at hlat h).1.state
    | succ k =>
      have hphase := (latency_at hlat h k (by omega)).1
      rw [if_neg (by omega)] at hphase
      rw [show n + 7 + (k + 1) = n + 8 + k by omega]
      exact hphase.state
  transfer k hk := by
    obtain ⟨hphase, hbytes⟩ := data_at hlat h k (by omega)
    rw [if_neg (by omega)] at hphase
    exact ⟨hphase.state, (phase_data latency (ins (n + 7 + latencyOf latency ins n + k)) hk
      (fun j => (ins (n + 7 + latencyOf latency ins n + j)).dqI) hphase hbytes rfl).2.2⟩
  response m hm := by
    obtain ⟨hphase, hbytes⟩ := done_at hlat h hm
    have hread : (run latency ins m).isRead = o.isRead := by rw [← hphase.op, op_isRead]
    refine ⟨hphase.state, ?_, ?_, hbytes⟩
    · simp [response, hphase.state, hread]
    · simp [response, hphase.state, hread]
  closed m hm hans := by
    have hnext := (phase_done latency (ins m) (done_at hlat h hm).1).1
    rw [hans, if_pos rfl] at hnext
    exact hnext.state

/-- a controller that is not idle took something over and was not idle since -/
theorem busy_since (m : ℕ) (hm : (run latency ins m).state ≠ .idle) :
    ∃ n o, n < m ∧ AcceptedAt latency ins n o ∧ ∀ j, n < j → j ≤ m → (run latency ins j).state ≠ .idle := by
  induction m with
  | zero => exact absurd rfl hm
  | succ m ih =>
    by_cases hidle : (run latency ins m).state = .idle
    · have hacc : ∃ o, AcceptedAt latency ins m o := by
        rw [run, Machine.trace_succ] at hm
        simp only [next, step, stateNext, hidle] at hm
        simp only [AcceptedAt, accepted, hidle, if_true]
        split_ifs at hm ⊢ with har haw
        · exact ⟨_, rfl⟩
        · exact ⟨_, rfl⟩
        · exact absurd rfl hm
      obtain ⟨o, ho⟩ := hacc
      refine ⟨m, o, Nat.lt_succ_self m, ho, fun j h1 h2 => ?_⟩
      rw [show j = m + 1 by omega]
      exact hm
    · obtain ⟨n, o, hlt, ho, hbusy⟩ := ih hidle
      refine ⟨n, o, Nat.lt_succ_of_lt hlt, ho, fun j h1 h2 => ?_⟩
      rcases Nat.eq_or_lt_of_le h2 with rfl | hj
      · exact hm
      · exact hbusy j h1 (by omega)

/-- the cycles before the response -/
theorem Shape.before_response (h : Shape latency ins n o) {m : ℕ} (hlt : n < m)
    (hm : m < n + 11 + latencyOf latency ins n) :
    (run latency ins m).state = .cmd ∨ (run latency ins m).state = .latency ∨ (run latency ins m).state = .data := by
  rcases Nat.lt_or_ge m (n + 7) with h6 | h6
  · have hstate := (h.command (m - n - 1) (by omega)).1
    rw [show n + 1 + (m - n - 1) = m by omega] at hstate
    exact .inl hstate
  · rcases Nat.lt_or_ge m (n + 7 + latencyOf latency ins n) with h7 | h7
    · have hstate := h.waits (m - n - 7) (by omega)
      rw [show n + 7 + (m - n - 7) = m by omega] at hstate
      exact .inr (.inl hstate)
    · have hstate := (h.transfer (m - n - 7 - latencyOf latency ins n) (by omega)).1
      rw [show n + 7 + latencyOf latency ins n + (m - n - 7 - latencyOf latency ins n) = m by omega] at hstate
      exact .inr (.inr hstate)

/-- until the response is taken the controller is not idle -/
theorem Shape.busy (h : Shape latency ins n o) {j m : ℕ} (hlt : n < j) (hle : j ≤ m) (hm : Pending latency ins n m) :
    (run latency ins j).state ≠ .idle := by
  rcases Nat.lt_or_ge j (n + 11 + latencyOf latency ins n) with hbefore | hafter
  · rcases h.before_response hlt hbefore with hs | hs | hs <;> rw [hs] <;> decide
  · rw [(h.response j ⟨hafter, fun k h1 h2 => hm.2 k h1 (by omega)⟩).1]
    decide

theorem idle_of_accepted (h : AcceptedAt latency ins n o) : (run latency ins n).state = .idle := by
  by_contra hidle
  rw [AcceptedAt, accepted, if_neg hidle] at h
  exact absurd h nofun

/-- a response that is there is that of the last transaction -/
theorem pending_of_done (hlat : 2 ≤ latency.toNat ∧ latency.toNat ≤ 127) {m : ℕ}
    (hdone : (run latency ins m).state = .done) :
    ∃ n, n < m ∧ (∃ o, AcceptedAt latency ins n o) ∧ Pending latency ins n m := by
  obtain ⟨n, o, hlt, hacc, hbusy⟩ := busy_since m (by rw [hdone]; decide)
  have hshape := shape_of_accepted hlat hacc
  refine ⟨n, hlt, ⟨o, hacc⟩, ?_, ?_⟩
  · by_contra hbefore
    rcases hshape.before_response hlt (by omega) with hs | hs | hs <;> exact absurd (hs.symm.trans hdone) (by decide)
  · intro j
    induction j using Nat.strong_induction_on with
    | _ j ih =>
      intro h1 h2
      rw [← Bool.not_eq_true]
      intro hans
      -- the controller would have been idle in the next cycle
      have hidle := hshape.closed j ⟨h1, fun k hk hkj => ih k hkj hk (by omega)⟩ hans
      exact hbusy (j + 1) (by omega) (by omega) hidle

/-- **The transactions of every run.** Each has its shape; a response is there in a cycle exactly if it is that of a
transaction which waits for it, and that is one transaction. -/
theorem transaction_shape (latency : BitVec 8) (hlat : 2 ≤ latency.toNat ∧ latency.toNat ≤ 127) (ins : ℕ → HyperPins) :
    (∀ n o, AcceptedAt latency ins n o → Shape latency ins n o) ∧
      ∀ m, (run latency ins m).responds (ins m) = true →
        ∃! n, (∃ o, AcceptedAt latency ins n o) ∧ Pending latency ins n m := by
  refine ⟨fun n o h => shape_of_accepted hlat h, fun m hm => ?_⟩
  obtain ⟨n, hlt, ⟨o, hacc⟩, hp⟩ := pending_of_done hlat ((responds_iff _ _).1 hm)
  refine ⟨n, ⟨⟨o, hacc⟩, hp⟩, ?_⟩
  rintro n' ⟨⟨o', hacc'⟩, hp'⟩
  have hlt' : n' < m := by
    have := hp'.1
    omega
  rcases Nat.lt_trichotomy n n' with hbefore | heq | hafter
  · exact absurd (idle_of_accepted hacc') ((shape_of_accepted hlat hacc).busy hbefore hlt'.le hp)
  · exact heq.symm
  · exact absurd (idle_of_accepted hacc) ((shape_of_accepted hlat hacc').busy hafter hlt.le hp')

/-- a read with `hb_rwds_i` high in its first latency cycle, then a write with it low -/
def slowThenFast (n : ℕ) : HyperPins where
  m :=
    { arvalid := n == 0
      araddr := 8
      rready := true
      awvalid := n == 24
      awaddr := 12
      wvalid := n == 24
      wdata := 0x11223344
      wstrb := 0b1111
      bready := true }
  rwds := n == 7
  dqI := 0x5A

theorem transaction_shape_slowThenFast :
    Shape 6 slowThenFast 0 (.read 8) ∧ Shape 6 slowThenFast 24 (.write 12 0x11223344 0b1111) := by
  refine ⟨(transaction_shape 6 (by decide) slowThenFast).1 0 _ ?_,
    (transaction_shape 6 (by decide) slowThenFast).1 24 _ ?_⟩
  · unfold AcceptedAt
    decide +kernel
  · unfold AcceptedAt
    decide +kernel

end Run

end HyperCtrl

end Vsync
