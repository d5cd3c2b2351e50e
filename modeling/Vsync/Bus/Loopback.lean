/-
`uart_apb` with `uart_tx` wired to `uart_rx`, over whole runs.

- `acceptedBy`, `sentBy`, `receivedBy`: the bytes that the transmit FIFO took, that the transmitter took from it, and
  that the receiver pushed.
- `Position`: what is sent and not received is the byte of the frame on the line; `position_step`: one cycle.
- `RoundTrip`: what is received is what was accepted, in order, one byte a frame, and all of it arrives.
- `round_trip`: so it is in every run at a constant divisor of at least 16.
-/
import Vsync.Bus.UartFrame

namespace Vsync

open Machine

namespace Uart

section Logs

variable (txMem rxMem : BitVec 4 → BitVec 8) (ins : ℕ → UartIn) (n : ℕ)

def stateAt : Uart := trace loop (reset txMem rxMem) ins n

def acceptedBy : List (BitVec 8) := log (fun u i => u.tx.fifo.accepted i.txPush) loop (reset txMem rxMem) ins n

def sentBy : List (BitVec 8) := log (fun u _ => u.tx.fifo.popped (u.tx.pop u.ctrl)) loop (reset txMem rxMem) ins n

def receivedBy : List (BitVec 8) := log (fun u _ => u.received) loop (reset txMem rxMem) ins n

structure RoundTrip : Prop where
  inOrder : ∀ n, receivedBy txMem rxMem ins n <+: acceptedBy txMem rxMem ins n
  arrives : ∀ n, ∃ m, acceptedBy txMem rxMem ins n <+: receivedBy txMem rxMem ins m
  /-- behind every frame -/
  onePush : ∀ n, (stateAt txMem rxMem ins n).tx.state = .idle → receivedBy txMem rxMem ins n = sentBy txMem rxMem ins n

end Logs

/-- between frames, or in the frame of a byte before or behind its push -/
inductive Position (d : ℕ) (u : Uart) (sent received : List (BitVec 8)) : Prop
  | quiet (h : u.Quiet) (heq : received = sent)
  | flight (b : BitVec 8) (t : ℕ) (h : Frame b d t u) (ht : t < 9 * d + 4) (heq : sent = received ++ [b])
  | landed (b : BitVec 8) (t : ℕ) (h : Frame b d t u) (ht : 9 * d + 4 ≤ t) (heq : received = sent)

section Step

variable {u : Uart} {i : UartIn} {b : BitVec 8} {d t : ℕ} {sent received : List (BitVec 8)}

theorem popped_of_pop (hpop : u.tx.pop u.ctrl = true) : u.tx.fifo.popped (u.tx.pop u.ctrl) = [u.tx.fifo.head] := by
  have hne : u.tx.fifo.empty = false := by
    simp only [UartTx.pop, Bool.and_eq_true, Bool.not_eq_true'] at hpop
    exact hpop.1.2
  rw [Ring.popped, Ring.pops, hpop, hne]
  rfl

theorem popped_of_not_pop (hpop : u.tx.pop u.ctrl = false) : u.tx.fifo.popped (u.tx.pop u.ctrl) = [] := by
  simp [Ring.popped, Ring.pops, hpop]

/-- **One cycle**: the byte of a pop is on the line until its push. -/
theorem position_step (h : Position d u sent received) (hen : u.Enabled d) (hd : 16 ≤ d) :
    Position d (u.loop i) (sent ++ u.tx.fifo.popped (u.tx.pop u.ctrl)) (received ++ u.received) := by
  cases h with
  | quiet hq heq =>
    rw [received_of_quiet hq, List.append_nil]
    cases hpop : u.tx.pop u.ctrl with
    | true =>
      have hframe := frame_of_pop (i := i) hq (show 0 < d by omega) hpop
      rw [← hpop, popped_of_pop hpop]
      exact .flight _ 0 hframe (by omega) (by rw [heq])
    | false =>
      rw [← hpop, popped_of_not_pop hpop, List.append_nil]
      exact .quiet (quiet_of_not_pop hq hpop) heq
  | flight b t hf ht heq =>
    obtain ⟨hnext, hrec⟩ := hf.loop (i := i) hen hd
    rw [popped_of_not_pop (UartTx.not_pop hf.tx.not_idle), List.append_nil, hrec]
    by_cases hlast : t = 9 * d + 3
    · rw [if_pos hlast]
      rcases hnext with ⟨hlt, hframe⟩ | ⟨hend, -⟩
      · exact .landed b (t + 1) hframe (by omega) heq.symm
      · omega
    · rw [if_neg hlast, List.append_nil]
      rcases hnext with ⟨-, hframe⟩ | ⟨hend, -⟩
      · exact .flight b (t + 1) hframe (by omega) heq
      · omega
  | landed b t hf ht heq =>
    obtain ⟨hnext, hrec⟩ := hf.loop (i := i) hen hd
    rw [popped_of_not_pop (UartTx.not_pop hf.tx.not_idle), hrec, if_neg (by omega), List.append_nil, List.append_nil]
    rcases hnext with ⟨-, hframe⟩ | ⟨-, hq⟩
    · exact .landed b (t + 1) hframe (by omega) heq
    · exact .quiet hq heq

end Step

/-! ## Runs -/

section Run

variable {txMem rxMem : BitVec 4 → BitVec 8} {ins : ℕ → UartIn} {d n₀ n : ℕ}

/-- what was accepted and is not sent waits in the FIFO -/
theorem accepted_eq (n : ℕ) : acceptedBy txMem rxMem ins n =
    sentBy txMem rxMem ins n ++ (stateAt txMem rxMem ins n).tx.fifo.contents := by
  have hwf : (reset txMem rxMem).tx.fifo.WellFormed := ⟨by simp [reset], rfl⟩
  exact (@Ring.run_contents _ _ _ _ loop _ (fun u : Uart => u.tx.fifo) (fun _ i => i.txPush)
    (fun u _ => u.tx.pop u.ctrl) ins
    (fun u i => step_txFifo u { i with uartRx := u.tx.line }) hwf n).2

theorem sentBy_succ (n : ℕ) : sentBy txMem rxMem ins (n + 1) = sentBy txMem rxMem ins n ++
    (stateAt txMem rxMem ins n).tx.fifo.popped ((stateAt txMem rxMem ins n).tx.pop
      (stateAt txMem rxMem ins n).ctrl) := rfl

theorem quiet_before (hbefore : ∀ k < n₀, (stateAt txMem rxMem ins k).tx.pop (stateAt txMem rxMem ins k).ctrl = false)
    (hn : n ≤ n₀) : (stateAt txMem rxMem ins n).Quiet ∧ receivedBy txMem rxMem ins n = [] ∧
    sentBy txMem rxMem ins n = [] := by
  induction n with
  | zero => exact ⟨⟨rfl, rfl, rfl, rfl, rfl⟩, rfl, rfl⟩
  | succ n ih =>
    obtain ⟨hq, hrec, hsent⟩ := ih (by omega)
    have hpop := hbefore n (by omega)
    refine ⟨quiet_of_not_pop hq hpop, ?_, ?_⟩
    · rw [receivedBy, log_succ, ← receivedBy, hrec]
      exact received_of_quiet hq
    · rw [sentBy, log_succ, ← sentBy, hsent]
      exact popped_of_not_pop hpop

variable (hbefore : ∀ k < n₀, (stateAt txMem rxMem ins k).tx.pop (stateAt txMem rxMem ins k).ctrl = false)
variable (hafter : ∀ k ≥ n₀, (stateAt txMem rxMem ins k).Enabled d) (hd : 16 ≤ d)

include hbefore hafter hd

/-- **The position in a run.** -/
theorem position_run (hn : n₀ ≤ n) :
    Position d (stateAt txMem rxMem ins n) (sentBy txMem rxMem ins n) (receivedBy txMem rxMem ins n) := by
  induction n, hn using Nat.le_induction with
  | base =>
    obtain ⟨hq, hrec, hsent⟩ := quiet_before hbefore (le_refl n₀)
    exact .quiet hq (by rw [hrec, hsent])
  | succ n hn ih => exact position_step ih (hafter n hn) hd

theorem quiet_again (hn : n₀ ≤ n) : ∃ m ≥ n, (stateAt txMem rxMem ins m).Quiet := by
  have hframe : ∀ r n b t, n₀ ≤ n → Frame b d t (stateAt txMem rxMem ins n) → t + r = 10 * d →
      ∃ m ≥ n, (stateAt txMem rxMem ins m).Quiet := by
    intro r
    induction r with
    | zero =>
      intro n b t _ hf hr
      have := hf.inside
      omega
    | succ r ih =>
      intro n b t hn hf hr
      rcases (hf.loop (i := ins n) (hafter n hn) hd).1 with ⟨-, hnext⟩ | ⟨-, hq⟩
      · obtain ⟨m, hm, hq⟩ := ih (n + 1) b (t + 1) (by omega) hnext (by omega)
        exact ⟨m, by omega, hq⟩
      · exact ⟨n + 1, by omega, hq⟩
  cases position_run hbefore hafter hd hn with
  | quiet hq _ => exact ⟨n, le_refl n, hq⟩
  | flight b t hf _ _ => exact hframe (10 * d - t) n b t hn hf (by have := hf.inside; omega)
  | landed b t hf _ _ => exact hframe (10 * d - t) n b t hn hf (by have := hf.inside; omega)

theorem received_eq_sent (h : (stateAt txMem rxMem ins n).tx.state = .idle) :
    receivedBy txMem rxMem ins n = sentBy txMem rxMem ins n := by
  rcases Nat.lt_or_ge n n₀ with hlt | hn
  · obtain ⟨-, hrec, hsent⟩ := quiet_before hbefore hlt.le
    rw [hrec, hsent]
  · cases position_run hbefore hafter hd hn with
    | quiet _ heq => exact heq
    | flight b t hf _ _ => exact absurd h hf.tx.not_idle
    | landed b t _ _ heq => exact heq

theorem received_accepted (n : ℕ) : receivedBy txMem rxMem ins n <+: acceptedBy txMem rxMem ins n := by
  rw [accepted_eq]
  rcases Nat.lt_or_ge n n₀ with hlt | hn
  · rw [(quiet_before hbefore hlt.le).2.1]
    exact List.nil_prefix
  · cases position_run hbefore hafter hd hn with
    | quiet _ heq =>
      rw [heq]
      exact List.prefix_append _ _
    | flight b t _ _ heq =>
      rw [heq, List.append_assoc]
      exact List.prefix_append _ _
    | landed b t _ _ heq =>
      rw [heq]
      exact List.prefix_append _ _

/-- a byte that waits when all is quiet is received before all is quiet again -/
theorem received_more (hn : n₀ ≤ n) (hq : (stateAt txMem rxMem ins n).Quiet)
    (hne : (stateAt txMem rxMem ins n).tx.fifo.empty = false) :
    ∃ m > n, (stateAt txMem rxMem ins m).Quiet ∧
      (receivedBy txMem rxMem ins n).length < (receivedBy txMem rxMem ins m).length := by
  have hpop : (stateAt txMem rxMem ins n).tx.pop (stateAt txMem rxMem ins n).ctrl = true := by
    simp [UartTx.pop, hq.tx, hne, (hafter n hn).txEn]
  have hsent : (sentBy txMem rxMem ins n).length + 1 = (sentBy txMem rxMem ins (n + 1)).length := by
    rw [sentBy_succ, popped_of_pop hpop, List.length_append]
    rfl
  obtain ⟨m, hm, hq'⟩ := quiet_again hbefore hafter hd (show n₀ ≤ n + 1 by omega)
  refine ⟨m, by omega, hq', ?_⟩
  rw [received_eq_sent hbefore hafter hd hq.tx, received_eq_sent hbefore hafter hd hq'.tx]
  have hmono : (sentBy txMem rxMem ins (n + 1)).length ≤ (sentBy txMem rxMem ins m).length :=
    (log_extends loop (reset txMem rxMem) ins hm).length_le
  omega

/-- whatever was accepted by `n` is received some time -/
theorem received_all (n : ℕ) : ∃ m, acceptedBy txMem rxMem ins n <+: receivedBy txMem rxMem ins m := by
  -- as many bytes as one likes of those that were accepted
  have hmany : ∀ k, k ≤ (acceptedBy txMem rxMem ins n).length → ∃ m ≥ max n n₀, (stateAt txMem rxMem ins m).Quiet ∧
      k ≤ (receivedBy txMem rxMem ins m).length := by
    intro k
    induction k with
    | zero =>
      intro _
      obtain ⟨m, hm, hq⟩ := quiet_again hbefore hafter hd (le_max_right n n₀)
      exact ⟨m, hm, hq, Nat.zero_le _⟩
    | succ k ih =>
      intro hk
      obtain ⟨m, hm, hq, hlen⟩ := ih (by omega)
      have hnm : n ≤ m := le_trans (le_max_left n n₀) hm
      have hn₀m : n₀ ≤ m := le_trans (le_max_right n n₀) hm
      cases hempty : (stateAt txMem rxMem ins m).tx.fifo.empty with
      | true =>
        -- all that was accepted has been sent
        refine ⟨m, hm, hq, ?_⟩
        have hcontents : (stateAt txMem rxMem ins m).tx.fifo.contents = [] := by
          rw [← List.length_eq_zero_iff, Ring.length_contents]
          exact Ring.empty_iff.1 hempty
        have haccepted := @accepted_eq txMem rxMem ins m
        rw [hcontents, List.append_nil, ← received_eq_sent hbefore hafter hd hq.tx] at haccepted
        have hmono : (acceptedBy txMem rxMem ins n).length ≤ (acceptedBy txMem rxMem ins m).length :=
          (log_extends loop (reset txMem rxMem) ins hnm).length_le
        rw [haccepted] at hmono
        omega
      | false =>
        obtain ⟨m', hm', hq', hlt⟩ := received_more hbefore hafter hd hn₀m hq hempty
        exact ⟨m', le_trans hm hm'.le, hq', by omega⟩
  obtain ⟨m, hm, -, hlen⟩ := hmany _ (le_refl _)
  have hprefix : acceptedBy txMem rxMem ins n <+: acceptedBy txMem rxMem ins m :=
    log_extends loop (reset txMem rxMem) ins (le_trans (le_max_left n n₀) hm)
  exact ⟨m, List.prefix_of_prefix_length_le hprefix (received_accepted hbefore hafter hd m) hlen⟩

/-- **The loopback round trip**: from reset, with no frame before cycle `n₀` and both sides enabled at the divisor `d`
from then on, for any accesses of the port. -/
theorem round_trip : RoundTrip txMem rxMem ins where
  inOrder := received_accepted hbefore hafter hd
  arrives := received_all hbefore hafter hd
  onePush _ h := received_eq_sent hbefore hafter hd h

end Run

/-- from reset, at the default divisor: one byte, written in cycle 1 -/
def oneByteRun (n : ℕ) : UartIn := ⟨decide (n < 2), n == 1, true, 0x00, 0x55, true⟩

theorem oneByteRun_enabled (k : ℕ) : (stateAt (fun _ => 0) (fun _ => 0) oneByteRun k).Enabled 217 := by
  have hctrl : (stateAt (fun _ => 0) (fun _ => 0) oneByteRun k).ctrl = ⟨false, false, true, true, defaultBaudDiv⟩ := by
    induction k with
    | zero => rfl
    | succ k ih =>
      rw [← ih]
      simp [stateAt, trace_succ, loop, step, ctrlNext, oneByteRun]
  refine ⟨?_, ?_, ?_⟩ <;> rw [hctrl]
  rfl

theorem one_byte_returns : ∃ m, [0x55] <+: receivedBy (fun _ => 0) (fun _ => 0) oneByteRun m :=
  (round_trip (fun k hk => absurd hk (Nat.not_lt_zero k)) (fun k _ => oneByteRun_enabled k) (by decide)).arrives 2

end Uart

end Vsync
