/-
The interrupt of `uart_apb` through `plic`, as the top level connects them: the UART drives a level, the PLIC records
edges.

- `IrqPath`: the two peripherals on the APB bus; the UART is source 1, the GPIO source 2.
- `Answered`: with the line of the UART up for two cycles, and its source enabled, above the threshold and unclaimed,
  `ext_irq` is up.
- `Serviced`: a completion of the source does not find its line up without a new edge; `answered_of_serviced`: in a run
  of such steps every state is `Answered`.
- `lost_of_not_serviced`: any other completion loses the interrupt; `second_byte_unanswered`: a handler that reads one
  of two bytes.
-/
import Vsync.Bus.SharedApb
import Vsync.Bus.Uart
import Vsync.Bus.Plic

namespace Vsync

open Machine

/-- `u_uart` and `u_plic` -/
structure IrqPath where
  uart : Uart
  plic : Plic

/-- the merged APB lines, `uart_rx` and `gpio_irq` -/
structure IrqPathIn where
  apb : ApbLines
  uartRx : Bool
  gpioIrq : Bool

/-- the place of `uart_irq` in `plic_irq_sources` -/
def uartSource : Source := 1

namespace IrqPath

def uartIn (i : IrqPathIn) : UartIn where
  psel := Peripheral.selects i.apb .uart
  penable := i.apb.penable
  pwrite := i.apb.pwrite
  paddr := i.apb.paddr.setWidth 8
  pwdata := i.apb.pwdata
  uartRx := i.uartRx

section Step

variable (s : IrqPath) (i : IrqPathIn)

def irqSources : Source → Bool
  | 1 => s.uart.irq
  | 2 => i.gpioIrq
  | _ => false

def plicIn : PlicIn where
  psel := Peripheral.selects i.apb .plic
  penable := i.apb.penable
  pwrite := i.apb.pwrite
  paddr := i.apb.paddr.setWidth 16
  pwdata := i.apb.pwdata
  irqSources := s.irqSources i

def step : IrqPath := ⟨s.uart.step (uartIn i), s.plic.step (s.plicIn i)⟩

end Step

/-- the memories of the FIFOs are not reset -/
def reset (txMem rxMem : BitVec 4 → BitVec 8) : IrqPath := ⟨Uart.reset txMem rxMem, Plic.reset⟩

/-- the line of the UART has been up for two cycles: `irq_sources_prev` is the cycle before -/
def Up (s : IrqPath) : Prop := s.plic.irqSourcesPrev uartSource = true ∧ s.uart.irq = true

/-- nothing keeps the interrupt of the UART back -/
def Armed (s : IrqPath) : Prop :=
  s.plic.enable uartSource = true ∧ s.plic.threshold < s.plic.sourcePriority uartSource ∧
    s.plic.claimed uartSource = false

def Answered (s : IrqPath) : Prop := s.Up → s.Armed → s.plic.extIrq = true

/-- a completion of the UART finds its line down, or an edge in the cycle, or one that no claim has taken -/
def Serviced (s : IrqPath) (i : IrqPathIn) : Prop :=
  (s.plicIn i).completesFor uartSource = true → s.Up → s.plic.pending uartSource = true

instance (s : IrqPath) : Decidable s.Up := inferInstanceAs (Decidable (_ ∧ _))

instance (s : IrqPath) : Decidable s.Armed := inferInstanceAs (Decidable (_ ∧ _))

instance (s : IrqPath) (i : IrqPathIn) : Decidable (s.Serviced i) := inferInstanceAs (Decidable (_ → _ → _))

section Cycle

variable {s : IrqPath} {i : IrqPathIn}

/-- the edge that raised the line is not lost -/
def Recorded (s : IrqPath) : Prop := s.Up → s.plic.claimed uartSource = false → s.plic.pending uartSource = true

theorem answered_of_recorded (h : s.Recorded) : s.Answered := by
  rintro hup ⟨hen, hprio, hclaimed⟩
  exact (Plic.extIrq_iff s.plic).2 ⟨uartSource, ⟨hen, h hup hclaimed, hclaimed⟩, hprio⟩

theorem edge_iff : s.plic.irqRisingEdge (s.plicIn i) uartSource =
    (s.uart.irq && !s.plic.irqSourcesPrev uartSource) := rfl

theorem recorded_step (h : s.Recorded) (hs : s.Serviced i) : (s.step i).Recorded := by
  rintro ⟨hprev, -⟩ hclaimed
  -- the line was up in this cycle
  have hirq : s.uart.irq = true := hprev
  change (s.plic.step (s.plicIn i)).claimed uartSource = false at hclaimed
  change (s.plic.step (s.plicIn i)).pending uartSource = true
  rw [Plic.step_claimed] at hclaimed
  rw [Plic.step_pending, edge_iff, hirq, Bool.true_and]
  cases hold : s.plic.irqSourcesPrev uartSource with
  | false => rfl
  | true =>
    have hup : s.Up := ⟨hold, hirq⟩
    by_cases hc : (s.plicIn i).completesFor uartSource = true
    · have hclaim : s.plic.claims (s.plicIn i) uartSource = false := by
        by_contra hclaim
        rw [Plic.not_completes_of_claims (Bool.eq_true_of_not_eq_false hclaim) uartSource] at hc
        exact absurd hc (by simp)
      rw [hclaim]
      exact hs hc hup
    · rw [if_neg hc] at hclaimed
      by_cases hclaim : s.plic.claims (s.plicIn i) uartSource = true
      · rw [if_pos hclaim] at hclaimed
        exact absurd hclaimed (by simp)
      · rw [if_neg hclaim] at hclaimed
        rw [if_neg hclaim]
        exact h hup hclaimed

end Cycle

/-- the lines of a transfer, `SETUP` in the even cycle and `ACCESS` in the odd one -/
def transferLines (pwrite : Bool) (a d : Word) (n : ℕ) : ApbLines := ⟨true, n % 2 == 1, pwrite, a, d⟩

/-- divisor 16, the receive interrupt on, the UART at priority 1 and enabled; two bytes on a line that stays low; a
claim, one byte taken, a completion -/
def twoByteRun (n : ℕ) : IrqPathIn where
  apb :=
    if n < 2 then transferLines true 0x10000010 16 n
    else if n < 4 then transferLines true 0x1000000C 0b1010 n
    else if n < 6 then transferLines true 0x0C000004 1 n
    else if n < 8 then transferLines true 0x0C000100 0b10 n
    else if n < 320 then ⟨false, false, false, 0, 0⟩
    else if n < 322 then transferLines false 0x0C000204 0 n
    else if n < 324 then transferLines false 0x10000004 0 n
    else if n < 326 then transferLines true 0x0C000204 2 n
    else ⟨false, false, false, 0, 0⟩
  uartRx := decide (n < 8)
  gpioIrq := false

/-- **In a run of such steps no interrupt of the UART is lost.** -/
theorem answered_of_serviced (txMem rxMem : BitVec 4 → BitVec 8) (ins : ℕ → IrqPathIn) (n : ℕ)
    (hs : ∀ k < n, Serviced (trace step (reset txMem rxMem) ins k) (ins k)) :
    Answered (trace step (reset txMem rxMem) ins n) := by
  have h0 : (reset txMem rxMem).Recorded := fun hup => absurd hup.1 (by simp [reset, Plic.reset])
  exact answered_of_recorded (trace_inv_of step _ ins h0 (fun _ _ h hstep => recorded_step h hstep) n hs)

/-- up to cycle 320 the bytes wait, and the handler is called; in cycle 327 the second byte waits, and nobody is told -/
theorem twoByteRun_facts :
    (∀ k < 320, Serviced (trace step (reset (fun _ => 0) fun _ => 0) twoByteRun k) (twoByteRun k)) ∧
      Up (trace step (reset (fun _ => 0) fun _ => 0) twoByteRun 320) ∧
      Armed (trace step (reset (fun _ => 0) fun _ => 0) twoByteRun 320) ∧
      Up (trace step (reset (fun _ => 0) fun _ => 0) twoByteRun 327) ∧
      Armed (trace step (reset (fun _ => 0) fun _ => 0) twoByteRun 327) ∧
      (trace step (reset (fun _ => 0) fun _ => 0) twoByteRun 327).uart.rx.fifo.empty = false ∧
      (trace step (reset (fun _ => 0) fun _ => 0) twoByteRun 327).plic.extIrq = false := by
  decide +kernel

theorem two_bytes_answered : (trace step (reset (fun _ => 0) fun _ => 0) twoByteRun 320).plic.extIrq = true := by
  obtain ⟨hserviced, hup, harmed, -⟩ := twoByteRun_facts
  exact answered_of_serviced (fun _ => 0) (fun _ => 0) twoByteRun 320 hserviced hup harmed

/-! ## The lost interrupt -/

section Lost

variable {s : IrqPath} {i : IrqPathIn}

/-- a UART that is not accessed keeps its interrupt up -/
theorem irq_of_not_selected {u : Uart} {j : UartIn} (hwf : u.rx.fifo.WellFormed) (hsel : j.psel = false)
    (h : u.irq = true) : (u.step j).irq = true := by
  have hwrite : j.writeEn = false := by simp [UartIn.writeEn, hsel]
  have hpush : j.txPush = none := by simp [UartIn.txPush, hwrite]
  have hpop : j.rxPop = false := by simp [UartIn.rxPop, UartIn.readEn, hsel]
  have hctrl : u.ctrlNext j = u.ctrl := by simp [Uart.ctrlNext, hwrite]
  have hstep : (u.step j).irq = (((u.tx.fifo.step none (u.tx.pop u.ctrl)).empty && u.ctrl.txIe) ||
      (!(u.rx.fifo.step (if u.rx.done u.ctrl then some u.rx.shiftReg else none) false).empty && u.ctrl.rxIe)) := by
    simp only [Uart.irq, Uart.step, UartTx.step, UartRx.step, hpush, hpop, hctrl]
  rw [hstep]
  simp only [Uart.irq, Bool.or_eq_true, Bool.and_eq_true, Bool.not_eq_true'] at h ⊢
  rcases h with ⟨hempty, hie⟩ | ⟨hfull, hie⟩
  · exact .inl ⟨by rw [Ring.step_none_of_empty hempty, hempty], hie⟩
  · exact .inr ⟨Ring.not_empty_of_no_pop hwf hfull _, hie⟩

/-- the bus selects one peripheral -/
theorem uart_not_selected (h : (s.plicIn i).psel = true) : (uartIn i).psel = false := by
  simp only [plicIn, Peripheral.selects, Bool.and_eq_true, decide_eq_true_eq] at h
  simp only [uartIn, Peripheral.selects, Bool.and_eq_false_iff, decide_eq_false_iff_not]
  refine .inr fun huart => ?_
  exact absurd (Peripheral.holds_unique huart h.2) (by simp)

/-- **Any other completion loses the interrupt**: the line is up, the source is unclaimed and not pending. -/
theorem lost_of_not_serviced (hwf : s.uart.rx.fifo.WellFormed) (h : ¬ s.Serviced i) :
    (s.step i).Up ∧ (s.step i).plic.claimed uartSource = false ∧ (s.step i).plic.pending uartSource = false := by
  unfold Serviced at h
  push Not at h
  obtain ⟨hc, hup, hpend⟩ := h
  have hwrite : (s.plicIn i).psel = true := by
    simp only [PlicIn.completesFor, PlicIn.completes, PlicIn.writeEn, Bool.and_eq_true] at hc
    exact hc.1.1.1.1.1
  have hirq := irq_of_not_selected hwf (uart_not_selected hwrite) hup.2
  have hedge : s.plic.irqRisingEdge (s.plicIn i) uartSource = false := by rw [edge_iff, hup.1, hup.2]; rfl
  refine ⟨⟨hup.2, hirq⟩, ?_, ?_⟩
  · change (s.plic.step (s.plicIn i)).claimed uartSource = false
    rw [Plic.step_claimed, if_pos hc]
  · change (s.plic.step (s.plicIn i)).pending uartSource = false
    rw [Plic.step_pending, hedge]
    simp [hpend]

/-- as long as the line is up, the source does not get pending again -/
theorem not_pending_step (hup : s.Up) (hpend : s.plic.pending uartSource = false) :
    (s.step i).plic.pending uartSource = false := by
  have hedge : s.plic.irqRisingEdge (s.plicIn i) uartSource = false := by rw [edge_iff, hup.1, hup.2]; rfl
  change (s.plic.step (s.plicIn i)).pending uartSource = false
  rw [Plic.step_pending, hedge]
  simp [hpend]

end Lost

/-- the second byte of the run waits, and nobody is told -/
theorem second_byte_unanswered : ¬ ∀ (txMem rxMem : BitVec 4 → BitVec 8) (ins : ℕ → IrqPathIn) (n : ℕ),
    Answered (trace step (reset txMem rxMem) ins n) := by
  intro h
  obtain ⟨-, -, -, hup, harmed, -, hirq⟩ := twoByteRun_facts
  rw [h (fun _ => 0) (fun _ => 0) twoByteRun 327 hup harmed] at hirq
  exact Bool.noConfusion hirq

/-! ## The lost interrupt in a run -/

section LostRun

variable (txMem rxMem : BitVec 4 → BitVec 8) (ins : ℕ → IrqPathIn)

/-- the receive FIFO of a run is well formed -/
theorem rxFifo_wellFormed (n : ℕ) : (trace step (reset txMem rxMem) ins n).uart.rx.fifo.WellFormed :=
  trace_inv_of step _ ins (P := fun s : IrqPath => s.uart.rx.fifo.WellFormed) (C := fun _ _ => True)
    ⟨by simp [reset, Uart.reset], rfl⟩ (fun _ _ h _ => (Ring.step_contents h _ _).1) n fun _ _ => trivial

/-- **A completion that breaks the rule**: from then on the source is not pending as long as its line stays up. -/
theorem lost_until_down {m n : ℕ} (hm : ¬ Serviced (trace step (reset txMem rxMem) ins m) (ins m)) (hmn : m < n)
    (hup : ∀ k, m < k → k < n → Up (trace step (reset txMem rxMem) ins k)) :
    (trace step (reset txMem rxMem) ins n).plic.pending uartSource = false := by
  induction n, hmn using Nat.le_induction with
  | base => exact (lost_of_not_serviced (rxFifo_wellFormed txMem rxMem ins m) hm).2.2
  | succ n hmn ih =>
    have hold := ih fun k hmk hkn => hup k hmk (hkn.trans (Nat.lt_succ_self n))
    exact not_pending_step (hup n hmn (Nat.lt_succ_self n)) hold

end LostRun

end IrqPath

end Vsync
