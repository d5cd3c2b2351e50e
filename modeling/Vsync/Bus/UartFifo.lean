/-
The FIFOs of `uart_apb.sv` for any `FIFO_DEPTH` = `2 ^ w`: the memory with its write pointer, the read pointer and the
count are three processes over the same requests.

- `UartFifo.step`: the three processes; `ring_step`: together they are a ring.
- `FifoReq.tx`, `FifoReq.rx`: what the two FIFOs push.
- `uart_fifo_queue`: **a FIFO is a queue of `FIFO_DEPTH` entries** in every run from reset.
- `Uart.fifos_step`: the FIFOs in the whole UART.
-/
import Vsync.Bus.Uart

namespace Vsync

/-- `tx_fifo`, `tx_wr_ptr`, `tx_rd_ptr`, `tx_count`, and the same for `rx` -/
structure UartFifo (w : ℕ) where
  fifo : BitVec w → BitVec 8
  wrPtr : BitVec (w + 1)
  rdPtr : BitVec (w + 1)
  count : BitVec (w + 1)

/-- `tx_fifo_push`, the byte that is written, `tx_fifo_pop` -/
structure FifoReq where
  push : Bool
  wdata : BitVec 8
  pop : Bool

namespace FifoReq

def tx (push : Bool) (pwdata : Word) (pop : Bool) : FifoReq := ⟨push, pwdata.setWidth 8, pop⟩

def rx (push : Bool) (wdata : BitVec 8) (pop : Bool) : FifoReq := ⟨push, wdata, pop⟩

/-- the push as a queue sees it -/
def entry (i : FifoReq) : Option (BitVec 8) := if i.push then some i.wdata else none

end FifoReq

namespace UartFifo

variable {w : ℕ}

/-- the memory has no reset -/
def reset (mem : BitVec w → BitVec 8) : UartFifo w := ⟨mem, 0, 0, 0⟩

section Unit

variable (f : UartFifo w) (i : FifoReq)

def full : Bool := f.count == BitVec.ofNat (w + 1) (2 ^ w)

def empty : Bool := f.count == 0

/-- the entry at the read pointer, which the transmitter and `apb_prdata` take -/
def rdata : BitVec 8 := f.fifo (f.rdPtr.setWidth w)

/-- the write process: the memory -/
def fifoNext : BitVec w → BitVec 8 :=
  if i.push && !f.full then Function.update f.fifo (f.wrPtr.setWidth w) i.wdata else f.fifo

/-- the write process: the pointer -/
def wrPtrNext : BitVec (w + 1) := if i.push && !f.full then f.wrPtr + 1 else f.wrPtr

/-- the read pointer process -/
def rdPtrNext : BitVec (w + 1) := if i.pop && !f.empty then f.rdPtr + 1 else f.rdPtr

/-- the count process -/
def countNext : BitVec (w + 1) :=
  match i.push && !f.full, i.pop && !f.empty with
  | true, false => f.count + 1
  | false, true => f.count - 1
  | _, _ => f.count

def step : UartFifo w := ⟨f.fifoNext i, f.wrPtrNext i, f.rdPtrNext i, f.countNext i⟩

def ring : Ring (BitVec 8) w := ⟨f.fifo, f.wrPtr, f.rdPtr, f.count⟩

end Unit

/-- **The three processes together** are the ring. -/
theorem ring_step (f : UartFifo w) (i : FifoReq) : (f.step i).ring = f.ring.step i.entry i.pop := by
  have hpush : f.ring.pushes i.entry = (i.push && !f.full) := by
    unfold Ring.pushes FifoReq.entry
    cases i.push <;> rfl
  have hpop : f.ring.pops i.pop = (i.pop && !f.empty) := rfl
  have hmem : (f.ring.step i.entry i.pop).mem = f.fifoNext i := by
    unfold Ring.step FifoReq.entry fifoNext
    cases hp : i.push with
    | false => rfl
    | true =>
      cases hfull : f.full with
      | false => exact if_neg (by simpa [Ring.full, ring, full] using hfull)
      | true => exact if_pos hfull
  have hcount : (f.ring.step i.entry i.pop).count = f.countNext i := by
    unfold Ring.step countNext
    rw [hpush, hpop]
    cases i.push && !f.full <;> cases i.pop && !f.empty <;> rfl
  rw [ring, step]
  refine congr (congr (congr (congrArg Ring.mk hmem.symm) ?_) rfl) hcount.symm
  rw [hpush]
  rfl

/-! ## Runs from reset -/

/-- the queue that the requests make -/
def queueStep (w : ℕ) (q : List (BitVec 8)) (i : FifoReq) : List (BitVec 8) := Queue.step (2 ^ w) q i.entry i.pop

/-- what the FIFO is before cycle `n`, for a queue `q` -/
structure IsQueue (f : UartFifo w) (q : List (BitVec 8)) : Prop where
  contents : f.ring.contents = q
  count : f.count.toNat = q.length
  room : q.length ≤ 2 ^ w
  full : f.full = true ↔ q.length = 2 ^ w
  empty : f.empty = true ↔ q = []
  rdata : ∀ a q', q = a :: q' → f.rdata = a

theorem isQueue_contents {f : UartFifo w} (h : f.ring.WellFormed) : f.IsQueue f.ring.contents where
  contents := rfl
  count := (Ring.length_contents (r := f.ring)).symm
  room := by
    rw [Ring.length_contents]
    exact h.count_le
  full := by
    rw [Ring.length_contents]
    exact Ring.full_iff (r := f.ring)
  empty := by
    rw [← List.length_eq_zero_iff, Ring.length_contents]
    exact Ring.empty_iff (r := f.ring)
  rdata a q' hq := by
    have hne : f.ring.empty = false := by
      rw [← Bool.not_eq_true, Ring.empty_iff, ← Ring.length_contents, hq]
      simp
    have hhead := Ring.head_eq hne
    rw [hq, List.head?_cons, Option.some_inj] at hhead
    exact hhead.symm

section Run

variable (mem : BitVec w → BitVec 8) (reqs : ℕ → FifoReq)

/-- the ring stays well formed, and its contents follow the queue -/
theorem ring_run (n : ℕ) : (Machine.trace step (reset mem) reqs n).ring.WellFormed ∧
    (Machine.trace step (reset mem) reqs n).ring.contents = Machine.trace (queueStep w) [] reqs n := by
  induction n with
  | zero => exact ⟨⟨Nat.zero_le _, rfl⟩, rfl⟩
  | succ n ih =>
    obtain ⟨hwf, hcontents⟩ := ih
    rw [Machine.trace_succ, Machine.trace_succ, ring_step, ← hcontents]
    exact ⟨(Ring.step_contents hwf _ _).1, Ring.step_queue hwf _ _⟩

theorem isQueue_run (n : ℕ) :
    (Machine.trace step (reset mem) reqs n).IsQueue (Machine.trace (queueStep w) [] reqs n) := by
  obtain ⟨hwf, hcontents⟩ := ring_run mem reqs n
  rw [← hcontents]
  exact isQueue_contents hwf

end Run

/-- **The FIFOs are bounded queues**: for every depth `2 ^ w`, memory and sequence of pushes and pops, the TX and the RX
FIFO hold in every cycle the queue of `2 ^ w` entries that the requests make; and a queue gives out what it accepts, in
order. -/
theorem uart_fifo_queue (mem : BitVec w → BitVec 8) (push pop : ℕ → Bool) (pwdata : ℕ → Word) (wdata : ℕ → BitVec 8)
    (n : ℕ) :
    (Machine.trace step (reset mem) (fun k => .tx (push k) (pwdata k) (pop k)) n).IsQueue
      (Machine.trace (queueStep w) [] (fun k => .tx (push k) (pwdata k) (pop k)) n) ∧
    (Machine.trace step (reset mem) (fun k => .rx (push k) (wdata k) (pop k)) n).IsQueue
      (Machine.trace (queueStep w) [] (fun k => .rx (push k) (wdata k) (pop k)) n) ∧
    ∀ reqs : ℕ → FifoReq,
      Machine.log (fun q i => Queue.accepted (2 ^ w) q i.entry) (queueStep w) [] reqs n =
        Machine.log (fun q i => Queue.popped q i.pop) (queueStep w) [] reqs n ++
          Machine.trace (queueStep w) [] reqs n :=
  ⟨isQueue_run mem _ n, isQueue_run mem _ n, fun reqs => Queue.run_law (2 ^ w) FifoReq.entry FifoReq.pop reqs n⟩

/-- on two places the third push is dropped, although its cycle pops -/
example : Machine.trace (queueStep 1) [] (fun k => ⟨true, BitVec.ofNat 8 k, k == 2⟩) 3 = [1] := by decide

/-! ## In the UART -/

def ofRing (r : Ring (BitVec 8) w) : UartFifo w := ⟨r.mem, r.wr, r.rd, r.count⟩

end UartFifo

namespace Uart

/-- the FIFOs of the UART, with what pushes and pops them -/
theorem fifos_step (u : Uart) (i : UartIn) :
    (u.step i).tx.fifo = ((UartFifo.ofRing u.tx.fifo).step
      (.tx (i.writeEn && i.paddr == 0x00) i.pwdata (u.tx.pop u.ctrl))).ring ∧
    (u.step i).rx.fifo = ((UartFifo.ofRing u.rx.fifo).step (.rx (u.rx.done u.ctrl) u.rx.shiftReg i.rxPop)).ring := by
  rw [UartFifo.ring_step, UartFifo.ring_step]
  exact ⟨rfl, rfl⟩

end Uart

end Vsync
