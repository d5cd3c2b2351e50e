/-
`uart_apb.sv` as the top level instantiates it: 25 MHz, 115200 baud, FIFOs of sixteen bytes.

The two FIFOs are rings; the transmitter and the receiver are state machines over a baud counter. A write of `TX_DATA`
pushes whether or not there is room: `pready` does not look at the FIFO.
-/
import Vsync.Ring
import Vsync.Pkg

namespace Vsync

/-- `ctrl_tx_ie`, `ctrl_rx_ie`, `ctrl_tx_en`, `ctrl_rx_en`, `baud_div_r` -/
structure UartCtrl where
  txIe : Bool
  rxIe : Bool
  txEn : Bool
  rxEn : Bool
  baudDiv : Word
  deriving DecidableEq, Repr

/-- `TX_IDLE`, `TX_START`, `TX_DATA0`, …, `TX_STOP` -/
inductive TxState where
  | idle
  | start
  | data (k : Fin 8)
  | stop
  deriving DecidableEq, Repr

structure UartTx where
  fifo : Ring (BitVec 8) 4
  state : TxState
  baudCnt : Word
  shiftReg : BitVec 8
  /-- `uart_tx` -/
  line : Bool

/-- `RX_IDLE`, `RX_START_DET`, `RX_SAMPLE0`, …, `RX_STOP_CHECK` -/
inductive RxState where
  | idle
  | startDet
  | sample (k : Fin 8)
  | stopCheck
  deriving DecidableEq, Repr

structure UartRx where
  fifo : Ring (BitVec 8) 4
  state : RxState
  baudCnt : Word
  fracAcc : BitVec 4
  sampleCnt : BitVec 4
  shiftReg : BitVec 8
  sync1 : Bool
  sync2 : Bool

structure Uart where
  ctrl : UartCtrl
  tx : UartTx
  rx : UartRx

/-- the APB port and the receive line -/
structure UartIn where
  psel : Bool
  penable : Bool
  pwrite : Bool
  paddr : BitVec 8
  pwdata : Word
  uartRx : Bool
  deriving DecidableEq, Repr

namespace UartIn

variable (i : UartIn)

def writeEn : Bool := i.psel && i.penable && i.pwrite

def readEn : Bool := i.psel && i.penable && !i.pwrite

/-- `tx_fifo_push` with its byte: a write of `TX_DATA` -/
def txPush : Option (BitVec 8) := if i.writeEn && i.paddr == 0x00 then some (i.pwdata.setWidth 8) else none

/-- `rx_fifo_pop`: a read of `RX_DATA` -/
def rxPop : Bool := i.readEn && i.paddr == 0x04

end UartIn

namespace UartTx

variable (t : UartTx) (c : UartCtrl)

def pop : Bool := t.state == .idle && !t.fifo.empty && c.txEn

def tick : Bool := t.state != .idle && t.baudCnt == c.baudDiv - 1

def stateNext : TxState :=
  match t.state with
  | .idle => if t.pop c then .start else .idle
  | .start => if t.tick c then .data 0 else .start
  | .data k => if t.tick c then (if k = 7 then .stop else .data (k + 1)) else .data k
  | .stop => if t.tick c then .idle else .stop

def step (i : UartIn) : UartTx where
  fifo := t.fifo.step i.txPush (t.pop c)
  state := t.stateNext c
  baudCnt := if t.state = .idle then 0 else if (c.baudDiv - 1).ule t.baudCnt then 0 else t.baudCnt + 1
  shiftReg := if t.pop c then t.fifo.head else t.shiftReg
  line :=
    match t.state with
    | .idle => true
    | .start => false
    | .data k => t.shiftReg.getLsbD k
    | .stop => true

end UartTx

namespace UartRx

variable (r : UartRx) (c : UartCtrl)

def fracSum : BitVec 5 := r.fracAcc.setWidth 5 + (c.baudDiv.extractLsb' 0 4).setWidth 5

/-- `rx_tick_limit`: the integer part of the divisor, one less without a carry of the fractional part -/
def tickLimit : Word :=
  if (r.fracSum c).getLsbD 4 then (c.baudDiv.extractLsb' 4 28).setWidth 32
    else (c.baudDiv.extractLsb' 4 28).setWidth 32 - 1

def tick : Bool := r.state != .idle && r.baudCnt == r.tickLimit c

def midSample : Bool := r.tick c && r.sampleCnt == 7

def bitDone : Bool := r.tick c && r.sampleCnt == 15

def done : Bool := r.state == .stopCheck && r.midSample c

def stateNext : RxState :=
  match r.state with
  | .idle => if !r.sync2 && c.rxEn then .startDet else .idle
  | .startDet => if r.midSample c then (if r.sync2 then .idle else .sample 0) else .startDet
  | .sample k => if r.bitDone c then (if k = 7 then .stopCheck else .sample (k + 1)) else .sample k
  | .stopCheck => if r.midSample c then .idle else .stopCheck

/-- the shift register with a new bit `k` -/
def sampled (k : Fin 8) : BitVec 8 :=
  if r.sync2 then r.shiftReg ||| BitVec.twoPow 8 k else r.shiftReg &&& ~~~ BitVec.twoPow 8 k

def step (i : UartIn) : UartRx where
  fifo := r.fifo.step (if r.done c then some r.shiftReg else none) i.rxPop
  state := r.stateNext c
  baudCnt := if r.state = .idle then 0 else if (r.tickLimit c).ule r.baudCnt then 0 else r.baudCnt + 1
  fracAcc :=
    if r.state = .idle then 0 else if (r.tickLimit c).ule r.baudCnt then (r.fracSum c).setWidth 4 else r.fracAcc
  sampleCnt :=
    if r.state = .idle then 0
    else if r.state = .startDet ∧ r.midSample c = true ∧ r.sync2 = false then 0
    else if r.tick c then r.sampleCnt + 1
    else r.sampleCnt
  shiftReg :=
    match r.state with
    | .sample k => if r.midSample c then r.sampled k else r.shiftReg
    | _ => r.shiftReg
  sync1 := i.uartRx
  sync2 := r.sync1

end UartRx

namespace Uart

def defaultBaudDiv : Word := (25000000 + 115200 / 2) / 115200

/-- the memories are not reset -/
def reset (txMem rxMem : BitVec 4 → BitVec 8) : Uart where
  ctrl := ⟨false, false, true, true, defaultBaudDiv⟩
  tx := ⟨⟨txMem, 0, 0, 0⟩, .idle, 0, 0xFF, true⟩
  rx := ⟨⟨rxMem, 0, 0, 0⟩, .idle, 0, 0, 0, 0, true, true⟩

section Step

variable (u : Uart) (i : UartIn)

def ctrlNext : UartCtrl :=
  if i.writeEn then
    if i.paddr = 0x0C then
      { u.ctrl with txIe := i.pwdata.getLsbD 0, rxIe := i.pwdata.getLsbD 1, txEn := i.pwdata.getLsbD 2,
                    rxEn := i.pwdata.getLsbD 3 }
    else if i.paddr = 0x10 then { u.ctrl with baudDiv := i.pwdata }
    else u.ctrl
  else u.ctrl

def step : Uart := ⟨u.ctrlNext i, u.tx.step u.ctrl i, u.rx.step u.ctrl i⟩

def prdata : Word :=
  if i.readEn then
    if i.paddr = 0x04 then u.rx.fifo.head.setWidth 32
    else if i.paddr = 0x08 then
      0#27 ++ BitVec.ofBool (u.tx.state != .idle) ++ BitVec.ofBool u.rx.fifo.empty ++ BitVec.ofBool u.rx.fifo.full ++
        BitVec.ofBool u.tx.fifo.empty ++ BitVec.ofBool u.tx.fifo.full
    else if i.paddr = 0x0C then
      0#28 ++ BitVec.ofBool u.ctrl.rxEn ++ BitVec.ofBool u.ctrl.txEn ++ BitVec.ofBool u.ctrl.rxIe ++
        BitVec.ofBool u.ctrl.txIe
    else if i.paddr = 0x10 then u.ctrl.baudDiv
    else 0
  else 0

def irq : Bool := (u.tx.fifo.empty && u.ctrl.txIe) || (!u.rx.fifo.empty && u.ctrl.rxIe)

end Step

theorem step_txFifo (u : Uart) (i : UartIn) : (u.step i).tx.fifo = u.tx.fifo.step i.txPush (u.tx.pop u.ctrl) := rfl

end Uart

end Vsync
