/-
Calls that `posix_hw_layer` sends to a peripheral, and the bridge of its peripheral port. The peripherals answer after
any number of wait states; `pready` and `prdata` are inputs of every cycle.

- `PeriphCall`: `read`, `write` and `clock_gettime`, with the transfer of each.
- `Answered`: one transfer on the bus, and the value it is to return, which is the data of the `ACCESS` cycle or the
  byte count.
- `returns_zero`: the call returns zero. The bridge raises `periph_ready` in `PERIPH_DONE`, where it selects nobody any
  more, and `S_PERIPH_WAIT` takes `periph_rdata` for a write as well.
- `answered_iff`: so a call is answered exactly if the value it is to return is zero.
-/
import Vsync.Bus.SharedApb
import Vsync.Posix.Layer

namespace Vsync

/-- the calls that move data to or from a peripheral -/
inductive PeriphCall where
  | read
  | write
  | clockGettime
  deriving DecidableEq, Repr

/-- what comes into the layer and the bridge in a cycle; `periph_ready` and `periph_rdata` of the layer are not looked
at -/
structure PosixPeriphIn where
  posix : PosixIn
  prdata : Peripheral → Word
  pready : Peripheral → Bool

namespace PosixPeriphIn

variable (i : PosixPeriphIn) (a : Word)

def dataAt : Word :=
  if Peripheral.uart.Holds a then i.prdata .uart
  else if Peripheral.gpio.Holds a then i.prdata .gpio
  else if Peripheral.clint.Holds a then i.prdata .clint
  else 0

def readyAt : Bool :=
  if Peripheral.uart.Holds a then i.pready .uart
  else if Peripheral.gpio.Holds a then i.pready .gpio
  else if Peripheral.clint.Holds a then i.pready .clint
  else true

end PosixPeriphIn

/-- the layer and the bridge of its peripheral port -/
structure PosixPeriph where
  posix : PosixLayer
  periph : PeriphBridge

namespace PeriphCall

open Posix

def Routed (c : PeriphCall) (s : PosixLayer) : Prop :=
  match c with
  | .read => s.state = .fileOp ∧ s.subop = 2 ∧ s.fdOpen = true
  | .write => s.state = .fileOp ∧ s.subop = 3 ∧ s.fdOpen = true
  | .clockGettime => s.state = .timerOp ∧ s.subop = 0

def transfer (c : PeriphCall) (s : PosixLayer) : ApbTransfer :=
  let e := s.fd (lowId 16 s.arg0)
  match c with
  | .read => ⟨if e.fdType = FD_TYPE_UART then e.baseAddr + 4 else e.baseAddr, false, 0⟩
  | .write => ⟨e.baseAddr, true, s.arg1⟩
  | .clockGettime => ⟨ADDR_MTIME_LO, false, 0⟩

theorem periphReq_of_routed {c : PeriphCall} {s : PosixLayer} (h : c.Routed s) :
    s.periphReq = some ⟨(c.transfer s).addr, (c.transfer s).wdata, (c.transfer s).write⟩ := by
  cases c with
  | read =>
    obtain ⟨hstate, hsub, hopen⟩ := h
    simp [PosixLayer.periphReq, PosixLayer.fileReq, transfer, hstate, hsub, hopen]
  | write =>
    obtain ⟨hstate, hsub, hopen⟩ := h
    simp [PosixLayer.periphReq, PosixLayer.fileReq, transfer, hstate, hsub, hopen]
  | clockGettime =>
    obtain ⟨hstate, hsub⟩ := h
    simp [PosixLayer.periphReq, PosixLayer.timerReq, transfer, hstate, hsub]

theorem fileResult_of_routed {s : PosixLayer} (h : PeriphCall.write.Routed s) : s.fileResult = s.arg2 := by
  obtain ⟨-, hsub, hopen⟩ := h
  simp [PosixLayer.fileResult, hsub, hopen]

end PeriphCall

namespace PosixPeriph

open Machine Peripheral

def reset : PosixPeriph := ⟨PosixLayer.reset, PeriphBridge.reset⟩

section Step

variable (s : PosixPeriph) (i : PosixPeriphIn)

def rdata : Word :=
  if selects s.periph.lines .uart then i.prdata .uart
  else if selects s.periph.lines .gpio then i.prdata .gpio
  else if selects s.periph.lines .clint then i.prdata .clint
  else 0

def pready : Bool :=
  if selects s.periph.lines .uart then i.pready .uart
  else if selects s.periph.lines .gpio then i.pready .gpio
  else if selects s.periph.lines .clint then i.pready .clint
  else true

def posixIn : PosixIn := { i.posix with periphRdata := s.rdata i, periphReady := s.periph.ready }

def request : PeriphRequest :=
  match s.posix.periphReq with
  | some q => ⟨!q.write, q.write, q.addr, q.wdata⟩
  | none => ⟨false, false, 0, 0⟩

def step : PosixPeriph := ⟨s.posix.step (s.posixIn i), s.periph.step s.request (s.pready i)⟩

def accepted : List ApbTransfer := if s.periph.state = .access ∧ s.pready i = true then [s.periph.transfer] else []

/-- the bridge works exactly while the layer waits for it -/
def Aligned : Prop := s.posix.state = .periphWait ↔ s.periph.state ≠ .idle

end Step

/-- the value that a call in `s` is to return: the byte count of `S_FILE_OP`, or the data of the `ACCESS` cycle `i` -/
def value (c : PeriphCall) (s : PosixPeriph) (i : PosixPeriphIn) : Word :=
  match c with
  | .write => s.posix.fileResult
  | .read | .clockGettime => i.dataAt (c.transfer s.posix).addr

/-- `pready` comes in the `ACCESS` cycle after `wait` others -/
structure Latency (c : PeriphCall) (s : PosixPeriph) (ins : ℕ → PosixPeriphIn) (wait : ℕ) : Prop where
  low : ∀ k < wait, (ins (2 + k)).readyAt (c.transfer s.posix).addr = false
  high : (ins (2 + wait)).readyAt (c.transfer s.posix).addr = true

/-- the call in `s` makes its transfer once, and returns its value when it completes -/
structure Answered (c : PeriphCall) (s : PosixPeriph) (ins : ℕ → PosixPeriphIn) (wait : ℕ) : Prop where
  once : log accepted step s ins (wait + 4) = [c.transfer s.posix]
  pending : ∀ k < wait + 4, (trace step s ins k).posix.syscallDone = none
  returned : (trace step s ins (wait + 4)).posix.syscallDone = some (value c s (ins (2 + wait)))

/-- there is nothing to return: no byte for a `write`, and zero from the peripheral for the others -/
def Nothing (c : PeriphCall) (s : PosixPeriph) (i : PosixPeriphIn) : Prop :=
  match c with
  | .write => s.posix.arg2 = 0
  | .read | .clockGettime => i.dataAt (c.transfer s.posix).addr = 0

/-! ## A cycle -/

section Cycle

variable {s : PosixPeriph} {i : PosixPeriphIn}

theorem request_none (h : s.posix.periphReq = none) : s.request = ⟨false, false, 0, 0⟩ := by simp only [request, h]

theorem request_some {q : PosixLayer.PeriphReq} (h : s.posix.periphReq = some q) :
    s.request = ⟨!q.write, q.write, q.addr, q.wdata⟩ := by simp only [request, h]

/-- only the two operation states ask for a peripheral, and they lead to `S_PERIPH_WAIT` -/
theorem posix_waits (x : PosixIn) (h : s.posix.state ≠ .periphWait) :
    (s.posix.step x).state = .periphWait ↔ s.posix.periphReq ≠ none := by
  change s.posix.stateNext x = _ ↔ _
  cases hs : s.posix.state with
  | idle => cases he : x.ecallReq <;> simp [PosixLayer.stateNext, PosixLayer.periphReq, hs, he]
  | decode =>
    simp only [PosixLayer.stateNext, PosixLayer.periphReq, hs]
    split <;> simp
  | threadOp =>
    cases hw : PosixLayer.threadWaits s.posix.subop <;> simp [PosixLayer.stateNext, PosixLayer.periphReq, hs, hw]
  | mutexOp =>
    simp only [PosixLayer.stateNext, PosixLayer.periphReq, hs]
    split <;> simp
  | semOp =>
    simp only [PosixLayer.stateNext, PosixLayer.periphReq, hs]
    split <;> simp
  | msgqOp =>
    simp only [PosixLayer.stateNext, PosixLayer.periphReq, hs]
    split <;> simp
  | timerOp => simp [PosixLayer.stateNext, PosixLayer.periphReq, hs]
  | fileOp => cases hq : s.posix.fileReq <;> simp [PosixLayer.stateNext, PosixLayer.periphReq, hs, hq]
  | signalOp => simp [PosixLayer.stateNext, PosixLayer.periphReq, hs]
  | systemOp => simp [PosixLayer.stateNext, PosixLayer.periphReq, hs]
  | periphWait => exact absurd hs h
  | waitRtos => cases hd : s.posix.rtosDone x <;> simp [PosixLayer.stateNext, PosixLayer.periphReq, hs, hd]
  | complete => simp [PosixLayer.stateNext, PosixLayer.periphReq, hs]

/-- a request takes the bridge out of `PERIPH_IDLE` -/
theorem periph_leaves (h : s.periph.state = .idle) : (s.step i).periph.state ≠ .idle ↔ s.posix.periphReq ≠ none := by
  change s.periph.stateNext s.request _ ≠ _ ↔ _
  cases hq : s.posix.periphReq with
  | none => simp [PeriphBridge.stateNext, h, request_none hq]
  | some q => cases hw : q.write <;> simp [PeriphBridge.stateNext, h, request_some hq, hw]

theorem aligned_step (h : s.Aligned) : (s.step i).Aligned := by
  by_cases hwait : s.posix.state = .periphWait
  · have hposix : (s.step i).posix.state = if s.periph.ready then .complete else .periphWait := by
      change s.posix.stateNext (s.posixIn i) = _
      rw [PosixLayer.stateNext, hwait]
      rfl
    have hperiph : (s.step i).periph.state = s.periph.stateNext s.request (s.pready i) := rfl
    rw [Aligned, hposix, hperiph]
    cases hs : s.periph.state with
    | idle => exact absurd hs (h.1 hwait)
    | setup => simp [PeriphBridge.ready, PeriphBridge.stateNext, hs]
    | access => cases hr : s.pready i <;> simp [PeriphBridge.ready, PeriphBridge.stateNext, hs]
    | done => simp [PeriphBridge.ready, PeriphBridge.stateNext, hs]
  · have hidle : s.periph.state = .idle := by
      by_contra hne
      exact hwait (h.2 hne)
    exact (posix_waits (s.posixIn i) hwait).trans (periph_leaves hidle).symm

theorem aligned_run (ins : ℕ → PosixPeriphIn) (n : ℕ) : (trace step reset ins n).Aligned :=
  trace_inv step reset ins (by simp [Aligned, reset, PosixLayer.reset, PeriphBridge.reset]) (fun _ _ => aligned_step) n

/-- in `ACCESS` the bridge hears the peripheral of its address -/
theorem pready_access (h : s.periph.state = .access) : s.pready i = i.readyAt s.periph.addr := by
  simp [pready, PosixPeriphIn.readyAt, selects, PeriphBridge.lines, h]

/-- in `PERIPH_DONE` it hears nobody -/
theorem rdata_done (h : s.periph.state = .done) : s.rdata i = 0 := by
  simp [rdata, selects, PeriphBridge.lines, h]

/-- the layer waits, and the bridge is in `st` with the transfer `t` -/
structure Waits (st : PeriphState) (t : ApbTransfer) (s : PosixPeriph) : Prop where
  posix : s.posix.state = .periphWait
  periph : s.periph = ⟨st, t.addr, t.wdata, t.write⟩

theorem Waits.pending {st : PeriphState} {t : ApbTransfer} (h : Waits st t s) : s.posix.syscallDone = none := by
  simp [PosixLayer.syscallDone, h.posix]

theorem waits_setup {c : PeriphCall} (h : s.Aligned) (hc : c.Routed s.posix) :
    Waits .setup (c.transfer s.posix) (s.step i) := by
  have hreq := PeriphCall.periphReq_of_routed hc
  have hnot : s.posix.state ≠ .periphWait := by
    intro hw
    cases c <;> simp [PeriphCall.Routed, hw] at hc
  have hidle : s.periph.state = .idle := by
    by_contra hne
    exact hnot (h.2 hne)
  refine ⟨?_, ?_⟩
  · exact (posix_waits _ hnot).2 (by rw [hreq]; exact Option.some_ne_none _)
  · cases hw : (c.transfer s.posix).write <;>
      simp [step, request_some hreq, PeriphBridge.step, PeriphBridge.stateNext, hidle, hw]

variable {t : ApbTransfer}

/-- while `periph_ready` is low the layer stays -/
theorem waits_next {st : PeriphState} (h : Waits st t s) (hst : st ≠ .idle) (hd : st ≠ .done) :
    Waits (s.periph.stateNext s.request (s.pready i)) t (s.step i) := by
  refine ⟨?_, ?_⟩
  · change s.posix.stateNext (s.posixIn i) = _
    simp [PosixLayer.stateNext, h.posix, posixIn, PeriphBridge.ready, h.periph, hd]
  · simp [step, PeriphBridge.step, h.periph, hst]

theorem waits_access (h : Waits .setup t s) : Waits .access t (s.step i) := by
  have hnext := waits_next (i := i) h (by decide) (by decide)
  rwa [h.periph] at hnext

theorem waits_wait (h : Waits .access t s) (hr : i.readyAt t.addr = false) : Waits .access t (s.step i) := by
  have hready : s.pready i = false := by rw [pready_access (by rw [h.periph]), h.periph, hr]
  have hnext := waits_next (i := i) h (by decide) (by decide)
  rwa [h.periph, hready] at hnext

theorem waits_done (h : Waits .access t s) (hr : i.readyAt t.addr = true) : Waits .done t (s.step i) := by
  have hready : s.pready i = true := by rw [pready_access (by rw [h.periph]), h.periph, hr]
  have hnext := waits_next (i := i) h (by decide) (by decide)
  rwa [h.periph, hready] at hnext

theorem done_zero (h : Waits .done t s) : (s.step i).posix.syscallDone = some 0 := by
  have hready : s.periph.ready = true := by simp [PeriphBridge.ready, h.periph]
  have hstate : (s.step i).posix.state = .complete := by
    change s.posix.stateNext (s.posixIn i) = _
    simp [PosixLayer.stateNext, h.posix, posixIn, hready]
  have hresult : (s.step i).posix.result = 0 := by
    change s.posix.resultNext (s.posixIn i) = _
    simp [PosixLayer.resultNext, h.posix, posixIn, hready, rdata_done (s := s) (i := i) (by rw [h.periph])]
  rw [PosixLayer.syscallDone, if_pos hstate, hresult]

theorem accepted_access (h : Waits .access t s) : s.accepted i = if i.readyAt t.addr = true then [t] else [] := by
  have hready : s.pready i = i.readyAt t.addr := by rw [pready_access (by rw [h.periph]), h.periph]
  simp [accepted, hready, h.periph, PeriphBridge.transfer]

theorem accepted_none {st : PeriphState} (h : Waits st t s) (hst : st ≠ .access) : s.accepted i = [] := by
  simp [accepted, h.periph, hst]

end Cycle

/-! ## A call -/

section Call

variable {s : PosixPeriph} {ins : ℕ → PosixPeriphIn} {c : PeriphCall} {wait : ℕ}

theorem access_run (h : s.Aligned) (hc : c.Routed s.posix) (k : ℕ)
    (hlow : ∀ j < k, (ins (2 + j)).readyAt (c.transfer s.posix).addr = false) :
    Waits .access (c.transfer s.posix) (trace step s ins (2 + k)) ∧ log accepted step s ins (2 + k) = [] := by
  induction k with
  | zero =>
    have hidle : s.accepted (ins 0) = [] := by
      have hnot : ¬ s.periph.state = .access := by
        intro ha
        have hwait := h.2 (by rw [ha]; decide)
        cases c <;> simp [PeriphCall.Routed, hwait] at hc
      simp [accepted, hnot]
    have hsetup : Waits .setup (c.transfer s.posix) (trace step s ins 1) := waits_setup h hc
    refine ⟨waits_access hsetup, ?_⟩
    rw [log_succ, log_succ, trace_zero, hidle, accepted_none hsetup (by decide)]
    rfl
  | succ k ih =>
    obtain ⟨hwaits, hlog⟩ := ih fun j hj => hlow j (Nat.lt_succ_of_lt hj)
    have hready := hlow k (Nat.lt_succ_self k)
    refine ⟨waits_wait hwaits hready, ?_⟩
    rw [← Nat.add_assoc, log_succ, hlog, accepted_access hwaits, hready]
    rfl

theorem done_run (h : s.Aligned) (hc : c.Routed s.posix) (hl : Latency c s ins wait) :
    Waits .done (c.transfer s.posix) (trace step s ins (wait + 3)) ∧
      log accepted step s ins (wait + 3) = [c.transfer s.posix] := by
  obtain ⟨hwaits, hlog⟩ := access_run h hc wait hl.low
  rw [show wait + 3 = 2 + wait + 1 by omega]
  refine ⟨waits_done hwaits hl.high, ?_⟩
  rw [log_succ, hlog, accepted_access hwaits, if_pos hl.high, List.nil_append]

/-- the transfer is made once, whatever the latency -/
theorem transfer_once (h : s.Aligned) (hc : c.Routed s.posix) (hl : Latency c s ins wait) :
    log accepted step s ins (wait + 4) = [c.transfer s.posix] := by
  obtain ⟨hwaits, hlog⟩ := done_run h hc hl
  rw [log_succ, hlog, accepted_none hwaits (by decide), List.append_nil]

theorem call_pending (h : s.Aligned) (hc : c.Routed s.posix) (hl : Latency c s ins wait) {k : ℕ} (hk : k < wait + 4) :
    (trace step s ins k).posix.syscallDone = none := by
  match k, hk with
  | 0, _ =>
    have hnot : s.posix.state ≠ .complete := by
      intro hs
      cases c <;> simp [PeriphCall.Routed, hs] at hc
    exact if_neg hnot
  | 1, _ => exact (waits_setup (i := ins 0) h hc).pending
  | j + 2, hk =>
    rcases Nat.lt_or_ge wait j with hlt | hge
    · obtain rfl : j = wait + 1 := by omega
      exact (done_run h hc hl).1.pending
    · rw [Nat.add_comm]
      exact (access_run h hc j fun m hm => hl.low m (by omega)).1.pending

/-- **The call returns zero.** -/
theorem returns_zero (h : s.Aligned) (hc : c.Routed s.posix) (hl : Latency c s ins wait) :
    (trace step s ins (wait + 4)).posix.syscallDone = some 0 := done_zero (done_run h hc hl).1

end Call

/-- **A peripheral call is answered exactly if there is nothing to return**: for `read` and `clock_gettime` the
peripheral drives zero in the `ACCESS` cycle of its `pready`, for `write` the byte count is zero. -/
theorem answered_iff (ins : ℕ → PosixPeriphIn) (n wait : ℕ) (c : PeriphCall)
    (hc : c.Routed (trace step reset ins n).posix)
    (hl : Latency c (trace step reset ins n) (fun k => ins (n + k)) wait) :
    Answered c (trace step reset ins n) (fun k => ins (n + k)) wait ↔
      Nothing c (trace step reset ins n) (ins (n + (2 + wait))) := by
  have haligned : (trace step reset ins n).Aligned := aligned_run ins n
  generalize trace step reset ins n = s at hc hl haligned ⊢
  have hzero := returns_zero haligned hc hl
  calc Answered c s (fun k => ins (n + k)) wait
      ↔ value c s (ins (n + (2 + wait))) = 0 := by
        constructor
        · intro ha
          have hret := ha.returned
          rw [hzero] at hret
          exact (Option.some.inj hret).symm
        · intro hv
          refine ⟨transfer_once haligned hc hl, fun k hk => call_pending haligned hc hl hk, ?_⟩
          rw [hzero, hv]
    _ ↔ Nothing c s (ins (n + (2 + wait))) := by
        cases c with
        | read => rfl
        | write => rw [value, Nothing, PeriphCall.fileResult_of_routed hc]
        | clockGettime => rfl

/-- a `read` of the console, and a UART that holds `d` and is ready at once -/
def consoleRead (d : Word) : ℕ → PosixPeriphIn := fun k =>
  ⟨⟨k == 0, 0x52, 0, 0, 1, none, false, none, none, none, 0, 0, false⟩, fun p => if p = .uart then d
    else 0, fun _ => true⟩

theorem consoleRead_routed (d : Word) : PeriphCall.read.Routed (trace step reset (consoleRead d) 2).posix := by
  have hnum : (trace step reset (consoleRead d) 2).posix.num = 0x52 := rfl
  have hlatched : (trace step reset (consoleRead d) 1).posix.num = 0x52 := rfl
  have hdecode : (trace step reset (consoleRead d) 1).posix.state = .decode := rfl
  refine ⟨?_, ?_, ?_⟩
  · simp [trace_succ step reset _ 1, step, PosixLayer.step, PosixLayer.stateNext, hdecode, PosixLayer.category,
      hlatched]
  · rw [PosixLayer.subop, hnum]
    rfl
  · rfl

theorem consoleRead_latency (d : Word) :
    Latency .read (trace step reset (consoleRead d) 2) (fun k => consoleRead d (2 + k)) 0 := by
  refine ⟨fun k hk => absurd hk (Nat.not_lt_zero k), ?_⟩
  rfl

/-- nothing has been received -/
theorem answered_iff_empty : Answered .read (trace step reset (consoleRead 0) 2) (fun k => consoleRead 0 (2 + k)) 0 ↔
    Nothing .read (trace step reset (consoleRead 0) 2) (consoleRead 0 4) :=
  answered_iff (consoleRead 0) 2 0 .read (consoleRead_routed 0) (consoleRead_latency 0)

/-- **The byte that was received is lost**: the UART drives `0x41` in `ACCESS`, and `read` returns zero. -/
theorem console_read_zero : ¬ ∀ (ins : ℕ → PosixPeriphIn) (n wait : ℕ) (c : PeriphCall),
    c.Routed (trace step reset ins n).posix → Latency c (trace step reset ins n) (fun k => ins (n + k)) wait →
      Answered c (trace step reset ins n) (fun k => ins (n + k)) wait := by
  intro h
  have hret := (h (consoleRead 0x41) 2 0 .read (consoleRead_routed _) (consoleRead_latency _)).returned
  have hzero := returns_zero (aligned_run (consoleRead 0x41) 2) (consoleRead_routed _) (consoleRead_latency _)
  rw [hzero] at hret
  exact absurd hret (by decide)

end PosixPeriph

end Vsync
