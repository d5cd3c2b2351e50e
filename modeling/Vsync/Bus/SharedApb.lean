/-
The APB bus of the top level: `axi4_apb_bridge` and the peripheral bridge of `posix_hw_layer`, merged by a multiplexer
without a grant state.

- `PeriphBridge`, `SharedApb`: the two masters, the multiplexer and the two response multiplexers.
- `ApbEvent`, `Transferred`: a transfer as it should look on the bus: its start, `SETUP` and `ACCESS` on the peripheral
  of its own address, and the answer to its master.
- `transfers_iff`: every run is a sequence of such transfers exactly if the masters never overlap and no peripheral
  answers a read of the peripheral bridge with anything but zero.
- `uart_read_lost`: a received byte that the peripheral bridge does not hand on.
-/
import Vsync.Bus.ApbTransactions

namespace Vsync

/-- the slaves of the APB bus -/
inductive Peripheral where
  | uart
  | gpio
  | plic
  | clint
  deriving DecidableEq, Repr

namespace Peripheral

/-- `ADDR_UART_BASE`, … -/
def base : Peripheral → Word
  | uart => 0x10000000
  | gpio => 0x10000100
  | plic => 0x0C000000
  | clint => 0x02000000

/-- `ADDR_UART_END`, … -/
def last : Peripheral → Word
  | uart => 0x100000FF
  | gpio => 0x100001FF
  | plic => 0x0C000FFF
  | clint => 0x0200FFFF

/-- the address is one of the peripheral -/
def Holds (p : Peripheral) (a : Word) : Prop := p.base ≤ a ∧ a ≤ p.last

instance (p : Peripheral) (a : Word) : Decidable (p.Holds a) := inferInstanceAs (Decidable (_ ∧ _))

def all : List Peripheral := [uart, gpio, plic, clint]

def addressed (a : Word) : List Peripheral := all.filter fun p => p.Holds a

/-- `apb_psel_uart`, … of the lines `l` -/
def selects (l : ApbLines) (p : Peripheral) : Bool := l.psel && decide (p.Holds l.paddr)

def selected (l : ApbLines) : List Peripheral := all.filter (selects l)

theorem selected_on (penable pwrite : Bool) (a d : Word) : selected ⟨true, penable, pwrite, a, d⟩ = addressed a := by
  have hsel : selects ⟨true, penable, pwrite, a, d⟩ = fun p => decide (p.Holds a) := by
    funext p
    simp [selects]
  rw [selected, hsel, addressed]

theorem holds_unique {p q : Peripheral} {a : Word} (hp : p.Holds a) (hq : q.Holds a) : p = q := by
  cases p <;> cases q <;> first
    | rfl
    | (exfalso; simp only [Holds, base, last, BitVec.le_def] at hp hq; simp at hp hq; omega)

end Peripheral

open Peripheral

/-- `PERIPH_IDLE`, …, `PERIPH_DONE` -/
inductive PeriphState where
  | idle
  | setup
  | access
  | done
  deriving DecidableEq, Repr

/-- `periph_read`, `periph_write`, `periph_addr`, `periph_wdata` -/
structure PeriphRequest where
  read : Bool
  write : Bool
  addr : Word
  wdata : Word
  deriving DecidableEq, Repr

/-- the bridge from the peripheral port of `posix_hw_layer` to the bus -/
structure PeriphBridge where
  state : PeriphState
  addr : Word
  wdata : Word
  isWrite : Bool
  deriving DecidableEq, Repr

namespace PeriphBridge

def reset : PeriphBridge := ⟨.idle, 0, 0, false⟩

section Step

variable (s : PeriphBridge)

def lines : ApbLines where
  psel := s.state == .setup || s.state == .access
  penable := s.state == .access
  pwrite := (s.state == .setup || s.state == .access) && s.isWrite
  paddr := s.addr
  pwdata := s.wdata

/-- the transfer that the registers hold -/
def transfer : ApbTransfer := ⟨s.addr, s.isWrite, s.wdata⟩

def stateNext (q : PeriphRequest) (pready : Bool) : PeriphState :=
  match s.state with
  | .idle => if q.read || q.write then .setup else .idle
  | .setup => .access
  | .access => if pready then .done else .access
  | .done => .idle

def step (q : PeriphRequest) (pready : Bool) : PeriphBridge where
  state := s.stateNext q pready
  addr := if s.state == .idle && (q.read || q.write) then q.addr else s.addr
  wdata := if s.state == .idle && (q.read || q.write) then q.wdata else s.wdata
  isWrite := if s.state == .idle && (q.read || q.write) then q.write else s.isWrite

def ready : Bool := s.state == .done

end Step

end PeriphBridge

/-- the AXI-APB bridge or the bridge of the peripheral port -/
inductive ApbMaster where
  | axi
  | posix
  deriving DecidableEq, Repr

inductive ApbEvent where
  | start (m : ApbMaster) (t : ApbTransfer)
  | setup (sel : List Peripheral) (t : ApbTransfer)
  | access (sel : List Peripheral) (t : ApbTransfer) (prdata : Word) (pslverr : Bool)
  | axiAnswer (prdata : Word) (pslverr : Bool)
  | posixAnswer (rdata : Option Word)
  deriving DecidableEq, Repr

/-- a transfer of either master -/
inductive Transferred : List ApbEvent → Prop where
  | axi (t : ApbTransfer) (d : Word) (e : Bool) :
    Transferred [.start .axi t, .setup (addressed t.addr) t, .access (addressed t.addr) t d e, .axiAnswer d e]
  | posix (t : ApbTransfer) (d : Word) (e : Bool) :
    Transferred [.start .posix t, .setup (addressed t.addr) t, .access (addressed t.addr) t d e,
      .posixAnswer (if t.write then none else some d)]

def transfers : Language ApbEvent := {l | Transferred l}

/-- what comes into the bus in a cycle; `prdata` is what the peripherals drive -/
structure SharedIn where
  req : BusRequest
  posix : PeriphRequest
  prdata : Peripheral → Word

structure SharedApb where
  bridge : ApbBridge
  periph : PeriphBridge
  deriving DecidableEq, Repr

namespace SharedApb

open Machine

def reset : SharedApb := ⟨ApbBridge.reset, PeriphBridge.reset⟩

section Step

variable (s : SharedApb) (i : SharedIn)

def lines : ApbLines := if s.periph.lines.psel then s.periph.lines else s.bridge.lines

def pready (p : Peripheral) : Bool := selects s.lines p && s.lines.penable

/-- the answer to the AXI-APB bridge; no peripheral raises `pslverr`, an address without one is a decode error -/
def bridgeAnswer : ApbResponse :=
  if selects s.lines .uart then ⟨i.prdata .uart, s.pready .uart, false⟩
  else if selects s.lines .gpio then ⟨i.prdata .gpio, s.pready .gpio, false⟩
  else if selects s.lines .plic then ⟨i.prdata .plic, s.pready .plic, false⟩
  else if selects s.lines .clint then ⟨i.prdata .clint, s.pready .clint, false⟩
  else ⟨0, true, true⟩

/-- `periph_apb_pready` -/
def periphReady : Bool :=
  if selects s.periph.lines .uart then s.pready .uart
  else if selects s.periph.lines .gpio then s.pready .gpio
  else if selects s.periph.lines .clint then s.pready .clint
  else true

/-- `periph_apb_prdata`, which is `periph_rdata` -/
def periphRdata : Word :=
  if selects s.periph.lines .uart then i.prdata .uart
  else if selects s.periph.lines .gpio then i.prdata .gpio
  else if selects s.periph.lines .clint then i.prdata .clint
  else 0

def step : SharedApb := ⟨s.bridge.step i.req (s.bridgeAnswer i), s.periph.step i.posix s.periphReady⟩

def whenFires (fires : Bool) (e : ApbEvent) : List ApbEvent := if fires then [e] else []

/-- a cycle of the bus -/
def busEvent : List ApbEvent :=
  if s.lines.psel then
    if s.lines.penable then
      [.access (selected s.lines) s.lines.transfer (s.bridgeAnswer i).prdata (s.bridgeAnswer i).pslverr]
    else [.setup (selected s.lines) s.lines.transfer]
  else []

/-- what happens in a cycle: the answer to a transfer that is over, the transfers that start, the bus, the answer that
the AXI-APB bridge takes -/
def events : List ApbEvent :=
  whenFires s.periph.ready (.posixAnswer (if s.periph.isWrite then none else some (s.periphRdata i))) ++
    whenFires (s.periph.state == .setup) (.start .posix s.periph.transfer) ++
    whenFires (s.bridge.state == .setup) (.start .axi s.bridge.lines.transfer) ++ s.busEvent i ++
    whenFires (s.bridge.state == .access && (s.bridgeAnswer i).pready)
      (.axiAnswer (s.bridgeAnswer i).prdata (s.bridgeAnswer i).pslverr)

/-- no cycle of both masters, and no read of the peripheral bridge that a peripheral answers with anything but zero -/
structure Clear : Prop where
  alone : ¬ (s.periph.lines.psel = true ∧ s.bridge.lines.psel = true)
  zero : s.periph.state = .access → s.periph.isWrite = false → ∀ p, p.Holds s.periph.addr → i.prdata p = 0

end Step

/-! ## A cycle -/

/-- the events of the transfer in progress -/
def Open (s : SharedApb) (p : List ApbEvent) : Prop :=
  match s.periph.state with
  | .access => s.bridge.state ≠ .access ∧
      p = [.start .posix s.periph.transfer, .setup (addressed s.periph.addr) s.periph.transfer]
  | .done => s.bridge.state ≠ .access ∧ ∃ d e, (s.periph.isWrite = false → d = 0) ∧
      p = [.start .posix s.periph.transfer, .setup (addressed s.periph.addr) s.periph.transfer,
        .access (addressed s.periph.addr) s.periph.transfer d e]
  | _ => p = if s.bridge.state = .access then
      [.start .axi s.bridge.lines.transfer, .setup (addressed s.bridge.txnAddr) s.bridge.lines.transfer] else []

section Cycle

variable {s : SharedApb} {i : SharedIn} {p : List ApbEvent}

theorem lines_posix (h : s.periph.lines.psel = true) : s.lines = s.periph.lines := if_pos h

theorem lines_axi (h : s.periph.lines.psel = false) : s.lines = s.bridge.lines := if_neg (by simp [h])

/-- the data of the addressed peripheral, or zero -/
theorem bridgeAnswer_prdata (h : s.lines.psel = true) {p : Peripheral} (hp : p.Holds s.lines.paddr) :
    (s.bridgeAnswer i).prdata = i.prdata p := by
  have hsel (q : Peripheral) : selects s.lines q = decide (q = p) := by
    simp only [selects, h, Bool.true_and, decide_eq_decide]
    constructor
    · exact fun hq => holds_unique hq hp
    · rintro rfl
      exact hp
  cases p <;> simp [bridgeAnswer, hsel]

theorem bridgeAnswer_zero (h : ∀ p : Peripheral, p.Holds s.lines.paddr → i.prdata p = 0) :
    (s.bridgeAnswer i).prdata = 0 := by
  have hsel (q : Peripheral) (hq : selects s.lines q = true) : i.prdata q = 0 := by
    simp only [selects, Bool.and_eq_true, decide_eq_true_eq] at hq
    exact h q hq.2
  unfold bridgeAnswer
  split
  · exact hsel _ ‹_›
  · split
    · exact hsel _ ‹_›
    · split
      · exact hsel _ ‹_›
      · split
        · exact hsel _ ‹_›
        · rfl

/-- in `ACCESS` the answer is there -/
theorem bridgeAnswer_pready (h : s.lines.penable = true) : (s.bridgeAnswer i).pready = true := by
  unfold bridgeAnswer pready
  split
  · simp [*]
  · split
    · simp [*]
    · split
      · simp [*]
      · split
        · simp [*]
        · rfl

theorem periphReady_access (h : s.periph.state = .access) : s.periphReady = true := by
  have hlines : s.lines = s.periph.lines := lines_posix (by simp [PeriphBridge.lines, h])
  have henable : s.periph.lines.penable = true := by simp [PeriphBridge.lines, h]
  unfold periphReady pready
  rw [hlines]
  split
  · simp [*]
  · split
    · simp [*]
    · split
      · simp [*]
      · rfl

/-- between transfers the peripheral bridge reads zero -/
theorem periphRdata_done (h : s.periph.state = .done) : s.periphRdata i = 0 := by
  simp [periphRdata, selects, PeriphBridge.lines, h]

/-- only `ST_SETUP` leads to `ST_ACCESS` -/
theorem bridge_next (h : s.bridge.state ≠ .access) : (s.step i).bridge.state = .access ↔ s.bridge.state = .setup := by
  change s.bridge.stateNext _ _ = .access ↔ _
  cases hs : s.bridge.state with
  | idle =>
    simp only [ApbBridge.stateNext, hs]
    constructor
    · intro hn
      split at hn
      · simp at hn
      · split at hn
        · simp at hn
        · split at hn <;> simp at hn
    · intro hn
      simp at hn
  | wrWait => cases hw : i.req.wvalid <;> simp [ApbBridge.stateNext, hs, hw]
  | setup => simp [ApbBridge.stateNext, hs]
  | access => exact absurd hs h
  | wrResp => cases hb : i.req.bready <;> simp [ApbBridge.stateNext, hs, hb]
  | rdResp => cases hr : i.req.rready <;> simp [ApbBridge.stateNext, hs, hr]

/-- the registers of the AXI-APB bridge hold the transfer from `ST_SETUP` on -/
theorem bridge_transfer (h : s.bridge.state = .setup) :
    (s.step i).bridge.lines.transfer = s.bridge.lines.transfer ∧ (s.step i).bridge.txnAddr = s.bridge.txnAddr := by
  simp [step, ApbBridge.step, ApbBridge.lines, ApbLines.transfer, h]

/-- the transfer that the port asks for, or the old one -/
theorem periph_step_busy (h : s.periph.state ≠ .idle) :
    (s.step i).periph = { s.periph with state := s.periph.stateNext i.posix s.periphReady } := by
  simp [step, PeriphBridge.step, h]

/-- the first cycle of a transfer of the peripheral bridge -/
theorem open_posix_setup (hs : s.periph.state = .setup) (hb : s.bridge.state ≠ .setup) (hb' : s.bridge.state ≠ .access)
    (h : s.Open p) : (s.step i).Open (p ++ s.events i) := by
  have hp : p = [] := by simpa [Open, hs, hb'] using h
  have hlines : s.lines = s.periph.lines := lines_posix (by simp [PeriphBridge.lines, hs])
  have hpsel : s.periph.lines.psel = true := by simp [PeriphBridge.lines, hs]
  have hevents : s.events i = [.start .posix s.periph.transfer,
      .setup (addressed s.periph.addr) s.periph.transfer] := by
    simp [events, busEvent, whenFires, PeriphBridge.ready, hs, hb, hb', hlines, selected_on, PeriphBridge.lines,
      PeriphBridge.transfer, ApbLines.transfer]
  have hperiph : (s.step i).periph = { s.periph with state := .access } := by
    simp [periph_step_busy, PeriphBridge.stateNext, hs]
  have hbridge : (s.step i).bridge.state ≠ .access := fun hn => hb ((bridge_next hb').1 hn)
  rw [hp, hevents]
  simp only [Open, hperiph]
  exact ⟨hbridge, rfl⟩

theorem open_posix_access (hs : s.periph.state = .access) (hb : s.bridge.state ≠ .setup) (hc : s.Clear i)
    (h : s.Open p) :
    (s.step i).Open (p ++ s.events i) := by
  obtain ⟨hb', hp⟩ : s.bridge.state ≠ .access ∧ _ := by simpa only [Open, hs] using h
  have hlines : s.lines = s.periph.lines := lines_posix (by simp [PeriphBridge.lines, hs])
  have hpsel : s.periph.lines.psel = true := by simp [PeriphBridge.lines, hs]
  have hevents : s.events i = [.access (addressed s.periph.addr) s.periph.transfer (s.bridgeAnswer i).prdata
      (s.bridgeAnswer i).pslverr] := by
    simp [events, busEvent, whenFires, PeriphBridge.ready, hs, hb, hb', hlines, selected_on, PeriphBridge.lines,
      PeriphBridge.transfer, ApbLines.transfer]
  have hperiph : (s.step i).periph = { s.periph with state := .done } := by
    simp [periph_step_busy, PeriphBridge.stateNext, hs, periphReady_access]
  have hbridge : (s.step i).bridge.state ≠ .access := fun hn => hb ((bridge_next hb').1 hn)
  rw [hp, hevents]
  simp only [Open, hperiph]
  refine ⟨hbridge, _, _, ?_, rfl⟩
  intro hread
  apply bridgeAnswer_zero
  rw [hlines]
  exact hc.zero hs hread

/-- the answer to the peripheral port completes its transfer; the other bridge may start one -/
theorem open_posix_done (hs : s.periph.state = .done) (h : s.Open p) :
    ∃ last next, s.events i = last ++ next ∧ p ++ last ∈ transfers ∧ (s.step i).Open next := by
  obtain ⟨hb', d, e, hd, hp⟩ : s.bridge.state ≠ .access ∧ _ := by simpa only [Open, hs] using h
  have hlines : s.lines = s.bridge.lines := lines_axi (by simp [PeriphBridge.lines, hs])
  have hperiph : (s.step i).periph = { s.periph with state := .idle } := by
    simp [periph_step_busy, PeriphBridge.stateNext, hs]
  refine ⟨[.posixAnswer (if s.periph.isWrite then none else some 0)],
    if s.bridge.state = .setup then
      [.start .axi s.bridge.lines.transfer, .setup (addressed s.bridge.txnAddr) s.bridge.lines.transfer]
        else [], ?_, ?_, ?_⟩
  · by_cases hb : s.bridge.state = .setup
    · have hpsel : s.bridge.lines.psel = true := by simp [ApbBridge.lines, hb]
      simp [events, busEvent, whenFires, PeriphBridge.ready, hs, hb, hlines, selected_on, periphRdata_done,
        ApbBridge.lines, ApbLines.transfer]
    · have hpsel : s.bridge.lines.psel = false := by simp [ApbBridge.lines, hb, hb']
      simp [events, busEvent, whenFires, PeriphBridge.ready, hs, hb, hb', hlines, hpsel, periphRdata_done]
  · have ht := Transferred.posix s.periph.transfer d e
    change Transferred _
    cases hw : s.periph.isWrite with
    | true => simpa [hp, PeriphBridge.transfer, hw] using ht
    | false => simpa [hp, PeriphBridge.transfer, hw, hd hw] using ht
  · simp only [Open, hperiph]
    by_cases hb : s.bridge.state = .setup
    · obtain ⟨htransfer, haddr⟩ := bridge_transfer (i := i) hb
      rw [if_pos hb, if_pos ((bridge_next hb').2 hb), htransfer, haddr]
    · rw [if_neg hb, if_neg fun hn => hb ((bridge_next hb').1 hn)]

/-- the peripheral bridge leaves `PERIPH_IDLE` for `PERIPH_SETUP` only -/
theorem periph_next (hs : s.periph.state = .idle) :
    (s.step i).periph.state = .idle ∨ (s.step i).periph.state = .setup := by
  change s.periph.stateNext _ _ = .idle ∨ s.periph.stateNext _ _ = .setup
  cases hq : i.posix.read || i.posix.write <;> simp [PeriphBridge.stateNext, hs, hq]

theorem open_of_quiet (hs : s.periph.state = .idle ∨ s.periph.state = .setup) : s.Open p ↔ p =
    if s.bridge.state = .access then
      [.start .axi s.bridge.lines.transfer, .setup (addressed s.bridge.txnAddr) s.bridge.lines.transfer] else [] := by
  rcases hs with hs | hs <;> simp only [Open, hs]

/-- the first cycle of a transfer of the AXI-APB bridge, or a cycle of neither -/
theorem open_axi_setup (hs : s.periph.state = .idle) (hb' : s.bridge.state ≠ .access) (h : s.Open p) :
    (s.step i).Open (p ++ s.events i) := by
  have hp : p = [] := by simpa [Open, hs, hb'] using h
  have hlines : s.lines = s.bridge.lines := lines_axi (by simp [PeriphBridge.lines, hs])
  rw [open_of_quiet (periph_next hs), hp, List.nil_append]
  by_cases hb : s.bridge.state = .setup
  · have hpsel : s.bridge.lines.psel = true := by simp [ApbBridge.lines, hb]
    obtain ⟨htransfer, haddr⟩ := bridge_transfer (i := i) hb
    rw [if_pos ((bridge_next hb').2 hb), htransfer, haddr]
    simp [events, busEvent, whenFires, PeriphBridge.ready, hs, hb, hlines, selected_on, ApbBridge.lines,
      ApbLines.transfer]
  · have hpsel : s.bridge.lines.psel = false := by simp [ApbBridge.lines, hb, hb']
    rw [if_neg fun hn => hb ((bridge_next hb').1 hn)]
    simp [events, busEvent, whenFires, PeriphBridge.ready, hs, hb, hb', hlines, hpsel]

/-- `ACCESS` of the AXI-APB bridge, which takes its answer in the same cycle -/
theorem open_axi_access (hs : s.periph.state = .idle) (hb : s.bridge.state = .access) (h : s.Open p) :
    p ++ s.events i ∈ transfers ∧ (s.step i).Open [] := by
  have hp : p = [.start .axi s.bridge.lines.transfer, .setup (addressed s.bridge.txnAddr) s.bridge.lines.transfer] := by
    simpa [Open, hs, hb] using h
  have hlines : s.lines = s.bridge.lines := lines_axi (by simp [PeriphBridge.lines, hs])
  have hpsel : s.bridge.lines.psel = true := by simp [ApbBridge.lines, hb]
  have hready : (s.bridgeAnswer i).pready = true := bridgeAnswer_pready (by simp [hlines, ApbBridge.lines, hb])
  refine ⟨?_, ?_⟩
  · have hevents : s.events i = [.access (addressed s.bridge.txnAddr) s.bridge.lines.transfer (s.bridgeAnswer i).prdata
        (s.bridgeAnswer i).pslverr, .axiAnswer (s.bridgeAnswer i).prdata (s.bridgeAnswer i).pslverr] := by
      simp [events, busEvent, whenFires, PeriphBridge.ready, hs, hb, hlines, selected_on, hready, ApbBridge.lines,
        ApbLines.transfer]
    rw [hp, hevents]
    exact Transferred.axi s.bridge.lines.transfer _ _
  · have hnext : (s.step i).bridge.state ≠ .access := by
      change s.bridge.stateNext _ _ ≠ _
      cases hw : s.bridge.txnIsWrite <;> simp [ApbBridge.stateNext, hb, hready, hw]
    rw [open_of_quiet (periph_next hs), if_neg hnext]

/-- **A clear cycle** extends the transfer in progress or completes it. -/
theorem open_step (h : s.Open p) (hc : s.Clear i) : (s.step i).Open (p ++ s.events i) ∨
    ∃ last next, s.events i = last ++ next ∧ p ++ last ∈ transfers ∧ (s.step i).Open next := by
  have hpsel : s.bridge.lines.psel = true ↔ s.bridge.state = .setup ∨ s.bridge.state = .access := by
    simp [ApbBridge.lines]
  cases hs : s.periph.state with
  | setup =>
    have hb : ¬ (s.bridge.state = .setup ∨ s.bridge.state = .access) := fun hb =>
      hc.alone ⟨by simp [PeriphBridge.lines, hs], hpsel.2 hb⟩
    exact .inl (open_posix_setup hs (fun hn => hb (.inl hn)) (fun hn => hb (.inr hn)) h)
  | access =>
    have hb : s.bridge.state ≠ .setup := fun hb => hc.alone ⟨by simp [PeriphBridge.lines, hs], hpsel.2 (.inl hb)⟩
    exact .inl (open_posix_access hs hb hc h)
  | done => exact .inr (open_posix_done hs h)
  | idle =>
    by_cases hb : s.bridge.state = .access
    · obtain ⟨hcomplete, hopen⟩ := open_axi_access (i := i) hs hb h
      exact .inr ⟨s.events i, [], (List.append_nil _).symm, hcomplete, hopen⟩
    · exact .inl (open_axi_setup hs hb h)

end Cycle

/-! ## A reader of transfers -/

/-- how far a transfer has been read -/
inductive Reading where
  | idle
  | started (m : ApbMaster) (t : ApbTransfer)
  | setUp (m : ApbMaster) (t : ApbTransfer)
  | accessed (m : ApbMaster) (t : ApbTransfer) (prdata : Word) (pslverr : Bool)

def Reading.next : Reading → ApbEvent → Option Reading
  | .idle, .start m t => some (.started m t)
  | .started m t, .setup sel t' => if sel = addressed t.addr ∧ t' = t then some (.setUp m t) else none
  | .setUp m t, .access sel t' d e => if sel = addressed t.addr ∧ t' = t then some (.accessed m t d e) else none
  | .accessed .axi _ d e, .axiAnswer d' e' => if d' = d ∧ e' = e then some .idle else none
  | .accessed .posix t d _, .posixAnswer r => if r = (if t.write then none else some d) then some .idle else none
  | _, _ => none

section Reading

variable (m m' : ApbMaster) (t t' : ApbTransfer) (sel : List Peripheral) (d d' : Word) (e e' : Bool)

@[simp] theorem Reading.next_start : Reading.next .idle (.start m t) = some (.started m t) := rfl

@[simp] theorem Reading.next_setup : Reading.next (.started m t) (.setup sel t') =
    if sel = addressed t.addr ∧ t' = t then some (.setUp m t) else none := rfl

@[simp] theorem Reading.next_access : Reading.next (.setUp m t) (.access sel t' d e) =
    if sel = addressed t.addr ∧ t' = t then some (.accessed m t d e) else none := rfl

@[simp] theorem Reading.next_axiAnswer : Reading.next (.accessed .axi t d e) (.axiAnswer d' e') =
    if d' = d ∧ e' = e then some .idle else none := rfl

@[simp] theorem Reading.next_posixAnswer (r : Option Word) : Reading.next (.accessed .posix t d e) (.posixAnswer r) =
    if r = (if t.write then none else some d) then some .idle else none := rfl

/-- a transfer does not start within another one -/
@[simp] theorem Reading.next_start_started : Reading.next (.started m t) (.start m' t') = none := rfl

@[simp] theorem Reading.next_start_setUp : Reading.next (.setUp m t) (.start m' t') = none := rfl

end Reading

theorem reads_transfer (w : List ApbEvent) (hw : w ∈ transfers) : w.foldlM Reading.next .idle = some .idle := by
  cases hw with
  | axi t d e => simp
  | posix t d e => simp

section Stuck

variable {s : SharedApb} {i : SharedIn} {p : List ApbEvent}

/-- a cycle of both masters is no part of a transfer -/
theorem stuck_of_overlap (h : s.Open p) (hp : s.periph.lines.psel = true) (hb : s.bridge.lines.psel = true) :
    (p ++ s.events i).foldlM Reading.next .idle = none := by
  have hbusy : s.bridge.state = .setup ∨ s.bridge.state = .access := by simpa [ApbBridge.lines] using hb
  cases hs : s.periph.state with
  | idle => simp [PeriphBridge.lines, hs] at hp
  | done => simp [PeriphBridge.lines, hs] at hp
  | setup =>
    rcases hbusy with hb | hb
    · have hp : p = [] := by simpa [Open, hs, hb] using h
      simp [hp, events, whenFires, PeriphBridge.ready, hs, hb]
    · have hp : p = [.start .axi s.bridge.lines.transfer,
          .setup (addressed s.bridge.txnAddr) s.bridge.lines.transfer] := by
        simpa [Open, hs, hb] using h
      simp [hp, events, whenFires, PeriphBridge.ready, ApbBridge.lines, ApbLines.transfer, hs, hb]
  | access =>
    obtain ⟨hb', hp⟩ : s.bridge.state ≠ .access ∧ _ := by simpa only [Open, hs] using h
    have hb : s.bridge.state = .setup := hbusy.resolve_right hb'
    simp [hp, events, whenFires, PeriphBridge.ready, PeriphBridge.transfer, hs, hb]

/-- a read of the peripheral bridge is answered with zero, whatever the peripheral has answered -/
theorem stuck_of_unread (h : s.Open p) (hs : s.periph.state = .access) (hb : s.bridge.state ≠ .setup)
    (hread : s.periph.isWrite = false) {q : Peripheral} (hq : q.Holds s.periph.addr) (hne : i.prdata q ≠ 0)
    (j : SharedIn) :
    (p ++ s.events i ++ (s.step i).events j).foldlM Reading.next .idle = none := by
  obtain ⟨hb', hp⟩ : s.bridge.state ≠ .access ∧ _ := by simpa only [Open, hs] using h
  have hlines : s.lines = s.periph.lines := lines_posix (by simp [PeriphBridge.lines, hs])
  have hdata : (s.bridgeAnswer i).prdata = i.prdata q := by
    apply bridgeAnswer_prdata
    · simp [hlines, PeriphBridge.lines, hs]
    · rw [hlines]
      exact hq
  have hperiph : (s.step i).periph = { s.periph with state := .done } := by
    simp [periph_step_busy, PeriphBridge.stateNext, hs, periphReady_access]
  have hzero : (s.step i).periphRdata j = 0 := periphRdata_done (by simp [hperiph])
  have hevents : s.events i = [.access (addressed s.periph.addr) s.periph.transfer (i.prdata q)
      (s.bridgeAnswer i).pslverr] := by
    simp [events, busEvent, whenFires, PeriphBridge.ready, hs, hb, hb', hlines, selected_on, PeriphBridge.lines,
      PeriphBridge.transfer, ApbLines.transfer, ← hdata]
  have hnext : ∃ rest, (s.step i).events j = .posixAnswer (some 0) :: rest := by
    simp [events, whenFires, PeriphBridge.ready, hperiph, hread, hzero]
  obtain ⟨rest, hrest⟩ := hnext
  have hne' : 0#32 ≠ i.prdata q := fun heq => hne heq.symm
  simp [hp, hevents, hrest, PeriphBridge.transfer, hread, hne']

end Stuck

/-! ## Runs -/

section Run

variable (ins : ℕ → SharedIn)

def stateAt (n : ℕ) : SharedApb := trace step reset ins n

def eventLog (n : ℕ) : List ApbEvent := log events step reset ins n

theorem run_open (n : ℕ) (hc : ∀ k < n, (stateAt ins k).Clear (ins k)) :
    ∃ done part, eventLog ins n = done ++ part ∧ done ∈ KStar.kstar transfers ∧ (stateAt ins n).Open part :=
  log_episodes_of (C := Clear) ins rfl (fun _ _ _ => open_step) n hc

theorem open_rest (s : SharedApb) (p : List ApbEvent) (h : s.Open p) : ∃ rest, rest ≠ [] ∧ p ++ rest ∈ transfers := by
  cases hs : s.periph.state with
  | access =>
    obtain ⟨-, hp⟩ : s.bridge.state ≠ .access ∧ _ := by simpa only [Open, hs] using h
    rw [hp]
    exact ⟨_, List.cons_ne_nil _ _, Transferred.posix s.periph.transfer 0 false⟩
  | done =>
    obtain ⟨-, d, e, -, hp⟩ : s.bridge.state ≠ .access ∧ _ := by simpa only [Open, hs] using h
    rw [hp]
    exact ⟨_, List.cons_ne_nil _ _, Transferred.posix s.periph.transfer d e⟩
  | _ =>
    rw [open_of_quiet (by simp [hs])] at h
    by_cases hb : s.bridge.state = .access
    · rw [h, if_pos hb]
      exact ⟨_, List.cons_ne_nil _ _, Transferred.axi s.bridge.lines.transfer 0 false⟩
    · rw [h, if_neg hb]
      exact ⟨_, List.cons_ne_nil _ _, Transferred.axi ⟨0, false, 0⟩ 0 false⟩

theorem inEpisodes_of_clear (hc : ∀ n, (stateAt ins n).Clear (ins n)) (n : ℕ) :
    InEpisodes transfers (eventLog ins n) := by
  obtain ⟨done, part, hlog, hdone, hopen⟩ := run_open ins n fun k _ => hc k
  obtain ⟨rest, hne, hmem⟩ := open_rest _ part hopen
  exact ⟨done, part, rest, hlog, hdone, hne, hmem⟩

/-- the first cycle that is not clear leaves something that is no part of a transfer, at once or in the next cycle -/
theorem clear_of_inEpisodes (h : ∀ n, InEpisodes transfers (eventLog ins n)) (n : ℕ) :
    (stateAt ins n).Clear (ins n) := by
  induction n using Nat.strong_induction_on with
  | h n ih =>
    obtain ⟨done, part, hlog, hdone, hopen⟩ := run_open ins n ih
    -- what has been read up to here leaves a reader at the open transfer
    have hreads (next : List ApbEvent) (hstuck : (part ++ next).foldlM Reading.next .idle = none)
        (hin : InEpisodes transfers (eventLog ins n ++ next)) : False := by
      apply hin.reads reads_transfer
      rw [hlog, List.append_assoc, List.foldlM_append, reads_kstar reads_transfer hdone]
      exact hstuck
    have halone : ¬ ((stateAt ins n).periph.lines.psel = true ∧ (stateAt ins n).bridge.lines.psel = true) :=
      fun hboth =>
      hreads _ (stuck_of_overlap hopen hboth.1 hboth.2) (h (n + 1))
    refine ⟨halone, ?_⟩
    intro hs hread q hq
    by_contra hne
    have hb : (stateAt ins n).bridge.state ≠ .setup := by
      intro hb
      exact halone ⟨by simp [PeriphBridge.lines, hs], by simp [ApbBridge.lines, hb]⟩
    have hin : InEpisodes transfers (eventLog ins n ++ ((stateAt ins n).events (ins n) ++
        (stateAt ins (n + 1)).events (ins (n + 1)))) := by
      rw [← List.append_assoc]
      exact h (n + 2)
    apply hreads _ _ hin
    rw [← List.append_assoc]
    exact stuck_of_unread hopen hs hb hread hq hne (ins (n + 1))

/-- **Transfers one after another exactly in runs of clear cycles**: each with `SETUP` and `ACCESS` once, on the
peripheral of its address, and with the answer to its own master. -/
theorem transfers_iff : (∀ n, InEpisodes transfers (eventLog ins n)) ↔ ∀ n, (stateAt ins n).Clear (ins n) :=
  ⟨clear_of_inEpisodes ins, inEpisodes_of_clear ins⟩

/-- a read of `RX_DATA` of the UART through the peripheral port, with a byte received -/
def uartRead : ℕ → SharedIn := fun n =>
  ⟨Axi.Lines.quiet ⟨0, 0, 0⟩, ⟨n == 0, false, 0x10000004, 0⟩, fun _ => 0x41⟩

/-- **A received byte is lost**: `periph_rdata` is looked at in `PERIPH_DONE`, in which no peripheral is selected. -/
theorem uart_read_lost : ¬ ∀ ins n, InEpisodes transfers (eventLog ins n) := by
  intro h
  have hclear := clear_of_inEpisodes uartRead (h uartRead) 2
  exact absurd (hclear.zero rfl rfl .uart (by decide)) (by decide)

end Run

end SharedApb

end Vsync
