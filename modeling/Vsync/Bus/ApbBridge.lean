/-
`axi4_apb_bridge.sv` with peripherals that are always ready.

The transaction id and the flags `aw_received` and `w_received` are read by nothing, and are left out. The bridge has no
byte strobes: a write reaches the peripheral as a whole word.
-/
import Vsync.Bus.Transfer

namespace Vsync

def AXI_RESP_SLVERR : BitVec 2 := 0b10

/-- `ST_IDLE`, …, `ST_WR_WAIT` -/
inductive ApbState where
  | idle
  | setup
  | access
  | wrResp
  | rdResp
  | wrWait
  deriving DecidableEq, Repr

/-- the lines back from the peripherals -/
structure ApbResponse where
  prdata : Word
  pready : Bool
  pslverr : Bool

/-- what the peripherals hold, by address, and which addresses they answer with an error -/
structure Peripherals where
  prdata : Word → Word
  pslverr : Word → Bool

/-- the answer of peripherals that are always ready -/
def Peripherals.response (p : Peripherals) (paddr : Word) : ApbResponse := ⟨p.prdata paddr, true, p.pslverr paddr⟩

structure ApbBridge where
  state : ApbState
  txnAddr : Word
  txnWdata : Word
  txnIsWrite : Bool
  txnRdata : Word
  txnError : Bool
  deriving DecidableEq, Repr

namespace ApbBridge

def reset : ApbBridge := ⟨.idle, 0, 0, false, 0, false⟩

section Step

variable (s : ApbBridge) (m : BusRequest) (p : ApbResponse)

def response : BusResponse where
  arready := s.state == .idle && m.arvalid
  rvalid := s.state == .rdResp
  rdata := s.txnRdata
  rresp := if s.txnError then AXI_RESP_SLVERR else 0b00
  awready := s.state == .idle && !m.arvalid && m.awvalid
  wready := (s.state == .idle && !m.arvalid && m.awvalid && m.wvalid) || s.state == .wrWait
  bvalid := s.state == .wrResp
  bresp := if s.txnError then AXI_RESP_SLVERR else 0b00

def stateNext : ApbState :=
  match s.state with
  | .idle => if m.arvalid then .setup else if m.awvalid && m.wvalid then .setup else if m.awvalid then .wrWait
    else .idle
  | .wrWait => if m.wvalid then .setup else .wrWait
  | .setup => .access
  | .access => if p.pready then (if s.txnIsWrite then .wrResp else .rdResp) else .access
  | .wrResp => if m.bready then .idle else .wrResp
  | .rdResp => if m.rready then .idle else .rdResp

def step : ApbBridge where
  state := s.stateNext m p
  txnAddr :=
    match s.state with
    | .idle => if m.arvalid then m.araddr else if m.awvalid then m.awaddr else s.txnAddr
    | _ => s.txnAddr
  txnWdata :=
    match s.state with
    | .idle => if !m.arvalid && m.awvalid && m.wvalid then m.wdata else s.txnWdata
    | .wrWait => if m.wvalid then m.wdata else s.txnWdata
    | _ => s.txnWdata
  txnIsWrite :=
    match s.state with
    | .idle => if m.arvalid then false else if m.awvalid then true else s.txnIsWrite
    | _ => s.txnIsWrite
  txnRdata :=
    match s.state with
    | .access => if p.pready then p.prdata else s.txnRdata
    | _ => s.txnRdata
  txnError :=
    match s.state with
    | .access => if p.pready then p.pslverr else s.txnError
    | _ => s.txnError

def access : List BusAccess :=
  if s.state == .access && p.pready then
    (if s.txnIsWrite then [.write s.txnAddr s.txnWdata none] else [.read s.txnAddr p.prdata])
  else []

end Step

def slave : BusSlave where
  State := ApbBridge
  Env := Peripherals
  reset := reset
  out := response
  step s m p := s.step m (p.response s.txnAddr)
  access s _ p := s.access (p.response s.txnAddr)
  holds _ p a := p.prdata a
  strobed := false

def Idle (s : ApbBridge) : Prop := s.state = .idle

section Cycles

variable {s : ApbBridge} (l : BusLines) (p : ApbResponse)

theorem step_quiet (hs : Idle s) : s.step l.quiet p = s := by
  rcases s with ⟨state, a, d, w, r, e⟩
  obtain rfl : state = .idle := hs
  rfl

theorem step_ar (hs : Idle s) : s.step l.ar p = ⟨.setup, l.addr, s.txnWdata, false, s.txnRdata, s.txnError⟩ := by
  rcases s with ⟨state, a, d, w, r, e⟩
  obtain rfl : state = .idle := hs
  rfl

theorem step_aw (hs : Idle s) : s.step l.aw p = ⟨.wrWait, l.addr, s.txnWdata, true, s.txnRdata, s.txnError⟩ := by
  rcases s with ⟨state, a, d, w, r, e⟩
  obtain rfl : state = .idle := hs
  rfl

end Cycles

theorem readsHeld : slave.ReadsHeld := by
  intro s m p a d h
  change Axi.Access.read a d ∈ s.access (p.response s.txnAddr) at h
  change d = p.prdata a
  unfold access at h
  split at h
  · split at h
    · simp at h
    · simp only [List.mem_singleton, Axi.Access.read.injEq] at h
      rw [h.1, h.2]
      rfl
  · simp at h

theorem rests : slave.Rests Idle where
  reset := rfl
  stays s l e hs := by
    have h : s.step l.quiet (e.response s.txnAddr) = s := step_quiet l _ hs
    change Idle (s.step l.quiet (e.response s.txnAddr))
    rw [h]
    exact hs
  silent s l e hs := by
    change s.access (e.response s.txnAddr) = []
    simp [access, show s.state = .idle from hs]

theorem servesReads : slave.ServesReads Idle := by
  intro s l e hs
  have hstate : s.state = .idle := hs
  refine ⟨?_, ?_, ?_⟩
  · change (s.response l.ar).arready = true
    simp [response, hstate, Axi.Lines.ar]
  · change s.access (e.response s.txnAddr) = []
    simp [access, hstate]
  · change slave.Until _ _ _ (s.step l.ar (e.response s.txnAddr))
    rw [step_ar l _ hs]
    refine Machine.reaches_later rfl fun _ => ?_
    refine Machine.reaches_later rfl fun _ => ?_
    exact Machine.reaches_here rfl ⟨rfl, fun _ => ⟨rfl, rfl⟩⟩

theorem servesWrites (mine : Word → Prop) : slave.ServesWrites Idle mine := by
  intro s l _ hs
  have hstate : s.state = .idle := hs
  have hready : (s.response l.aw).awready = true := by simp [response, hstate, Axi.Lines.aw, Axi.Lines.quiet]
  refine Machine.reaches_here hready fun e₁ => ⟨rfl, ?_, ?_⟩
  · change s.access (e₁.response s.txnAddr) = []
    simp [access, hstate]
  · change slave.Until _ _ _ (s.step l.aw (e₁.response s.txnAddr))
    rw [step_aw l _ hs]
    refine Machine.reaches_here rfl fun _ => ?_
    refine Machine.reaches_later rfl fun _ => ?_
    refine Machine.reaches_later rfl fun _ => ?_
    exact Machine.reaches_here rfl fun _ => ⟨rfl, rfl, rfl⟩

end ApbBridge

end Vsync
