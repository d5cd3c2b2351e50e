/-
`axi4_master.sv`: one command at a time, as single-beat transactions.

The ids, burst fields and `is_read_reg` are constants or are read by nothing, and are left out.
-/
import Vsync.Axi
import Vsync.Core.Memory

namespace Vsync

abbrev BusRequest := Axi.Request Word Word (BitVec 4)

abbrev BusResponse := Axi.Response Word

/-- `ST_IDLE`, …, `ST_DONE` -/
inductive MasterState where
  | idle
  | rdAddr
  | rdData
  | wrAddr
  | wrData
  | wrResp
  | done
  deriving DecidableEq, Repr

structure AxiMaster where
  state : MasterState
  addrReg : Word
  wdataReg : Word
  wstrbReg : BitVec 4
  rdataReg : Word
  errorReg : Bool
  awDone : Bool
  wDone : Bool
  deriving DecidableEq, Repr

namespace AxiMaster

def reset : AxiMaster := ⟨.idle, 0, 0, 0, 0, false, false, false⟩

section Ports

variable (s : AxiMaster)

def request : BusRequest where
  arvalid := s.state == .rdAddr
  araddr := s.addrReg
  rready := s.state == .rdData
  awvalid := s.state == .wrAddr && !s.awDone
  awaddr := s.addrReg
  wvalid := (s.state == .wrAddr && !s.wDone) || s.state == .wrData
  wdata := s.wdataReg
  wstrb := s.wstrbReg
  bready := s.state == .wrResp

def cmdDone : Bool := s.state == .done

def cmdRdata : Word := s.rdataReg

def cmdError : Bool := s.state == .done && s.errorReg

end Ports

section Step

variable (s : AxiMaster) (c : BusCmd) (r : BusResponse)

def arFires : Bool := s.request.arvalid && r.arready

def rFires : Bool := r.rvalid && s.request.rready

def awFires : Bool := s.request.awvalid && r.awready

def wFires : Bool := s.request.wvalid && r.wready

def bFires : Bool := r.bvalid && s.request.bready

def stateNext : MasterState :=
  match s.state with
  | .idle => if c.read then .rdAddr else if c.write then .wrAddr else .idle
  | .rdAddr => if s.arFires r then .rdData else .rdAddr
  | .rdData => if s.rFires r then .done else .rdData
  | .wrAddr =>
    if (s.awDone || s.awFires r) && (s.wDone || s.wFires r) then .wrResp
    else if s.awFires r && !s.wFires r then .wrData
    else .wrAddr
  | .wrData => if s.wFires r then .wrResp else .wrData
  | .wrResp => if s.bFires r then .done else .wrResp
  | .done => .idle

def step : AxiMaster where
  state := s.stateNext c r
  addrReg := if s.state = .idle ∧ (c.read = true ∨ c.write = true) then c.addr else s.addrReg
  wdataReg := if s.state = .idle ∧ c.read = false ∧ c.write = true then c.wdata else s.wdataReg
  wstrbReg := if s.state = .idle ∧ c.read = false ∧ c.write = true then c.strobe else s.wstrbReg
  rdataReg := if s.state = .rdData ∧ s.rFires r = true then r.rdata else s.rdataReg
  errorReg :=
    match s.state with
    | .idle => false
    | .rdData => if s.rFires r then r.rresp != 0 else s.errorReg
    | .wrResp => if s.bFires r then r.bresp != 0 else s.errorReg
    | _ => s.errorReg
  awDone :=
    match s.state with
    | .idle => false
    | .wrAddr => s.awDone || s.awFires r
    | .done => false
    | _ => s.awDone
  wDone :=
    match s.state with
    | .idle => false
    | .wrAddr => s.wDone || s.wFires r
    | .done => false
    | _ => s.wDone

end Step

section Commands

variable {s : AxiMaster} {c : BusCmd}

theorem step_read (hs : s.state = .idle) (hc : c.read = true) (r : BusResponse) : s.step c r =
    ⟨.rdAddr, c.addr, s.wdataReg, s.wstrbReg, s.rdataReg, false, false, false⟩ := by
  simp [step, stateNext, hs, hc]

theorem step_write (hs : s.state = .idle) (hr : c.read = false) (hc : c.write = true) (r : BusResponse) : s.step c r =
    ⟨.wrAddr, c.addr, c.wdata, c.strobe, s.rdataReg, false, false, false⟩ := by
  simp [step, stateNext, hs, hr, hc]

theorem step_none (hs : s.state = .idle) (hr : c.read = false) (hw : c.write = false) (r : BusResponse) : s.step c r =
    ⟨.idle, s.addrReg, s.wdataReg, s.wstrbReg, s.rdataReg, false, false, false⟩ := by
  simp [step, stateNext, hs, hr, hw]

end Commands

end AxiMaster

end Vsync
