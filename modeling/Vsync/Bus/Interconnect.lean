/-
`axi4_interconnect.sv`: one master, six slave ports.

The transaction id and `active_is_read` are read by nothing that the master sees, and are left out.
-/
import Vsync.Bus.Master

namespace Vsync

abbrev Port := Fin 6

instance neZero_ports : NeZero 6 := ⟨by decide⟩

def AXI_RESP_DECERR : BitVec 2 := 0b11

/-- `ST_IDLE`, …, `ST_DECERR_B` -/
inductive XbarState where
  | idle
  | read
  | writeAw
  | writeW
  | writeB
  | decerrR
  | decerrB
  deriving DecidableEq, Repr

structure Interconnect where
  state : XbarState
  activeSlave : Port
  awAccepted : Bool
  deriving DecidableEq, Repr

namespace Interconnect

def reset : Interconnect := ⟨.idle, 0, false⟩

/-- the address decoder: DMEM, HyperRAM, the APB bridge (CLINT, PLIC, UART, GPIO), hw_rtos, posix_hw_layer, IMEM -/
def decode (addr : Word) : Option Port :=
  if 0x00010000 ≤ addr ∧ addr ≤ 0x00013FFF then some 0
  else if 0x20000000 ≤ addr ∧ addr ≤ 0x2FFFFFFF then some 1
  else if (0x02000000 ≤ addr ∧ addr ≤ 0x0200FFFF) ∨ (0x0C000000 ≤ addr ∧ addr ≤ 0x0C000FFF) ∨
      (0x10000000 ≤ addr ∧ addr ≤ 0x100000FF) ∨ (0x10000100 ≤ addr ∧ addr ≤ 0x100001FF) then some 2
  else if 0x11000000 ≤ addr ∧ addr ≤ 0x1100FFFF then some 3
  else if 0x12000000 ≤ addr ∧ addr ≤ 0x1200FFFF then some 4
  else if 0x00000000 ≤ addr ∧ addr ≤ 0x0000FFFF then some 5
  else none

section Ports

variable (x : Interconnect) (m : BusRequest)

/-- the lines to slave `k` -/
def request (k : Port) : BusRequest where
  arvalid := x.state == .idle && m.arvalid && decode m.araddr == some k
  araddr := m.araddr
  rready := x.state == .read && x.activeSlave == k && m.rready
  awvalid := x.state == .writeAw && !x.awAccepted && x.activeSlave == k
  awaddr := m.awaddr
  wvalid := x.state == .writeW && x.activeSlave == k && m.wvalid
  wdata := m.wdata
  wstrb := m.wstrb
  bready := x.state == .writeB && x.activeSlave == k && m.bready

variable (rs : Port → BusResponse)

def response : BusResponse where
  arready :=
    if x.state == .idle && m.arvalid then
      match decode m.araddr with
      | some k => (rs k).arready
      | none => true
    else false
  rvalid :=
    match x.state with
    | .decerrR => true
    | .read => (rs x.activeSlave).rvalid
    | _ => false
  rdata :=
    match x.state with
    | .read => (rs x.activeSlave).rdata
    | _ => 0
  rresp :=
    match x.state with
    | .decerrR => AXI_RESP_DECERR
    | .read => (rs x.activeSlave).rresp
    | _ => 0
  awready :=
    if x.state == .writeAw && !x.awAccepted then (rs x.activeSlave).awready
    else x.state == .idle && !m.arvalid && m.awvalid && decode m.awaddr == none
  wready :=
    if x.state == .writeW then (rs x.activeSlave).wready else x.state == .decerrB && m.wvalid
  bvalid :=
    match x.state with
    | .decerrB => true
    | .writeB => (rs x.activeSlave).bvalid
    | _ => false
  bresp :=
    match x.state with
    | .decerrB => AXI_RESP_DECERR
    | .writeB => (rs x.activeSlave).bresp
    | _ => 0

def awFires : Bool := (x.request m x.activeSlave).awvalid && (rs x.activeSlave).awready

def stateNext : XbarState :=
  match x.state with
  | .idle =>
    if m.arvalid then (if (decode m.araddr).isSome then .read else .decerrR)
    else if m.awvalid then (if (decode m.awaddr).isSome then .writeAw else .decerrB)
    else .idle
  | .read => if (rs x.activeSlave).rvalid && m.rready then .idle else .read
  | .writeAw => if x.awAccepted || x.awFires m rs then .writeW else .writeAw
  | .writeW => if (x.request m x.activeSlave).wvalid && (rs x.activeSlave).wready then .writeB else .writeW
  | .writeB => if (rs x.activeSlave).bvalid && m.bready then .idle else .writeB
  | .decerrR => if m.rready then .idle else .decerrR
  | .decerrB => if m.bready then .idle else .decerrB

def step : Interconnect where
  state := x.stateNext m rs
  activeSlave :=
    match x.state with
    | .idle =>
      if m.arvalid then (decode m.araddr).getD 0
      else if m.awvalid then (decode m.awaddr).getD 0
      else x.activeSlave
    | _ => x.activeSlave
  awAccepted :=
    match x.state with
    | .idle => false
    | .writeAw => x.awAccepted || x.awFires m rs
    | _ => x.awAccepted

end Ports

end Interconnect

end Vsync
