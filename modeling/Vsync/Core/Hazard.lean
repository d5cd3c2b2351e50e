/-
`hazard_unit.sv`: load-use detection and operand forwarding.
-/
import Vsync.Core.PipeRegs

namespace Vsync.Hazard

def loads (m : ExMem) (x : RegAddr) : Bool := m.memRead && m.rdAddr != 0 && m.rdAddr == x

/-- `load_use_hazard_id` and `load_use_hazard_ex`, for the two source fields of the stage -/
def loadUse (m : ExMem) (rs1 rs2 : RegAddr) : Bool := loads m rs1 || loads m rs2

inductive Forward where
  | reg
  | exMem
  | memWb
  deriving DecidableEq, Repr

/-- `fwd_a` and `fwd_b`: the source register `x` of the instruction in EX; the address of a load is not forwarded -/
def forward (m : ExMem) (w : MemWb) (x : RegAddr) : Forward :=
  if m.regWrite && !m.memRead && m.rdAddr != 0 && m.rdAddr == x then .exMem
  else if w.regWrite && w.rdAddr != 0 && w.rdAddr == x then .memWb
  else .reg

end Vsync.Hazard
