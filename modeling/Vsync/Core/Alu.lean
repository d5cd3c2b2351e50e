/-
`alu.sv` and `branch_unit.sv`: the combinational units of the execute stage.
-/
import Vsync.Core.PipeRegs

namespace Vsync

def alu (op : AluOp) (a b : Word) : Word :=
  match op with
  | .add => a + b
  | .sub => a - b
  | .sll => a <<< (b.extractLsb' 0 5)
  | .slt => if a.slt b then 1 else 0
  | .sltu => if a.ult b then 1 else 0
  | .xor => a ^^^ b
  | .srl => a >>> (b.extractLsb' 0 5)
  | .sra => a.sshiftRight (b.extractLsb' 0 5).toNat
  | .or => a ||| b
  | .and => a &&& b
  | .lui => b
  | .auipc => a + b

namespace BranchUnit

def cond (funct3 : BitVec 3) (a b : Word) : Bool :=
  if funct3 = 0b000#3 then a == b
  else if funct3 = 0b001#3 then a != b
  else if funct3 = 0b100#3 then a.slt b
  else if funct3 = 0b101#3 then !a.slt b
  else if funct3 = 0b110#3 then a.ult b
  else if funct3 = 0b111#3 then !a.ult b
  else false

def taken (c : Ctrl) (valid : Bool) (a b : Word) : Bool :=
  (c.branch && valid && cond c.branchFunct3 a b) || (c.jal && valid) || (c.jalr && valid)

def target (c : Ctrl) (valid : Bool) (a pc imm : Word) : Word :=
  if c.jalr && valid then (a + imm) &&& ~~~1#32 else pc + imm

end BranchUnit

end Vsync
