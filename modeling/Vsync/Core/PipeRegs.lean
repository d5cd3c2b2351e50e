/-
The core's part of `vsync_pkg.sv`: opcodes, operation codes, control signals and the pipeline registers.
-/
import Vsync.Pkg

namespace Vsync

inductive Opcode where
  | lui
  | auipc
  | jal
  | jalr
  | branch
  | load
  | store
  | opImm
  | op
  | fence
  | system
  deriving DecidableEq, Repr

/-- the opcode field; `none` is the `default` branch of the decoder -/
def Opcode.ofBits (b : BitVec 7) : Option Opcode :=
  if b = 0b0110111#7 then some .lui
  else if b = 0b0010111#7 then some .auipc
  else if b = 0b1101111#7 then some .jal
  else if b = 0b1100111#7 then some .jalr
  else if b = 0b1100011#7 then some .branch
  else if b = 0b0000011#7 then some .load
  else if b = 0b0100011#7 then some .store
  else if b = 0b0010011#7 then some .opImm
  else if b = 0b0110011#7 then some .op
  else if b = 0b0001111#7 then some .fence
  else if b = 0b1110011#7 then some .system
  else none

inductive AluOp where
  | add
  | sub
  | sll
  | slt
  | sltu
  | xor
  | srl
  | sra
  | or
  | and
  | lui
  | auipc
  deriving DecidableEq, Repr

inductive MextOp where
  | mul
  | mulh
  | mulhsu
  | mulhu
  | div
  | divu
  | rem
  | remu
  deriving DecidableEq, Repr

/-- `mext_op_t'(funct3)` -/
def MextOp.ofFunct3 (f : BitVec 3) : MextOp :=
  if f = 0b000#3 then .mul
  else if f = 0b001#3 then .mulh
  else if f = 0b010#3 then .mulhsu
  else if f = 0b011#3 then .mulhu
  else if f = 0b100#3 then .div
  else if f = 0b101#3 then .divu
  else if f = 0b110#3 then .rem
  else .remu

structure Ctrl where
  aluOp : AluOp
  aluSrcA : Bool
  aluSrcB : Bool
  mextEn : Bool
  mextOp : MextOp
  regWrite : Bool
  wbSel : BitVec 2
  memRead : Bool
  memWrite : Bool
  memFunct3 : BitVec 3
  branch : Bool
  jal : Bool
  jalr : Bool
  branchFunct3 : BitVec 3
  csrEn : Bool
  csrOp : BitVec 2
  csrImm : Bool
  ecall : Bool
  ebreak : Bool
  mret : Bool
  fence : Bool
  illegalInstr : Bool
  deriving DecidableEq, Repr

/-- all signals inactive: the defaults of the decoder, and the flushed register -/
def Ctrl.idle : Ctrl where
  aluOp := .add
  aluSrcA := false
  aluSrcB := false
  mextEn := false
  mextOp := .mul
  regWrite := false
  wbSel := 0b00
  memRead := false
  memWrite := false
  memFunct3 := 0b000
  branch := false
  jal := false
  jalr := false
  branchFunct3 := 0b000
  csrEn := false
  csrOp := 0b00
  csrImm := false
  ecall := false
  ebreak := false
  mret := false
  fence := false
  illegalInstr := false

structure IfId where
  pc : Word
  instruction : Word
  valid : Bool
  deriving DecidableEq, Repr

def IfId.bubble : IfId := ⟨0, 0x00000013, false⟩

structure IdEx where
  pc : Word
  rs1Data : Word
  rs2Data : Word
  immediate : Word
  rs1Addr : RegAddr
  rs2Addr : RegAddr
  rdAddr : RegAddr
  csrAddr : BitVec 12
  ctrl : Ctrl
  valid : Bool
  deriving DecidableEq, Repr

def IdEx.bubble : IdEx := ⟨0, 0, 0, 0, 0, 0, 0, 0, .idle, false⟩

/-- `ex_mem_reg_t`, less `csr_rdata`, which is tied to 0 -/
structure ExMem where
  pc : Word
  aluResult : Word
  rs2Data : Word
  rdAddr : RegAddr
  regWrite : Bool
  wbSel : BitVec 2
  memRead : Bool
  memWrite : Bool
  memFunct3 : BitVec 3
  valid : Bool
  deriving DecidableEq, Repr

def ExMem.bubble : ExMem := ⟨0, 0, 0, 0, false, 0, false, false, 0, false⟩

/-- `mem_wb_reg_t`, less `csr_rdata`, which is 0 -/
structure MemWb where
  pc : Word
  aluResult : Word
  memRdata : Word
  rdAddr : RegAddr
  regWrite : Bool
  wbSel : BitVec 2
  valid : Bool
  deriving DecidableEq, Repr

def MemWb.bubble : MemWb := ⟨0, 0, 0, 0, false, 0, false⟩

end Vsync
