/-
The data lanes of `memory_stage.sv` and the writeback multiplexer of `writeback_stage.sv`.
-/
import Vsync.Core.PipeRegs

namespace Vsync

namespace MemoryStage

def shift (addr : Word) : ℕ := (addr.extractLsb' 0 2).toNat * 8

def storeData (funct3 : BitVec 3) (addr data : Word) : Word :=
  if funct3 = 0b000#3 then (data.extractLsb' 0 8).setWidth 32 <<< shift addr
  else if funct3 = 0b001#3 then
    (if addr.getLsbD 1 then data.extractLsb' 0 16 ++ 0#16 else (data.extractLsb' 0 16).setWidth 32)
  else if funct3 = 0b010#3 then data
  else 0

def byteEnable (funct3 : BitVec 3) (addr : Word) : BitVec 4 :=
  if funct3 = 0b000#3 then 0b0001#4 <<< (addr.extractLsb' 0 2)
  else if funct3 = 0b001#3 then (if addr.getLsbD 1 then 0b1100 else 0b0011)
  else if funct3 = 0b010#3 then 0b1111
  else 0b0000

def loadData (funct3 : BitVec 3) (addr rdata : Word) : Word :=
  let shifted := rdata >>> shift addr
  if funct3 = 0b000#3 then (shifted.extractLsb' 0 8).signExtend 32
  else if funct3 = 0b001#3 then
    (if addr.getLsbD 1 then (rdata.extractLsb' 16 16).signExtend 32 else (rdata.extractLsb' 0 16).signExtend 32)
  else if funct3 = 0b010#3 then rdata
  else if funct3 = 0b100#3 then (shifted.extractLsb' 0 8).setWidth 32
  else if funct3 = 0b101#3 then
    (if addr.getLsbD 1 then (rdata.extractLsb' 16 16).setWidth 32 else (rdata.extractLsb' 0 16).setWidth 32)
  else rdata

/-- the alignment check of the core, by `funct3[1:0]` -/
def misaligned (funct3 : BitVec 3) (addr : Word) : Bool :=
  if funct3.extractLsb' 0 2 = 0b01#2 then addr.getLsbD 0
  else if funct3.extractLsb' 0 2 = 0b10#2 then addr.extractLsb' 0 2 != 0#2
  else false

end MemoryStage

def MemWb.rdData (r : MemWb) : Word :=
  if r.wbSel = 0b00#2 then r.aluResult
  else if r.wbSel = 0b01#2 then r.memRdata
  else if r.wbSel = 0b10#2 then r.pc + 4
  else 0

def MemWb.writes (r : MemWb) : Bool := r.regWrite && r.valid

end Vsync
