/-
`decode_stage.sv`: the fields of an instruction word, its immediate and its control signals.
-/
import Vsync.Core.PipeRegs

namespace Vsync

namespace Decode

/-! ## Fields -/

def opcode (instr : Word) : Option Opcode := Opcode.ofBits (instr.extractLsb' 0 7)

def rd (instr : Word) : RegAddr := instr.extractLsb' 7 5

def funct3 (instr : Word) : BitVec 3 := instr.extractLsb' 12 3

def rs1 (instr : Word) : RegAddr := instr.extractLsb' 15 5

def rs2 (instr : Word) : RegAddr := instr.extractLsb' 20 5

def funct7 (instr : Word) : BitVec 7 := instr.extractLsb' 25 7

def csrAddr (instr : Word) : BitVec 12 := instr.extractLsb' 20 12

/-! ## Immediates -/

/-- `{{20{instr[31]}}, instr[31:20]}` -/
def immI (instr : Word) : Word := (instr.extractLsb' 20 12).signExtend 32

/-- `{{20{instr[31]}}, instr[31:25], instr[11:7]}` -/
def immS (instr : Word) : Word := (instr.extractLsb' 25 7 ++ instr.extractLsb' 7 5).signExtend 32

/-- `{{19{instr[31]}}, instr[31], instr[7], instr[30:25], instr[11:8], 1'b0}` -/
def immB (instr : Word) : Word :=
  (instr.extractLsb' 31 1 ++ instr.extractLsb' 7 1 ++ instr.extractLsb' 25 6 ++ instr.extractLsb' 8 4 ++
    0b0#1).signExtend 32

/-- `{instr[31:12], 12'b0}` -/
def immU (instr : Word) : Word := instr.extractLsb' 12 20 ++ 0#12

/-- `{{11{instr[31]}}, instr[31], instr[19:12], instr[20], instr[30:21], 1'b0}` -/
def immJ (instr : Word) : Word :=
  (instr.extractLsb' 31 1 ++ instr.extractLsb' 12 8 ++ instr.extractLsb' 20 1 ++ instr.extractLsb' 21 10 ++
    0b0#1).signExtend 32

/-- `immediate`: the type comes from the opcode -/
def immediate (instr : Word) : Word :=
  match opcode instr with
  | some .lui => immU instr
  | some .auipc => immU instr
  | some .jal => immJ instr
  | some .branch => immB instr
  | some .store => immS instr
  | _ => immI instr

/-! ## Control signals -/

def aluOp (f3 : BitVec 3) (altSub altSra : Bool) : AluOp :=
  if f3 = 0b000#3 then (if altSub then .sub else .add)
  else if f3 = 0b001#3 then .sll
  else if f3 = 0b010#3 then .slt
  else if f3 = 0b011#3 then .sltu
  else if f3 = 0b100#3 then .xor
  else if f3 = 0b101#3 then (if altSra then .sra else .srl)
  else if f3 = 0b110#3 then .or
  else .and

def system (instr : Word) : Ctrl :=
  if funct3 instr = 0b000#3 then
    if funct7 instr = 0b0011000#7 ∧ rs2 instr = 0b00010#5 then { Ctrl.idle with mret := true }
    else if instr.getLsbD 20 = false then { Ctrl.idle with ecall := true }
    else { Ctrl.idle with ebreak := true }
  else
    let c := { Ctrl.idle with csrEn := true, regWrite := true, wbSel := 0b11 }
    if funct3 instr = 0b001#3 then { c with csrOp := 0b01, csrImm := false }
    else if funct3 instr = 0b010#3 then { c with csrOp := 0b10, csrImm := false }
    else if funct3 instr = 0b011#3 then { c with csrOp := 0b11, csrImm := false }
    else if funct3 instr = 0b101#3 then { c with csrOp := 0b01, csrImm := true }
    else if funct3 instr = 0b110#3 then { c with csrOp := 0b10, csrImm := true }
    else if funct3 instr = 0b111#3 then { c with csrOp := 0b11, csrImm := true }
    else { c with illegalInstr := true }

def ctrl (instr : Word) : Ctrl :=
  match opcode instr with
  | some .lui => { Ctrl.idle with aluOp := .lui, aluSrcB := true, regWrite := true }
  | some .auipc => { Ctrl.idle with aluOp := .auipc, aluSrcA := true, aluSrcB := true, regWrite := true }
  | some .jal => { Ctrl.idle with jal := true, regWrite := true, wbSel := 0b10 }
  | some .jalr => { Ctrl.idle with jalr := true, aluSrcB := true, regWrite := true, wbSel := 0b10 }
  | some .branch => { Ctrl.idle with branch := true, branchFunct3 := funct3 instr }
  | some .load =>
    { Ctrl.idle with aluSrcB := true, memRead := true, memFunct3 := funct3 instr, regWrite := true, wbSel := 0b01 }
  | some .store => { Ctrl.idle with aluSrcB := true, memWrite := true, memFunct3 := funct3 instr }
  | some .opImm =>
    -- there is no subtract immediate: `funct7[5]` counts for the right shifts only
    { Ctrl.idle with
      aluSrcB := true, regWrite := true, aluOp := aluOp (funct3 instr) false (instr.getLsbD 30) }
  | some .op =>
    if funct7 instr = 0b0000001#7 then
      { Ctrl.idle with regWrite := true, mextEn := true, mextOp := MextOp.ofFunct3 (funct3 instr) }
    else
      { Ctrl.idle with regWrite := true, aluOp := aluOp (funct3 instr) (instr.getLsbD 30) (instr.getLsbD 30) }
  | some .fence => { Ctrl.idle with fence := true }
  | some .system => system instr
  | none => { Ctrl.idle with illegalInstr := true }

/-- what `ID/EX` latches of an instruction, with the register operands read for it -/
def idEx (f : IfId) (rs1Data rs2Data : Word) : IdEx where
  pc := f.pc
  rs1Data := rs1Data
  rs2Data := rs2Data
  immediate := immediate f.instruction
  rs1Addr := rs1 f.instruction
  rs2Addr := rs2 f.instruction
  rdAddr := rd f.instruction
  csrAddr := csrAddr f.instruction
  ctrl := ctrl f.instruction
  valid := f.valid

end Decode

/-! ## The control words -/

/-- the control words that the decoder gives -/
inductive Ctrl.Decoded : Ctrl → Prop where
  | lui : Decoded { Ctrl.idle with aluOp := .lui, aluSrcB := true, regWrite := true }
  | auipc : Decoded { Ctrl.idle with aluOp := .auipc, aluSrcA := true, aluSrcB := true, regWrite := true }
  | jal : Decoded { Ctrl.idle with jal := true, regWrite := true, wbSel := 0b10 }
  | jalr : Decoded { Ctrl.idle with jalr := true, aluSrcB := true, regWrite := true, wbSel := 0b10 }
  | branch (f : BitVec 3) : Decoded { Ctrl.idle with branch := true, branchFunct3 := f }
  | load (f : BitVec 3) :
    Decoded { Ctrl.idle with aluSrcB := true, memRead := true, memFunct3 := f, regWrite := true, wbSel := 0b01 }
  | store (f : BitVec 3) : Decoded { Ctrl.idle with aluSrcB := true, memWrite := true, memFunct3 := f }
  | opImm (op : AluOp) : Decoded { Ctrl.idle with aluSrcB := true, regWrite := true, aluOp := op }
  | op (op : AluOp) : Decoded { Ctrl.idle with regWrite := true, aluOp := op }
  | mext (op : MextOp) : Decoded { Ctrl.idle with regWrite := true, mextEn := true, mextOp := op }
  | fence : Decoded { Ctrl.idle with fence := true }
  | mret : Decoded { Ctrl.idle with mret := true }
  | ecall : Decoded { Ctrl.idle with ecall := true }
  | ebreak : Decoded { Ctrl.idle with ebreak := true }
  | csr (op : BitVec 2) (imm : Bool) (h : op ≠ 0b00#2) :
    Decoded { Ctrl.idle with csrEn := true, regWrite := true, wbSel := 0b11, csrOp := op, csrImm := imm }
  | csrIllegal : Decoded { Ctrl.idle with csrEn := true, regWrite := true, wbSel := 0b11, illegalInstr := true }
  | illegal : Decoded { Ctrl.idle with illegalInstr := true }

namespace Decode

theorem decoded_system (instr : Word) : (system instr).Decoded := by
  unfold system
  split_ifs
  · exact .mret
  · exact .ecall
  · exact .ebreak
  · exact .csr 0b01 false (by decide)
  · exact .csr 0b10 false (by decide)
  · exact .csr 0b11 false (by decide)
  · exact .csr 0b01 true (by decide)
  · exact .csr 0b10 true (by decide)
  · exact .csr 0b11 true (by decide)
  · exact .csrIllegal

theorem decoded_ctrl (instr : Word) : (ctrl instr).Decoded := by
  cases h : opcode instr with
  | none => simpa only [ctrl, h] using .illegal
  | some o =>
    cases o with
    | lui => simpa only [ctrl, h] using .lui
    | auipc => simpa only [ctrl, h] using .auipc
    | jal => simpa only [ctrl, h] using .jal
    | jalr => simpa only [ctrl, h] using .jalr
    | branch => simpa only [ctrl, h] using .branch _
    | load => simpa only [ctrl, h] using .load _
    | store => simpa only [ctrl, h] using .store _
    | opImm => simpa only [ctrl, h] using .opImm _
    | op =>
      simp only [ctrl, h]
      split_ifs
      · exact .mext _
      · exact .op _
    | fence => simpa only [ctrl, h] using .fence
    | system => simpa only [ctrl, h] using decoded_system instr

end Decode

end Vsync
