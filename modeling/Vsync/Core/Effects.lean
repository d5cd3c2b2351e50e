/-
One instruction at a time: what decode, EX, MEM and WB make of an instruction word is the effect of the instruction.

- `ExMem.Carries`: the access and the register write of an EX/MEM register are those of an effect.
- `carries_of_decode`, `nextPc_of_decode`: for every instruction of the interpreter, with the operands it uses.
-/
import Vsync.Core.Isa
import Vsync.Core.Rv32imCore

namespace Vsync

/-! ## Operands and stages -/

namespace Ctrl

/-- the instruction uses `rs1`: in the ALU, in the branch unit or as the base of a jump -/
def usesRs1 (c : Ctrl) : Bool := !c.jal && !c.aluSrcA && c.aluOp != .lui

def usesRs2 (c : Ctrl) : Bool := !c.jal && (!c.aluSrcB || c.memWrite)

/-- no trap, no syscall, no CSR access and no division -/
structure Base (c : Ctrl) : Prop where
  illegal : c.illegalInstr = false
  ebreak : c.ebreak = false
  mret : c.mret = false
  ecall : c.ecall = false
  csr : c.csrEn = false
  mext : c.mextEn = true → MulDiv.isMulOp c.mextOp = true

end Ctrl

namespace IdEx

variable (d : IdEx) (a b : Word)

def result : Word :=
  if d.ctrl.mextEn then MulDiv.mulResult d.ctrl.mextOp a b
  else alu d.ctrl.aluOp (if d.ctrl.aluSrcA then d.pc else a) (if d.ctrl.aluSrcB then d.immediate else b)

def executed : ExMem where
  pc := d.pc
  aluResult := d.result a b
  rs2Data := b
  rdAddr := d.rdAddr
  regWrite := d.ctrl.regWrite && d.valid
  wbSel := d.ctrl.wbSel
  memRead := d.ctrl.memRead && d.valid
  memWrite := d.ctrl.memWrite && d.valid
  memFunct3 := d.ctrl.memFunct3
  valid := d.valid

def taken : Bool := BranchUnit.taken d.ctrl d.valid a b

def nextPc : Word := if d.taken a b then BranchUnit.target d.ctrl d.valid a d.pc d.immediate else d.pc + 4

/-- the operands that the instruction uses are registers of `s` -/
structure Operands (s : Isa.State) : Prop where
  rs1 : d.ctrl.usesRs1 = true → a = s.reg d.rs1Addr
  rs2 : d.ctrl.usesRs2 = true → b = s.reg d.rs2Addr

end IdEx

namespace ExMem

variable (m : ExMem)

/-- MEM/WB behind MEM, with the word `rdata` from the bus -/
def toWb (rdata : Word) : MemWb where
  pc := m.pc
  aluResult := m.aluResult
  memRdata := MemoryStage.loadData m.memFunct3 m.aluResult rdata
  rdAddr := m.rdAddr
  regWrite := m.regWrite && m.valid
  wbSel := m.wbSel
  valid := m.valid

def access : Option Isa.Access :=
  if m.memRead then some (.load m.aluResult)
  else if m.memWrite then
    some (.store m.aluResult (MemoryStage.storeData m.memFunct3 m.aluResult m.rs2Data)
      (MemoryStage.byteEnable m.memFunct3 m.aluResult))
  else none

def write (mem : DataMem) : Option (RegAddr × Word) :=
  if m.regWrite then some (m.rdAddr, (m.toWb (mem (wordAddr m.aluResult))).rdData) else none

/-- the instruction in MEM has the effect `e` on the data memory `mem` -/
structure Carries (e : Isa.Effect) (mem : DataMem) : Prop where
  valid : m.valid = true
  access : m.access = e.access
  write : m.write mem = e.write
  aligned : (m.memRead || m.memWrite) = true → MemoryStage.misaligned m.memFunct3 m.aluResult = false
  /-- an instruction reads memory or writes it -/
  readOrWrite : m.memRead = true → m.memWrite = false
  /-- what is written back: the ALU result, the loaded data, or the link of a jump -/
  source : m.wbSel = 0b00#2 ∨ (m.wbSel = 0b01#2 ∧ m.memRead = true) ∨ m.wbSel = 0b10#2

end ExMem

/-! ## The units -/

namespace Isa

theorem high_ofInt64 (n : ℤ) : (BitVec.ofInt 64 n).extractLsb' 32 32 = BitVec.ofInt 32 (n / 2 ^ 32) := by
  apply BitVec.eq_of_toNat_eq
  simp only [BitVec.extractLsb'_toNat, BitVec.toNat_ofInt, Nat.shiftRight_eq_div_pow]
  omega

theorem high_ofInt65 (n : ℤ) : (BitVec.ofInt 65 n).extractLsb' 32 32 = BitVec.ofInt 32 (n / 2 ^ 32) := by
  apply BitVec.eq_of_toNat_eq
  simp only [BitVec.extractLsb'_toNat, BitVec.toNat_ofInt, Nat.shiftRight_eq_div_pow]
  omega

theorem low_ofInt64 (n : ℤ) : (BitVec.ofInt 64 n).extractLsb' 0 32 = BitVec.ofInt 32 n := by
  apply BitVec.eq_of_toNat_eq
  simp only [BitVec.extractLsb'_toNat, BitVec.toNat_ofInt, Nat.shiftRight_eq_div_pow]
  omega

theorem signExtend_mul (a b : Word) : a.signExtend 64 * b.signExtend 64 = BitVec.ofInt 64 (a.toInt * b.toInt) := by
  rw [BitVec.ofInt_mul]
  rfl

def MulOp.toMext : MulOp → MextOp
  | .mul => .mul
  | .mulh => .mulh
  | .mulhsu => .mulhsu
  | .mulhu => .mulhu

theorem mulResult_eq (o : MulOp) (a b : Word) : MulDiv.mulResult o.toMext a b = o.eval a b := by
  cases o with
  | mul => simp only [MulOp.toMext, MulDiv.mulResult, MulOp.eval, signExtend_mul, low_ofInt64]
  | mulh => simp only [MulOp.toMext, MulDiv.mulResult, MulOp.eval, signExtend_mul, high_ofInt64]
  | mulhsu =>
    have h : a.signExtend 65 * b.setWidth 65 = BitVec.ofInt 65 (a.toInt * b.toNat) := by
      rw [BitVec.ofInt_mul]
      congr 1
      apply BitVec.eq_of_toNat_eq
      simp
    simp only [MulOp.toMext, MulDiv.mulResult, MulOp.eval, h, high_ofInt65]
  | mulhu =>
    have h : a.toNat * b.toNat < 2 ^ 64 := by
      have := Nat.mul_lt_mul'' a.isLt b.isLt
      simpa using this
    apply BitVec.eq_of_toNat_eq
    simp only [MulOp.toMext, MulDiv.mulResult, MulOp.eval, BitVec.extractLsb'_toNat, BitVec.toNat_mul,
      BitVec.toNat_setWidth, BitVec.toNat_ofNat, Nat.shiftRight_eq_div_pow]
    have ha : a.toNat % 2 ^ 64 = a.toNat := Nat.mod_eq_of_lt (by omega)
    have hb : b.toNat % 2 ^ 64 = b.toNat := Nat.mod_eq_of_lt (by omega)
    rw [ha, hb, Nat.mod_eq_of_lt h]

def Op.toAlu : Op → AluOp
  | .add => .add
  | .sub => .sub
  | .sll => .sll
  | .slt => .slt
  | .sltu => .sltu
  | .xor => .xor
  | .srl => .srl
  | .sra => .sra
  | .or => .or
  | .and => .and

theorem alu_eq (o : Op) (a b : Word) : alu o.toAlu a b = o.eval a b := by
  cases o <;> simp [Op.toAlu, alu, Op.eval, BitVec.slt, BitVec.ult]

/-! ## Branches and data lanes -/

theorem cond_eq {w : Word} {c : Cond} (h : decodeBranch w = some c) (a b : Word) :
    BranchUnit.cond (Decode.funct3 w) a b = c.holds a b := by
  have hf : Decode.funct3 w = funct3 w := rfl
  unfold decodeBranch at h
  rw [hf]
  split_ifs at h with h1 h2 h3 h4 h5 h6 <;> cases h
  · simp [BranchUnit.cond, Cond.holds, h1]; rfl
  · simp [BranchUnit.cond, Cond.holds, h2]; rfl
  · simp [BranchUnit.cond, Cond.holds, BitVec.slt, h3]
  · simp [BranchUnit.cond, Cond.holds, BitVec.slt, h4, ← decide_not]
  · simp [BranchUnit.cond, Cond.holds, BitVec.ult, h5]
  · simp [BranchUnit.cond, Cond.holds, BitVec.ult, h6, ← decide_not]

theorem extract_ushiftRight (x : Word) (n k : ℕ) : (x >>> n).extractLsb' 0 k = x.extractLsb' n k := by
  ext i hi
  simp

theorem extract_zero (x : Word) (n : ℕ) : x.extractLsb' 0 n = x.setWidth n := by
  ext i hi
  simp

theorem append_zero_eq_shift (y : BitVec 16) : y ++ 0#16 = y.setWidth 32 <<< 16 := by
  apply BitVec.eq_of_toNat_eq
  have := y.isLt
  rw [BitVec.toNat_append]
  simp [Nat.shiftLeft_eq]
  omega

theorem shift_eq (addr : Word) : MemoryStage.shift addr = 8 * (addr.toNat % 4) := by
  simp [MemoryStage.shift, Nat.mul_comm]

namespace Width

/-- the half word of an aligned address is chosen by its bit 1 -/
theorem half_offset {addr : Word} (h : half.Aligned addr) : addr.toNat % 4 = if addr.getLsbD 1 then 2 else 0 := by
  simp only [Aligned, bytes] at h
  simp only [BitVec.getLsbD, Nat.testBit, Nat.shiftRight_eq_div_pow]
  by_cases hb : addr.toNat / 2 % 2 = 1
  · simp [hb]; omega
  · simp [hb]; omega

theorem word_offset {addr : Word} (h : word.Aligned addr) : addr.toNat % 4 = 0 := h

/-- `funct3[1:0]` of an access -/
def code : Width → BitVec 2
  | byte => 0b00
  | half => 0b01
  | word => 0b10

end Width

theorem misaligned_eq {f : BitVec 3} {l : Width} {addr : Word} (h : f.extractLsb' 0 2 = l.code) (ha : l.Aligned addr) :
    MemoryStage.misaligned f addr = false := by
  unfold MemoryStage.misaligned
  rw [h]
  cases l with
  | byte => rfl
  | half =>
    simp only [Width.Aligned, Width.bytes] at ha
    simp [Width.code, BitVec.getElem_eq_testBit_toNat, ha]
  | word =>
    have hz : addr.extractLsb' 0 2 = 0#2 := by
      apply BitVec.eq_of_toNat_eq
      simp [Width.word_offset ha]
    simp [Width.code, hz]

theorem code_of_load {w : Word} {l : Width × Bool} (h : decodeLoad w = some l) :
    (Decode.funct3 w).extractLsb' 0 2 = l.1.code := by
  have hf : Decode.funct3 w = funct3 w := rfl
  unfold decodeLoad at h
  rw [hf]
  split_ifs at h <;> cases h <;> simp only [*] <;> rfl

theorem code_of_store {w : Word} {l : Width} (h : decodeStore w = some l) :
    (Decode.funct3 w).extractLsb' 0 2 = l.code := by
  have hf : Decode.funct3 w = funct3 w := rfl
  unfold decodeStore at h
  rw [hf]
  split_ifs at h <;> cases h <;> simp only [*] <;> rfl

theorem loadData_eq {w : Word} {l : Width × Bool} (h : decodeLoad w = some l) {addr : Word} (ha : l.1.Aligned addr)
    (x : Word) : MemoryStage.loadData (Decode.funct3 w) addr x = l.1.loaded l.2 addr x := by
  have hf : Decode.funct3 w = funct3 w := rfl
  unfold decodeLoad at h
  rw [hf]
  split_ifs at h with h1 h2 h3 h4 h5 <;> cases h
  · simp [MemoryStage.loadData, h1, Width.loaded, shift_eq, extract_ushiftRight, Width.bytes]
  · simp only [MemoryStage.loadData, h2, Width.loaded, Width.half_offset ha]
    split_ifs <;> simp_all [Width.bytes]
  · simp [MemoryStage.loadData, h3, Width.loaded, Width.word_offset ha, Width.bytes]
  · simp [MemoryStage.loadData, h4, Width.loaded, shift_eq, extract_ushiftRight, Width.bytes]
  · simp only [MemoryStage.loadData, h5, Width.loaded, Width.half_offset ha]
    split_ifs <;> simp_all [Width.bytes]

theorem storeData_eq {w : Word} {l : Width} (h : decodeStore w = some l) {addr : Word} (ha : l.Aligned addr)
    (x : Word) : MemoryStage.storeData (Decode.funct3 w) addr x = l.lanes addr x := by
  have hf : Decode.funct3 w = funct3 w := rfl
  unfold decodeStore at h
  rw [hf]
  split_ifs at h with h1 h2 h3 <;> cases h
  · simp [MemoryStage.storeData, h1, Width.lanes, shift_eq, extract_zero, Width.bytes]
  · simp only [MemoryStage.storeData, h2, Width.lanes, Width.half_offset ha, extract_zero]
    split_ifs <;> simp_all [Width.bytes, append_zero_eq_shift]
  · simp [MemoryStage.storeData, h3, Width.lanes, Width.word_offset ha, Width.bytes]

theorem byteEnable_eq {w : Word} {l : Width} (h : decodeStore w = some l) {addr : Word} (ha : l.Aligned addr) :
    MemoryStage.byteEnable (Decode.funct3 w) addr = l.strobe addr := by
  have hf : Decode.funct3 w = funct3 w := rfl
  unfold decodeStore at h
  rw [hf]
  split_ifs at h with h1 h2 h3 <;> cases h
  · simp [MemoryStage.byteEnable, h1, Width.strobe, Width.bytes]
  · simp only [MemoryStage.byteEnable, h2, Width.strobe, Width.half_offset ha]
    split_ifs <;> simp_all [Width.bytes]
  · simp [MemoryStage.byteEnable, h3, Width.strobe, Width.word_offset ha, Width.bytes]

/-! ## Decoding -/

/-- bit 30 is `funct7[5]` -/
theorem bit30_eq (w : Word) : w.getLsbD 30 = (funct7 w).getLsbD 5 := by
  simp [funct7, BitVec.extractLsb]

/-- the table of the operations: `funct7` is zero or has bit 5 only -/
theorem aluOp_op {w : Word} {o : Op} (h : decodeOp w = some o) :
    Decode.aluOp (Decode.funct3 w) (w.getLsbD 30) (w.getLsbD 30) = o.toAlu := by
  have hf : Decode.funct3 w = funct3 w := rfl
  unfold decodeOp at h
  rw [hf, bit30_eq]
  generalize funct3 w = f, funct7 w = g at h ⊢
  by_cases h0 : g = 0b0000000#7
  · rw [h0] at h ⊢
    revert f
    cases o <;> decide
  by_cases h1 : g = 0b0100000#7
  · rw [h1] at h ⊢
    revert f
    cases o <;> decide
  · rw [if_neg h0, if_neg h1] at h
    cases h

/-- only the right shifts look at `funct7` -/
theorem aluOp_opImm {w : Word} {o : Op} (h : decodeOpImm w = some o) :
    Decode.aluOp (Decode.funct3 w) false (w.getLsbD 30) = o.toAlu := by
  have hf : Decode.funct3 w = funct3 w := rfl
  unfold decodeOpImm at h
  rw [hf, bit30_eq]
  generalize funct3 w = f, funct7 w = g at h ⊢
  by_cases h0 : g = 0b0000000#7
  · rw [h0] at h ⊢
    revert f
    cases o <;> decide
  by_cases h1 : g = 0b0100000#7
  · rw [h1] at h ⊢
    revert f
    cases o <;> decide
  · simp only [h0, h1] at h
    generalize g.getLsbD 5 = c
    revert f c
    cases o <;> decide

theorem mextOp_mul {w : Word} {o : MulOp} (h : decodeMul w = some o) :
    MextOp.ofFunct3 (Decode.funct3 w) = o.toMext := by
  have hf : Decode.funct3 w = funct3 w := rfl
  unfold decodeMul at h
  rw [hf]
  split_ifs at h <;> cases h <;> simp [MextOp.ofFunct3, MulOp.toMext, *]

/-- the instructions with their fields, by the opcode of the core -/
inductive Decodes (w : Word) : Instr → Prop where
  | lui (h : Decode.opcode w = some .lui) : Decodes w (.lui (rd w) (immU w))
  | auipc (h : Decode.opcode w = some .auipc) : Decodes w (.auipc (rd w) (immU w))
  | jal (h : Decode.opcode w = some .jal) : Decodes w (.jal (rd w) (immJ w))
  | jalr (h : Decode.opcode w = some .jalr) : Decodes w (.jalr (rd w) (rs1 w) (immI w))
  | branch (h : Decode.opcode w = some .branch) {c : Cond} (hc : decodeBranch w = some c) :
    Decodes w (.branch c (rs1 w) (rs2 w) (immB w))
  | load (h : Decode.opcode w = some .load) {l : Width × Bool} (hl : decodeLoad w = some l) :
    Decodes w (.load l.1 l.2 (rd w) (rs1 w) (immI w))
  | store (h : Decode.opcode w = some .store) {l : Width} (hl : decodeStore w = some l) :
    Decodes w (.store l (rs1 w) (rs2 w) (immS w))
  | opImm (h : Decode.opcode w = some .opImm) {o : Op} (ho : decodeOpImm w = some o) :
    Decodes w (.opImm o (rd w) (rs1 w) (immI w))
  | op (h : Decode.opcode w = some .op) {o : Op} (hm : funct7 w ≠ 0b0000001#7) (ho : decodeOp w = some o) :
    Decodes w (.op o (rd w) (rs1 w) (rs2 w))
  | mul (h : Decode.opcode w = some .op) {o : MulOp} (hm : funct7 w = 0b0000001#7) (ho : decodeMul w = some o) :
    Decodes w (.mul o (rd w) (rs1 w) (rs2 w))

theorem decodes {w : Word} {i : Instr} (h : decode w = some i) : Decodes w i := by
  have hop {b : BitVec 7} {o : Option Opcode} (hb : opcode w = b) (ho : Opcode.ofBits b = o) : Decode.opcode w = o := by
    rw [← ho, ← hb]; rfl
  unfold decode at h
  by_cases h1 : opcode w = 0b0110111#7
  · rw [if_pos h1] at h
    cases h
    exact .lui (hop h1 rfl)
  rw [if_neg h1] at h
  by_cases h2 : opcode w = 0b0010111#7
  · rw [if_pos h2] at h
    cases h
    exact .auipc (hop h2 rfl)
  rw [if_neg h2] at h
  by_cases h3 : opcode w = 0b1101111#7
  · rw [if_pos h3] at h
    cases h
    exact .jal (hop h3 rfl)
  rw [if_neg h3] at h
  by_cases h4 : opcode w = 0b1100111#7
  · rw [if_pos h4] at h
    split at h
    · cases h
      exact .jalr (hop h4 rfl)
    · cases h
  rw [if_neg h4] at h
  by_cases h5 : opcode w = 0b1100011#7
  · rw [if_pos h5] at h
    obtain ⟨c, hc, rfl⟩ := Option.map_eq_some_iff.1 h
    exact .branch (hop h5 rfl) hc
  rw [if_neg h5] at h
  by_cases h6 : opcode w = 0b0000011#7
  · rw [if_pos h6] at h
    obtain ⟨l, hl, rfl⟩ := Option.map_eq_some_iff.1 h
    exact .load (hop h6 rfl) hl
  rw [if_neg h6] at h
  by_cases h7 : opcode w = 0b0100011#7
  · rw [if_pos h7] at h
    obtain ⟨l, hl, rfl⟩ := Option.map_eq_some_iff.1 h
    exact .store (hop h7 rfl) hl
  rw [if_neg h7] at h
  by_cases h8 : opcode w = 0b0010011#7
  · rw [if_pos h8] at h
    obtain ⟨o, ho, rfl⟩ := Option.map_eq_some_iff.1 h
    exact .opImm (hop h8 rfl) ho
  rw [if_neg h8] at h
  by_cases h9 : opcode w = 0b0110011#7
  · rw [if_pos h9] at h
    by_cases hm : funct7 w = 0b0000001#7
    · rw [if_pos hm] at h
      obtain ⟨o, ho, rfl⟩ := Option.map_eq_some_iff.1 h
      exact .mul (hop h9 rfl) hm ho
    · rw [if_neg hm] at h
      obtain ⟨o, ho, rfl⟩ := Option.map_eq_some_iff.1 h
      exact .op (hop h9 rfl) hm ho
  · rw [if_neg h9] at h
    cases h

/-! ## Control signals -/

theorem ctrl_lui {w : Word} (h : Decode.opcode w = some .lui) :
    Decode.ctrl w = { Ctrl.idle with aluOp := .lui, aluSrcB := true, regWrite := true } := by
  simp only [Decode.ctrl, h]

theorem ctrl_auipc {w : Word} (h : Decode.opcode w = some .auipc) :
    Decode.ctrl w = { Ctrl.idle with aluOp := .auipc, aluSrcA := true, aluSrcB := true, regWrite := true } := by
  simp only [Decode.ctrl, h]

theorem ctrl_jal {w : Word} (h : Decode.opcode w = some .jal) :
    Decode.ctrl w = { Ctrl.idle with jal := true, regWrite := true, wbSel := 0b10 } := by
  simp only [Decode.ctrl, h]

theorem ctrl_jalr {w : Word} (h : Decode.opcode w = some .jalr) :
    Decode.ctrl w = { Ctrl.idle with jalr := true, aluSrcB := true, regWrite := true, wbSel := 0b10 } := by
  simp only [Decode.ctrl, h]

theorem ctrl_branch {w : Word} (h : Decode.opcode w = some .branch) :
    Decode.ctrl w = { Ctrl.idle with branch := true, branchFunct3 := Decode.funct3 w } := by
  simp only [Decode.ctrl, h]

theorem ctrl_load {w : Word} (h : Decode.opcode w = some .load) :
    Decode.ctrl w = { Ctrl.idle with
      aluSrcB := true, memRead := true, memFunct3 := Decode.funct3 w, regWrite := true, wbSel := 0b01 } := by
  simp only [Decode.ctrl, h]

theorem ctrl_store {w : Word} (h : Decode.opcode w = some .store) :
    Decode.ctrl w = { Ctrl.idle with aluSrcB := true, memWrite := true, memFunct3 := Decode.funct3 w } := by
  simp only [Decode.ctrl, h]

theorem ctrl_opImm {w : Word} {o : Op} (h : Decode.opcode w = some .opImm) (ho : decodeOpImm w = some o) :
    Decode.ctrl w = { Ctrl.idle with aluSrcB := true, regWrite := true, aluOp := o.toAlu } := by
  rw [← aluOp_opImm ho]
  simp only [Decode.ctrl, h]

theorem ctrl_op {w : Word} {o : Op} (h : Decode.opcode w = some .op) (hm : funct7 w ≠ 0b0000001#7)
    (ho : decodeOp w = some o) : Decode.ctrl w = { Ctrl.idle with regWrite := true, aluOp := o.toAlu } := by
  have hm : Decode.funct7 w ≠ 0b0000001#7 := hm
  rw [← aluOp_op ho]
  simp only [Decode.ctrl, h, if_neg hm]

theorem ctrl_mul {w : Word} {o : MulOp} (h : Decode.opcode w = some .op) (hm : funct7 w = 0b0000001#7)
    (ho : decodeMul w = some o) :
    Decode.ctrl w = { Ctrl.idle with regWrite := true, mextEn := true, mextOp := o.toMext } := by
  have hm : Decode.funct7 w = 0b0000001#7 := hm
  rw [← mextOp_mul ho]
  simp only [Decode.ctrl, h, if_pos hm]

/-! ## Instructions -/

/-- the data access of the instruction, if there is one, is aligned -/
def Instr.AccessAligned (i : Instr) (s : State) : Prop :=
  match i with
  | .load w _ _ rs1 offset => w.Aligned (s.reg rs1 + offset)
  | .store w rs1 _ offset => w.Aligned (s.reg rs1 + offset)
  | _ => True

theorem Instr.Aligned.access {i : Instr} {s : State} (h : i.Aligned s) : i.AccessAligned s := h.2

section Exec

variable {w : Word} {i : Instr} {s : State} {a b r1 r2 : Word}

theorem base_of_decode (hw : decode w = some i) : (Decode.ctrl w).Base := by
  cases decodes hw with
  | lui h => rw [ctrl_lui h]; exact ⟨rfl, rfl, rfl, rfl, rfl, nofun⟩
  | auipc h => rw [ctrl_auipc h]; exact ⟨rfl, rfl, rfl, rfl, rfl, nofun⟩
  | jal h => rw [ctrl_jal h]; exact ⟨rfl, rfl, rfl, rfl, rfl, nofun⟩
  | jalr h => rw [ctrl_jalr h]; exact ⟨rfl, rfl, rfl, rfl, rfl, nofun⟩
  | branch h => rw [ctrl_branch h]; exact ⟨rfl, rfl, rfl, rfl, rfl, nofun⟩
  | load h => rw [ctrl_load h]; exact ⟨rfl, rfl, rfl, rfl, rfl, nofun⟩
  | store h => rw [ctrl_store h]; exact ⟨rfl, rfl, rfl, rfl, rfl, nofun⟩
  | opImm h ho => rw [ctrl_opImm h ho]; exact ⟨rfl, rfl, rfl, rfl, rfl, nofun⟩
  | op h hm ho => rw [ctrl_op h hm ho]; exact ⟨rfl, rfl, rfl, rfl, rfl, nofun⟩
  | @mul h o hm ho => rw [ctrl_mul h hm ho]; exact ⟨rfl, rfl, rfl, rfl, rfl, fun _ => by cases o <;> rfl⟩

/-- an instruction that is no branch and no jump goes on to the next word -/
theorem nextPc_of_noBranch (hb : (Decode.ctrl w).branch = false) (hj : (Decode.ctrl w).jal = false)
    (hr : (Decode.ctrl w).jalr = false) : (Decode.idEx ⟨s.pc, w, true⟩ r1 r2).nextPc a b = s.pc + 4 := by
  simp [IdEx.nextPc, IdEx.taken, BranchUnit.taken, Decode.idEx, hb, hj, hr]

theorem nextPc_of_decode (hw : decode w = some i) (ho : (Decode.idEx ⟨s.pc, w, true⟩ r1 r2).Operands a b s) :
    (Decode.idEx ⟨s.pc, w, true⟩ r1 r2).nextPc a b = (i.effect s).nextPc := by
  cases decodes hw with
  | lui h => apply nextPc_of_noBranch <;> rw [ctrl_lui h] <;> rfl
  | auipc h => apply nextPc_of_noBranch <;> rw [ctrl_auipc h] <;> rfl
  | jal h =>
    simp [IdEx.nextPc, IdEx.taken, BranchUnit.taken, BranchUnit.target, Decode.idEx, ctrl_jal h, Ctrl.idle,
      Decode.immediate, h]
    rfl
  | jalr h =>
    have h1 : a = s.reg (rs1 w) := ho.rs1 (by simp [Ctrl.usesRs1, Decode.idEx, ctrl_jalr h, Ctrl.idle])
    simp [IdEx.nextPc, IdEx.taken, BranchUnit.taken, BranchUnit.target, Decode.idEx, ctrl_jalr h,
      Decode.immediate, h, h1]
    rfl
  | @branch h c hc =>
    have h1 : a = s.reg (rs1 w) := ho.rs1 (by simp [Ctrl.usesRs1, Decode.idEx, ctrl_branch h, Ctrl.idle])
    have h2 : b = s.reg (rs2 w) := ho.rs2 (by simp [Ctrl.usesRs2, Decode.idEx, ctrl_branch h, Ctrl.idle])
    simp [IdEx.nextPc, IdEx.taken, BranchUnit.taken, BranchUnit.target, Decode.idEx, ctrl_branch h, Ctrl.idle,
      Decode.immediate, h, h1, h2, cond_eq hc]
    rfl
  | load h => apply nextPc_of_noBranch <;> rw [ctrl_load h] <;> rfl
  | store h => apply nextPc_of_noBranch <;> rw [ctrl_store h] <;> rfl
  | opImm h ho => apply nextPc_of_noBranch <;> rw [ctrl_opImm h ho] <;> rfl
  | op h hm ho => apply nextPc_of_noBranch <;> rw [ctrl_op h hm ho] <;> rfl
  | mul h hm ho => apply nextPc_of_noBranch <;> rw [ctrl_mul h hm ho] <;> rfl

/-- only jumps write back a link, and jumps are taken -/
theorem taken_of_link (hw : decode w = some i) (hs : (Decode.ctrl w).wbSel = 0b10#2) :
    (Decode.idEx ⟨s.pc, w, true⟩ r1 r2).taken a b = true := by
  cases decodes hw with
  | jal h => simp [IdEx.taken, BranchUnit.taken, Decode.idEx, ctrl_jal h]
  | jalr h => simp [IdEx.taken, BranchUnit.taken, Decode.idEx, ctrl_jalr h]
  | lui h => rw [ctrl_lui h] at hs; cases hs
  | auipc h => rw [ctrl_auipc h] at hs; cases hs
  | branch h => rw [ctrl_branch h] at hs; cases hs
  | load h => rw [ctrl_load h] at hs; cases hs
  | store h => rw [ctrl_store h] at hs; cases hs
  | opImm h ho => rw [ctrl_opImm h ho] at hs; cases hs
  | op h hm ho => rw [ctrl_op h hm ho] at hs; cases hs
  | mul h hm ho => rw [ctrl_mul h hm ho] at hs; cases hs

/-- an instruction that writes back what EX computes -/
theorem carries_result {n v : Word} {mem : DataMem} (hr : (Decode.ctrl w).memRead = false)
    (hm : (Decode.ctrl w).memWrite = false) (hg : (Decode.ctrl w).regWrite = true)
    (hs : (Decode.ctrl w).wbSel = 0b00#2) (hv : (Decode.idEx ⟨s.pc, w, true⟩ r1 r2).result a b = v) :
    ((Decode.idEx ⟨s.pc, w, true⟩ r1 r2).executed a b).Carries ⟨n, some (rd w, v), none⟩ mem := by
  subst hv
  refine ⟨rfl, ?_, ?_, ?_, ?_, .inl hs⟩
  · simp [ExMem.access, IdEx.executed, Decode.idEx, hr, hm]
  · simp [ExMem.write, ExMem.toWb, MemWb.rdData, IdEx.executed, Decode.idEx, hg, hs]
    rfl
  · simp [IdEx.executed, Decode.idEx, hr, hm]
  · simp [IdEx.executed, Decode.idEx, hr]

theorem carries_link {n : Word} {mem : DataMem} (hr : (Decode.ctrl w).memRead = false)
    (hm : (Decode.ctrl w).memWrite = false) (hg : (Decode.ctrl w).regWrite = true)
    (hs : (Decode.ctrl w).wbSel = 0b10#2) :
    ((Decode.idEx ⟨s.pc, w, true⟩ r1 r2).executed a b).Carries ⟨n, some (rd w, s.pc + 4), none⟩ mem := by
  refine ⟨rfl, ?_, ?_, ?_, ?_, .inr (.inr hs)⟩
  · simp [ExMem.access, IdEx.executed, Decode.idEx, hr, hm]
  · simp [ExMem.write, ExMem.toWb, MemWb.rdData, IdEx.executed, Decode.idEx, hg, hs]
    rfl
  · simp [IdEx.executed, Decode.idEx, hr, hm]
  · simp [IdEx.executed, Decode.idEx, hr]

theorem carries_load {l : Width × Bool} (h : Decode.opcode w = some .load) (hl : decodeLoad w = some l)
    (ha : l.1.Aligned (s.reg (rs1 w) + immI w)) (h1 : a = s.reg (rs1 w)) :
    ((Decode.idEx ⟨s.pc, w, true⟩ r1 r2).executed a b).Carries
      ((Instr.load l.1 l.2 (rd w) (rs1 w) (immI w)).effect s) s.mem := by
  have hr : ((Decode.idEx ⟨s.pc, w, true⟩ r1 r2).executed a b).aluResult = s.reg (rs1 w) + immI w := by
    simp [IdEx.executed, IdEx.result, Decode.idEx, ctrl_load h, Ctrl.idle, Decode.immediate, h, alu, h1]
    rfl
  have hf : ((Decode.idEx ⟨s.pc, w, true⟩ r1 r2).executed a b).memFunct3 = Decode.funct3 w := by
    simp [IdEx.executed, Decode.idEx, ctrl_load h]
  have hrd : ((Decode.idEx ⟨s.pc, w, true⟩ r1 r2).executed a b).memRead = true := by
    simp [IdEx.executed, Decode.idEx, ctrl_load h]
  have hsel : ((Decode.idEx ⟨s.pc, w, true⟩ r1 r2).executed a b).wbSel = 0b01#2 := by
    simp [IdEx.executed, Decode.idEx, ctrl_load h]
  have hg : ((Decode.idEx ⟨s.pc, w, true⟩ r1 r2).executed a b).regWrite = true := by
    simp [IdEx.executed, Decode.idEx, ctrl_load h]
  refine ⟨rfl, ?_, ?_, fun _ => ?_, ?_, .inr (.inl ⟨hsel, hrd⟩)⟩
  · simp only [ExMem.access, hrd, hr, if_true]
    rfl
  · simp only [ExMem.write, hg, ExMem.toWb, MemWb.rdData, hsel, hf, hr, loadData_eq hl ha]
    rfl
  · rw [hf, hr]
    exact misaligned_eq (code_of_load hl) ha
  · simp [IdEx.executed, Decode.idEx, ctrl_load h, Ctrl.idle]

theorem carries_store {l : Width} (h : Decode.opcode w = some .store) (hl : decodeStore w = some l)
    (ha : l.Aligned (s.reg (rs1 w) + immS w)) (h1 : a = s.reg (rs1 w)) (h2 : b = s.reg (rs2 w)) :
    ((Decode.idEx ⟨s.pc, w, true⟩ r1 r2).executed a b).Carries
      ((Instr.store l (rs1 w) (rs2 w) (immS w)).effect s) s.mem := by
  have hr : ((Decode.idEx ⟨s.pc, w, true⟩ r1 r2).executed a b).aluResult = s.reg (rs1 w) + immS w := by
    simp [IdEx.executed, IdEx.result, Decode.idEx, ctrl_store h, Ctrl.idle, Decode.immediate, h, alu, h1]
    rfl
  have hf : ((Decode.idEx ⟨s.pc, w, true⟩ r1 r2).executed a b).memFunct3 = Decode.funct3 w := by
    simp [IdEx.executed, Decode.idEx, ctrl_store h]
  have hrd : ((Decode.idEx ⟨s.pc, w, true⟩ r1 r2).executed a b).memRead = false := by
    simp [IdEx.executed, Decode.idEx, ctrl_store h, Ctrl.idle]
  have hwr : ((Decode.idEx ⟨s.pc, w, true⟩ r1 r2).executed a b).memWrite = true := by
    simp [IdEx.executed, Decode.idEx, ctrl_store h]
  have hd : ((Decode.idEx ⟨s.pc, w, true⟩ r1 r2).executed a b).rs2Data = s.reg (rs2 w) := h2
  refine ⟨rfl, ?_, ?_, fun _ => ?_, ?_, ?_⟩
  · simp only [ExMem.access, hrd, hwr, hr, hf, hd, storeData_eq hl ha, byteEnable_eq hl ha]
    rfl
  · simp [ExMem.write, IdEx.executed, Decode.idEx, ctrl_store h, Ctrl.idle, Instr.effect]
  · rw [hf, hr]
    exact misaligned_eq (code_of_store hl) ha
  · simp [hrd]
  · simp [IdEx.executed, Decode.idEx, ctrl_store h, Ctrl.idle]

theorem Op.toAlu_ne_lui (o : Op) : o.toAlu ≠ .lui := by cases o <;> decide

/-- **EX/MEM carries the effect of its instruction**, given the operands that the instruction uses -/
theorem carries_of_access (hw : decode w = some i) (hal : i.AccessAligned s)
    (ho : (Decode.idEx ⟨s.pc, w, true⟩ r1 r2).Operands a b s) :
    ((Decode.idEx ⟨s.pc, w, true⟩ r1 r2).executed a b).Carries (i.effect s) s.mem := by
  cases decodes hw with
  | lui h =>
    apply carries_result <;> simp [Decode.idEx, ctrl_lui h, Ctrl.idle, IdEx.result, Decode.immediate, h, alu]
    rfl
  | auipc h =>
    apply carries_result <;> simp [Decode.idEx, ctrl_auipc h, Ctrl.idle, IdEx.result, Decode.immediate, h, alu]
    rfl
  | jal h => apply carries_link <;> rw [ctrl_jal h] <;> rfl
  | jalr h => apply carries_link <;> rw [ctrl_jalr h] <;> rfl
  | branch h hc =>
    refine ⟨rfl, ?_, ?_, ?_, ?_, ?_⟩ <;>
      simp [IdEx.executed, Decode.idEx, ctrl_branch h, Ctrl.idle, Instr.effect, ExMem.access, ExMem.write]
  | load h hl =>
    refine carries_load h hl hal (ho.rs1 ?_)
    simp [Ctrl.usesRs1, Decode.idEx, ctrl_load h, Ctrl.idle]
  | store h hl =>
    refine carries_store h hl hal (ho.rs1 ?_) (ho.rs2 ?_)
    · simp [Ctrl.usesRs1, Decode.idEx, ctrl_store h, Ctrl.idle]
    · simp [Ctrl.usesRs2, Decode.idEx, ctrl_store h, Ctrl.idle]
  | @opImm h o hop =>
    have h1 : a = s.reg (rs1 w) :=
      ho.rs1 (by simp [Ctrl.usesRs1, Decode.idEx, ctrl_opImm h hop, Ctrl.idle, o.toAlu_ne_lui])
    apply carries_result <;>
      simp [Decode.idEx, ctrl_opImm h hop, Ctrl.idle, IdEx.result, Decode.immediate, h, alu_eq, h1]
    rfl
  | @op h o hm hop =>
    have h1 : a = s.reg (rs1 w) :=
      ho.rs1 (by simp [Ctrl.usesRs1, Decode.idEx, ctrl_op h hm hop, Ctrl.idle, o.toAlu_ne_lui])
    have h2 : b = s.reg (rs2 w) := ho.rs2 (by simp [Ctrl.usesRs2, Decode.idEx, ctrl_op h hm hop, Ctrl.idle])
    apply carries_result <;> simp [Decode.idEx, ctrl_op h hm hop, Ctrl.idle, IdEx.result, alu_eq, h1, h2]
  | @mul h o hm hop =>
    have h1 : a = s.reg (rs1 w) := ho.rs1 (by simp [Ctrl.usesRs1, Decode.idEx, ctrl_mul h hm hop, Ctrl.idle])
    have h2 : b = s.reg (rs2 w) := ho.rs2 (by simp [Ctrl.usesRs2, Decode.idEx, ctrl_mul h hm hop, Ctrl.idle])
    apply carries_result <;> simp [Decode.idEx, ctrl_mul h hm hop, Ctrl.idle, IdEx.result, mulResult_eq, h1, h2]

theorem carries_of_decode (hw : decode w = some i) (hal : i.Aligned s)
    (ho : (Decode.idEx ⟨s.pc, w, true⟩ r1 r2).Operands a b s) :
    ((Decode.idEx ⟨s.pc, w, true⟩ r1 r2).executed a b).Carries (i.effect s) s.mem :=
  carries_of_access hw hal.access ho

end Exec

end Isa

end Vsync
