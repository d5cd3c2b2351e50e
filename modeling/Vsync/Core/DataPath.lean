/-
One instruction through the stages, one after the other: decode_stage, execute_stage with the branch unit and the ALU,
memory_stage, writeback_stage.

- `alone`: the core with one instruction in EX. Nothing is in the stages behind it, so its operands are those of ID/EX.
- `DataPath.effect`: what the stages make of an instruction word, a pc, two operands and a data memory.
- `effect_eq`: it is the effect of the instruction, as the interpreter has it. A jump may go to any address, a data
  access is aligned.
-/
import Vsync.Core.Effects

namespace Vsync

namespace DataPath

/-! ## The stages -/

def quiet : CoreIn := ⟨0, 0, false, .none, false, none, none, false, 0, false⟩

/-- the core with the instruction `d` in EX and no other -/
def alone (d : IdEx) : Rv32imCore := { Rv32imCore.reset with idEx := d }

def inMem (m : ExMem) : Rv32imCore := { Rv32imCore.reset with exMem := m }

/-- the pc behind the instruction: `branch_target` if `branch_taken` -/
def nextPc (d : IdEx) : Word := if (alone d).branchTaken then (alone d).branchTarget else d.pc + 4

/-- the ports of `memory_stage`: `dmem_re`, `dmem_we`, `dmem_addr`, `dmem_wdata`, `dmem_be` -/
def request (m : ExMem) : Option Isa.Access :=
  if (inMem m).memRead then some (.load m.aluResult)
  else if m.memWrite && m.valid then some (.store m.aluResult (inMem m).memWdata (inMem m).memBe)
  else none

def writeback (r : MemWb) : Option (RegAddr × Word) := if r.writes then some (r.rdAddr, r.rdData) else none

/-- the stages one after the other; a read gets the memory word that contains the address -/
def effect (w pc a b : Word) (mem : DataMem) : Isa.Effect :=
  let d := Decode.idEx ⟨pc, w, true⟩ a b
  let m := (alone d).executed quiet
  ⟨nextPc d, writeback ((inMem m).memDone { quiet with memRdata := mem (wordAddr m.aluResult) }), request m⟩

/-! ## No forwarding -/

variable (d : IdEx)

theorem forwarded_alone (x : RegAddr) (latch : Word) : (alone d).forwarded x latch = latch := rfl

theorem rs1Forwarded_alone : (alone d).rs1Forwarded = d.rs1Data := forwarded_alone d _ _

theorem rs2Forwarded_alone : (alone d).rs2Forwarded = d.rs2Data := forwarded_alone d _ _

theorem nextPc_eq : nextPc d = d.nextPc d.rs1Data d.rs2Data := by
  rw [nextPc, Rv32imCore.branchTaken, Rv32imCore.branchTarget, rs1Forwarded_alone, rs2Forwarded_alone]
  rfl

/-- nothing stalls a multiplication -/
theorem mextStart_alone (hv : d.valid = true) (hm : d.ctrl.mextEn = true) : (alone d).mextStart quiet = true := by
  have hstall : (alone d).stallEx quiet = false := rfl
  have hen : (alone d).idEx.ctrl.mextEn = true := hm
  have hvalid : (alone d).idEx.valid = true := hv
  rw [Rv32imCore.mextStart, Rv32imCore.mextInEx, hen, hvalid, hstall]
  rfl

theorem executed_alone (hv : d.valid = true) (hb : d.ctrl.Base) :
    (alone d).executed quiet = d.executed d.rs1Data d.rs2Data := by
  have hx : (alone d).exeResult quiet = d.result d.rs1Data d.rs2Data := by
    cases hm : d.ctrl.mextEn with
    | false =>
      have hen : (alone d).idEx.ctrl.mextEn = false := hm
      simp only [Rv32imCore.exeResult, IdEx.result, hen, hm, Rv32imCore.aluResult, rs1Forwarded_alone,
        rs2Forwarded_alone]
      rfl
    | true =>
      have hen : (alone d).idEx.ctrl.mextEn = true := hm
      have hmul : MulDiv.isMulOp (alone d).idEx.ctrl.mextOp = true := hb.mext hm
      simp only [Rv32imCore.exeResult, IdEx.result, hen, hm, if_true, mextStart_alone d hv hm, MulDiv.result, hmul,
        Bool.and_self, rs1Forwarded_alone, rs2Forwarded_alone, Option.getD_some]
      rfl
  rw [Rv32imCore.executed, hx, rs2Forwarded_alone]
  rfl

/-! ## MEM and WB -/

variable {m : ExMem}

theorem request_eq (hv : m.valid = true) : request m = m.access := by
  have hread : (inMem m).memRead = m.memRead := by
    show (m.memRead && m.valid) = m.memRead
    rw [hv, Bool.and_true]
  rw [request, ExMem.access, hread, hv, Bool.and_true]
  cases m.memRead with
  | true => rfl
  | false =>
    cases hw : m.memWrite with
    | false => rfl
    | true =>
      have hwrite : ((inMem m).exMem.memWrite && (inMem m).exMem.valid) = true := by
        show (m.memWrite && m.valid) = true
        rw [hw, hv]
        rfl
      simp only [Rv32imCore.memWdata, Rv32imCore.memBe, hwrite, if_true]
      rfl

theorem writeback_eq (hv : m.valid = true) (mem : DataMem) :
    writeback ((inMem m).memDone { quiet with memRdata := mem (wordAddr m.aluResult) }) = m.write mem := by
  have hwrites : ((inMem m).memDone { quiet with memRdata := mem (wordAddr m.aluResult) }).writes = m.regWrite := by
    show ((m.regWrite && m.valid) && m.valid) = m.regWrite
    rw [hv, Bool.and_true, Bool.and_true]
  rw [writeback, ExMem.write, hwrites]
  rfl

/-! ## The effect -/

open Isa

variable {w : Word} {i : Instr} {s : State}

theorem operands (w : Word) (s : State) :
    (Decode.idEx ⟨s.pc, w, true⟩ (s.reg (rs1 w)) (s.reg (rs2 w))).Operands (s.reg (rs1 w)) (s.reg (rs2 w)) s :=
  ⟨fun _ => rfl, fun _ => rfl⟩

/-- **The data path of one instruction**: its destination register and value, its access with address, lanes and
strobes, and the next pc are those of the instruction. -/
theorem effect_eq (hw : decode w = some i) (hal : i.AccessAligned s) :
    effect w s.pc (s.reg (rs1 w)) (s.reg (rs2 w)) s.mem = i.effect s := by
  have hbase : (Decode.idEx ⟨s.pc, w, true⟩ (s.reg (rs1 w)) (s.reg (rs2 w))).ctrl.Base := base_of_decode hw
  have hexec := executed_alone _ rfl hbase
  have hpc := nextPc_of_decode hw (operands w s)
  have hcarries := carries_of_access hw hal (operands w s)
  have hwrite := hcarries.write
  have haccess := hcarries.access
  rw [← writeback_eq hcarries.valid] at hwrite
  rw [← request_eq hcarries.valid] at haccess
  rw [effect, nextPc_eq, hexec]
  calc _ = Effect.mk (i.effect s).nextPc (i.effect s).write (i.effect s).access :=
        congr (congr (congrArg Effect.mk hpc) hwrite) haccess
    _ = i.effect s := rfl

/-- `lhu x5, 2(x6)` with 0x104 in `x6` -/
theorem effect_lhu : effect 0x00235283 0x80 0x104 0 (fun _ => 0xBEEF0000) =
    ⟨0x84, some (5, 0xBEEF), some (.load 0x106)⟩ := by
  have haligned : Width.half.Aligned (0x104 + 2) := by decide
  exact effect_eq (w := 0x00235283) (i := .load .half false 5 6 2)
    (s := ⟨0x80, fun r => if r = 6 then 0x104 else 0, fun _ => 0xBEEF0000⟩) (by decide) haligned

end DataPath

end Vsync
