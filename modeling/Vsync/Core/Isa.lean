/-
A sequential RV32IM interpreter: the instructions of the base ISA and the multiplications, one at a time.

It is written from the ISA and shares with the core only the memories. An instruction is its `Effect` on a state: the
next pc, at most one register write and at most one data access. `Ok` is what the ISA asks of an instruction that does
not trap: a known encoding, an aligned access, an aligned target.
-/
import Vsync.Core.Memory
import Vsync.Machine

namespace Vsync.Isa

/-! ## Instructions -/

/-- the register-register operations; the immediate forms share them -/
inductive Op where
  | add
  | sub
  | sll
  | slt
  | sltu
  | xor
  | srl
  | sra
  | or
  | and
  deriving DecidableEq, Repr

inductive MulOp where
  | mul
  | mulh
  | mulhsu
  | mulhu
  deriving DecidableEq, Repr

inductive Cond where
  | eq
  | ne
  | lt
  | ge
  | ltu
  | geu
  deriving DecidableEq, Repr

inductive Width where
  | byte
  | half
  | word
  deriving DecidableEq, Repr

inductive Instr where
  | lui (rd : RegAddr) (imm : Word)
  | auipc (rd : RegAddr) (imm : Word)
  | jal (rd : RegAddr) (offset : Word)
  | jalr (rd rs1 : RegAddr) (offset : Word)
  | branch (c : Cond) (rs1 rs2 : RegAddr) (offset : Word)
  | load (w : Width) (signed : Bool) (rd rs1 : RegAddr) (offset : Word)
  | store (w : Width) (rs1 rs2 : RegAddr) (offset : Word)
  | opImm (op : Op) (rd rs1 : RegAddr) (imm : Word)
  | op (op : Op) (rd rs1 rs2 : RegAddr)
  | mul (op : MulOp) (rd rs1 rs2 : RegAddr)
  deriving DecidableEq, Repr

/-! ## Decoding -/

def immI (w : Word) : Word := (w.extractLsb 31 20).signExtend 32

def immS (w : Word) : Word := (w.extractLsb 31 25 ++ w.extractLsb 11 7).signExtend 32

def immB (w : Word) : Word :=
  (w.extractLsb 31 31 ++ w.extractLsb 7 7 ++ w.extractLsb 30 25 ++ w.extractLsb 11 8 ++ 0#1).signExtend 32

def immU (w : Word) : Word := w.extractLsb 31 12 ++ 0#12

def immJ (w : Word) : Word :=
  (w.extractLsb 31 31 ++ w.extractLsb 19 12 ++ w.extractLsb 20 20 ++ w.extractLsb 30 21 ++ 0#1).signExtend 32

def opcode (w : Word) : BitVec 7 := w.extractLsb 6 0

def rd (w : Word) : RegAddr := w.extractLsb 11 7

def rs1 (w : Word) : RegAddr := w.extractLsb 19 15

def rs2 (w : Word) : RegAddr := w.extractLsb 24 20

def funct3 (w : Word) : BitVec 3 := w.extractLsb 14 12

def funct7 (w : Word) : BitVec 7 := w.extractLsb 31 25

def decodeBranch (w : Word) : Option Cond :=
  if funct3 w = 0b000#3 then some .eq
  else if funct3 w = 0b001#3 then some .ne
  else if funct3 w = 0b100#3 then some .lt
  else if funct3 w = 0b101#3 then some .ge
  else if funct3 w = 0b110#3 then some .ltu
  else if funct3 w = 0b111#3 then some .geu
  else none

def decodeLoad (w : Word) : Option (Width × Bool) :=
  if funct3 w = 0b000#3 then some (.byte, true)
  else if funct3 w = 0b001#3 then some (.half, true)
  else if funct3 w = 0b010#3 then some (.word, true)
  else if funct3 w = 0b100#3 then some (.byte, false)
  else if funct3 w = 0b101#3 then some (.half, false)
  else none

def decodeStore (w : Word) : Option Width :=
  if funct3 w = 0b000#3 then some .byte
  else if funct3 w = 0b001#3 then some .half
  else if funct3 w = 0b010#3 then some .word
  else none

def decodeOpImm (w : Word) : Option Op :=
  if funct3 w = 0b000#3 then some .add
  else if funct3 w = 0b010#3 then some .slt
  else if funct3 w = 0b011#3 then some .sltu
  else if funct3 w = 0b100#3 then some .xor
  else if funct3 w = 0b110#3 then some .or
  else if funct3 w = 0b111#3 then some .and
  else if funct3 w = 0b001#3 ∧ funct7 w = 0b0000000#7 then some .sll
  else if funct3 w = 0b101#3 ∧ funct7 w = 0b0000000#7 then some .srl
  else if funct3 w = 0b101#3 ∧ funct7 w = 0b0100000#7 then some .sra
  else none

def decodeOp (w : Word) : Option Op :=
  if funct7 w = 0b0000000#7 then
    if funct3 w = 0b000#3 then some .add
    else if funct3 w = 0b001#3 then some .sll
    else if funct3 w = 0b010#3 then some .slt
    else if funct3 w = 0b011#3 then some .sltu
    else if funct3 w = 0b100#3 then some .xor
    else if funct3 w = 0b101#3 then some .srl
    else if funct3 w = 0b110#3 then some .or
    else some .and
  else if funct7 w = 0b0100000#7 then
    if funct3 w = 0b000#3 then some .sub
    else if funct3 w = 0b101#3 then some .sra
    else none
  else none

def decodeMul (w : Word) : Option MulOp :=
  if funct3 w = 0b000#3 then some .mul
  else if funct3 w = 0b001#3 then some .mulh
  else if funct3 w = 0b010#3 then some .mulhsu
  else if funct3 w = 0b011#3 then some .mulhu
  else none

def decode (w : Word) : Option Instr :=
  if opcode w = 0b0110111#7 then some (.lui (rd w) (immU w))
  else if opcode w = 0b0010111#7 then some (.auipc (rd w) (immU w))
  else if opcode w = 0b1101111#7 then some (.jal (rd w) (immJ w))
  else if opcode w = 0b1100111#7 then
    if funct3 w = 0b000#3 then some (.jalr (rd w) (rs1 w) (immI w)) else none
  else if opcode w = 0b1100011#7 then (decodeBranch w).map fun c => .branch c (rs1 w) (rs2 w) (immB w)
  else if opcode w = 0b0000011#7 then (decodeLoad w).map fun l => .load l.1 l.2 (rd w) (rs1 w) (immI w)
  else if opcode w = 0b0100011#7 then (decodeStore w).map fun l => .store l (rs1 w) (rs2 w) (immS w)
  else if opcode w = 0b0010011#7 then (decodeOpImm w).map fun o => .opImm o (rd w) (rs1 w) (immI w)
  else if opcode w = 0b0110011#7 then
    if funct7 w = 0b0000001#7 then (decodeMul w).map fun o => .mul o (rd w) (rs1 w) (rs2 w)
    else (decodeOp w).map fun o => .op o (rd w) (rs1 w) (rs2 w)
  else none

/-! ## Meaning -/

def Op.eval (op : Op) (a b : Word) : Word :=
  match op with
  | .add => a + b
  | .sub => a - b
  | .sll => a <<< (b.toNat % 32)
  | .slt => if a.toInt < b.toInt then 1 else 0
  | .sltu => if a.toNat < b.toNat then 1 else 0
  | .xor => a ^^^ b
  | .srl => a >>> (b.toNat % 32)
  | .sra => a.sshiftRight (b.toNat % 32)
  | .or => a ||| b
  | .and => a &&& b

def MulOp.eval (op : MulOp) (a b : Word) : Word :=
  match op with
  | .mul => BitVec.ofInt 32 (a.toInt * b.toInt)
  | .mulh => BitVec.ofInt 32 (a.toInt * b.toInt / 2 ^ 32)
  | .mulhsu => BitVec.ofInt 32 (a.toInt * b.toNat / 2 ^ 32)
  | .mulhu => BitVec.ofNat 32 (a.toNat * b.toNat / 2 ^ 32)

def Cond.holds (c : Cond) (a b : Word) : Bool :=
  match c with
  | .eq => a = b
  | .ne => a ≠ b
  | .lt => a.toInt < b.toInt
  | .ge => b.toInt ≤ a.toInt
  | .ltu => a.toNat < b.toNat
  | .geu => b.toNat ≤ a.toNat

namespace Width

def bytes : Width → ℕ
  | byte => 1
  | half => 2
  | word => 4

def Aligned (w : Width) (addr : Word) : Prop := addr.toNat % w.bytes = 0

instance (w : Width) (addr : Word) : Decidable (w.Aligned addr) := by unfold Aligned; infer_instance

def loaded (w : Width) (signed : Bool) (addr data : Word) : Word :=
  let lane := data.extractLsb' (8 * (addr.toNat % 4)) (8 * w.bytes)
  if signed then lane.signExtend 32 else lane.setWidth 32

def lanes (w : Width) (addr data : Word) : Word :=
  (data.setWidth (8 * w.bytes)).setWidth 32 <<< (8 * (addr.toNat % 4))

def strobe (w : Width) (addr : Word) : BitVec 4 := BitVec.ofNat 4 (2 ^ w.bytes - 1) <<< (addr.toNat % 4)

end Width

structure State where
  pc : Word
  regs : RegAddr → Word
  mem : DataMem

def State.reg (s : State) (r : RegAddr) : Word := if r = 0 then 0 else s.regs r

inductive Access where
  | load (addr : Word)
  | store (addr data : Word) (strobe : BitVec 4)
  deriving DecidableEq, Repr

structure Effect where
  nextPc : Word
  write : Option (RegAddr × Word)
  access : Option Access
  deriving DecidableEq, Repr

def Instr.effect (i : Instr) (s : State) : Effect :=
  match i with
  | .lui rd imm => ⟨s.pc + 4, some (rd, imm), none⟩
  | .auipc rd imm => ⟨s.pc + 4, some (rd, s.pc + imm), none⟩
  | .jal rd offset => ⟨s.pc + offset, some (rd, s.pc + 4), none⟩
  | .jalr rd rs1 offset => ⟨(s.reg rs1 + offset) &&& ~~~1#32, some (rd, s.pc + 4), none⟩
  | .branch c rs1 rs2 offset => ⟨if c.holds (s.reg rs1) (s.reg rs2) then s.pc + offset else s.pc + 4, none, none⟩
  | .load w signed rd rs1 offset =>
    let addr := s.reg rs1 + offset
    ⟨s.pc + 4, some (rd, w.loaded signed addr (s.mem (wordAddr addr))), some (.load addr)⟩
  | .store w rs1 rs2 offset =>
    let addr := s.reg rs1 + offset
    ⟨s.pc + 4, none, some (.store addr (w.lanes addr (s.reg rs2)) (w.strobe addr))⟩
  | .opImm o rd rs1 imm => ⟨s.pc + 4, some (rd, o.eval (s.reg rs1) imm), none⟩
  | .op o rd rs1 rs2 => ⟨s.pc + 4, some (rd, o.eval (s.reg rs1) (s.reg rs2)), none⟩
  | .mul o rd rs1 rs2 => ⟨s.pc + 4, some (rd, o.eval (s.reg rs1) (s.reg rs2)), none⟩

/-- the access, if there is one, is aligned, and so is the next pc -/
def Instr.Aligned (i : Instr) (s : State) : Prop :=
  (i.effect s).nextPc.toNat % 4 = 0 ∧
    match i with
    | .load w _ _ rs1 offset => w.Aligned (s.reg rs1 + offset)
    | .store w rs1 _ offset => w.Aligned (s.reg rs1 + offset)
    | _ => True

instance (i : Instr) (s : State) : Decidable (i.Aligned s) := by
  unfold Instr.Aligned
  cases i <;> infer_instance

def State.apply (s : State) (e : Effect) : State where
  pc := e.nextPc
  regs :=
    match e.write with
    | some (rd, v) => if rd = 0 then s.regs else Function.update s.regs rd v
    | none => s.regs
  mem :=
    match e.access with
    | some (.store addr data strobe) => s.mem.write addr data strobe
    | _ => s.mem

theorem reg_apply_of_ne {s : State} {e : Effect} {x : RegAddr} (h : ∀ v, x ≠ 0#5 → e.write ≠ some (x, v)) :
    (s.apply e).reg x = s.reg x := by
  by_cases hx : x = 0#5
  · simp [State.reg, hx]
  · cases he : e.write with
    | none => simp [State.apply, State.reg, he]
    | some p =>
      obtain ⟨rd, v⟩ := p
      have hne : x ≠ rd := by
        rintro rfl
        exact h v hx he
      by_cases hrd : rd = 0#5
      · simp [State.apply, State.reg, he, hrd]
      · simp [State.apply, State.reg, he, hrd, hne]

/-- a register write, or a data access: a load with the word it was given, a store with its lanes and strobes -/
inductive Event where
  | write (rd : RegAddr) (value : Word)
  | load (addr data : Word)
  | store (addr data : Word) (strobe : BitVec 4)
  deriving DecidableEq, Repr

def Access.event (a : Access) (mem : DataMem) : Event :=
  match a with
  | .load addr => .load addr (mem (wordAddr addr))
  | .store addr data strobe => .store addr data strobe

/-- the events of an instruction: its access, then its register write -/
def accessEvents (e : Effect) (mem : DataMem) : List Event :=
  match e.access with
  | some a => [a.event mem]
  | none => []

def writeEvents (e : Effect) : List Event :=
  match e.write with
  | some (rd, v) => if rd = 0 then [] else [.write rd v]
  | none => []

/-! ## Programs -/

section Run

variable (prog : Program)

def State.instr (s : State) : Option Instr := decode (prog.fetch s.pc)

/-- the ISA gives the next step a meaning, and no trap -/
def State.Ok (s : State) : Prop := ∃ i, s.instr prog = some i ∧ i.Aligned s

def State.effect (s : State) : Effect :=
  match s.instr prog with
  | some i => i.effect s
  | none => ⟨s.pc, none, none⟩

def State.next (s : State) : State := s.apply (s.effect prog)

def State.events (s : State) : List Event := accessEvents (s.effect prog) s.mem ++ writeEvents (s.effect prog)

def init (mem : DataMem) : State := ⟨0, fun _ => 0, mem⟩

def stateAt (mem : DataMem) : ℕ → State
  | 0 => init mem
  | k + 1 => (stateAt mem k).next prog

def log (mem : DataMem) : ℕ → List Event
  | 0 => []
  | k + 1 => log mem k ++ (stateAt prog mem k).events prog

/-- the program runs without traps -/
def Runs (mem : DataMem) : Prop := ∀ k, (stateAt prog mem k).Ok prog

variable {prog}

theorem log_prefix (prog : Program) (mem : DataMem) {j k : ℕ} (h : j ≤ k) : log prog mem j <+: log prog mem k := by
  induction k, h using Nat.le_induction with
  | base => exact List.prefix_refl _
  | succ k _ ih => exact ih.trans (List.prefix_append _ _)

end Run

end Vsync.Isa
