/-
The instruction set of the core, one instruction at a time: the interpreter with the divisions, the CSR instructions and
FENCE.

What a CSR holds comes from outside. An access that is not aligned traps: it leaves the registers and the memory alone.

- `Kind`, `kind_of_valid`: the valid words that are no ECALL, EBREAK or MRET.
- `nextPc_of_kind`, `carries_of_aligned`, `faults_of_unaligned`: what decode and EX make of them.
-/
import Vsync.Core.Divider
import Vsync.Core.Effects
import Vsync.Core.Ledger
import Vsync.Core.Legal

namespace Vsync.Isa

def Division (w : Word) : Prop := opcode w = 0b0110011#7 ∧ funct7 w = 0b0000001#7 ∧ decodeMul w = none

def CsrInstr (w : Word) : Prop := opcode w = 0b1110011#7 ∧ funct3 w ≠ 0b000#3 ∧ funct3 w ≠ 0b100#3

instance (w : Word) : Decidable (Division w) := by unfold Division; infer_instance

instance (w : Word) : Decidable (CsrInstr w) := by unfold CsrInstr; infer_instance

instance (i : Instr) (s : State) : Decidable (i.AccessAligned s) :=
  match i with
  | .load w _ _ rs1 offset => inferInstanceAs (Decidable (w.Aligned (s.reg rs1 + offset)))
  | .store w rs1 _ offset => inferInstanceAs (Decidable (w.Aligned (s.reg rs1 + offset)))
  | .lui .. | .auipc .. | .jal .. | .jalr .. | .branch .. | .opImm .. | .op .. | .mul .. => .isTrue trivial

section Execute

variable (prog : Program)

/-- the effect of the instruction at the pc; `csr` is what its CSR holds, and FENCE does nothing -/
def State.fullEffect (csr : Word) (s : State) : Effect :=
  let w := prog.fetch s.pc
  match decode w with
  | some i => i.effect s
  | none =>
    if Division w then
      ⟨s.pc + 4, some (rd w, Rv32m.divide (MextOp.ofFunct3 (funct3 w)) (s.reg (rs1 w)) (s.reg (rs2 w))), none⟩
    else if CsrInstr w then ⟨s.pc + 4, some (rd w, csr), none⟩
    else ⟨s.pc + 4, none, none⟩

def State.AccessAligned (s : State) : Prop :=
  match decode (prog.fetch s.pc) with
  | some i => i.AccessAligned s
  | none => True

instance (s : State) : Decidable (s.AccessAligned prog) := by
  unfold State.AccessAligned
  cases decode (prog.fetch s.pc) with
  | some i => exact inferInstanceAs (Decidable (i.AccessAligned s))
  | none => exact .isTrue trivial

def State.execute (csr : Word) (s : State) : State :=
  if s.AccessAligned prog then s.apply (s.fullEffect prog csr) else { s with pc := (s.fullEffect prog csr).nextPc }

end Execute

/-! ## The words -/

/-- the words that go through EX and leave it -/
inductive Kind (w : Word) : Prop where
  | base {i : Instr} (h : decode w = some i)
  | division (h : Division w)
  | csr (h : CsrInstr w)
  | fence (h : opcode w = 0b0001111#7)

section Words

variable {w : Word}

theorem decode_op (h : opcode w = 0b0110011#7) : decode w = if funct7 w = 0b0000001#7 then
    (decodeMul w).map fun o => .mul o (rd w) (rs1 w) (rs2 w) else (decodeOp w).map fun o =>
      .op o (rd w) (rs1 w) (rs2 w) := by
  simp [decode, h]

theorem decode_division (h : Division w) : decode w = none := by
  obtain ⟨h1, h2, h3⟩ := h
  rw [decode_op h1, if_pos h2, h3]
  rfl

theorem decode_csr (h : CsrInstr w) : decode w = none := by simp [decode, h.1]

theorem decode_fence (h : opcode w = 0b0001111#7) : decode w = none := by simp [decode, h]

/-- **A valid word that is no ECALL, EBREAK or MRET** -/
theorem kind_of_valid (hv : Valid w) (he : (Decode.ctrl w).ecall = false) (hb : (Decode.ctrl w).ebreak = false)
    (hm : (Decode.ctrl w).mret = false) : Kind w := by
  have some {x : Option Instr} (hx : decode w = x) (hs : x.isSome = true) : Kind w := by
    obtain ⟨i, hi⟩ := Option.isSome_iff_exists.1 hs
    exact .base (hx.trans hi)
  rcases hv with h | h | h | ⟨h, hf⟩ | ⟨h, hs⟩ | ⟨h, hs⟩ | ⟨h, hs⟩ | ⟨h, hs⟩ | ⟨h, hs⟩ | ⟨h, -⟩ | hcsr | rfl | rfl | rfl
  · exact some (by simp only [decode, h]; rfl) rfl
  · exact some (by simp only [decode, h]; rfl) rfl
  · exact some (by simp only [decode, h]; rfl) rfl
  · exact some (x := Option.some (.jalr (rd w) (rs1 w) (immI w))) (by simp [decode, h, hf]) rfl
  · exact some (x := (decodeBranch w).map _) (by simp only [decode, h]; rfl) (by simpa using hs)
  · exact some (x := (decodeLoad w).map _) (by simp only [decode, h]; rfl) (by simpa using hs)
  · exact some (x := (decodeStore w).map _) (by simp only [decode, h]; rfl) (by simpa using hs)
  · exact some (x := (decodeOpImm w).map _) (by simp only [decode, h]; rfl) (by simpa using hs)
  · by_cases h7 : funct7 w = 0b0000001#7
    · cases hmul : decodeMul w with
      | none => exact .division ⟨h, h7, hmul⟩
      | some o =>
        refine .base (i := .mul o (rd w) (rs1 w) (rs2 w)) ?_
        rw [decode_op h, if_pos h7, hmul]
        rfl
    · obtain ⟨o, ho⟩ := Option.isSome_iff_exists.1 (hs.resolve_left h7)
      refine .base (i := .op o (rd w) (rs1 w) (rs2 w)) ?_
      rw [decode_op h, if_neg h7, ho]
      rfl
  · exact .fence h
  · exact .csr hcsr
  · exact absurd he (by decide)
  · exact absurd hb (by decide)
  · exact absurd hm (by decide)

/-- no branch, no jump and no data access -/
structure Straight (c : Ctrl) : Prop where
  branch : c.branch = false
  jal : c.jal = false
  jalr : c.jalr = false
  memRead : c.memRead = false
  memWrite : c.memWrite = false

theorem ctrl_division (h : Division w) : Decode.ctrl w =
    { Ctrl.idle with regWrite := true, mextEn := true, mextOp := MextOp.ofFunct3 (funct3 w) } := by
  have hop : Decode.opcode w = some .op := by
    change Opcode.ofBits (opcode w) = _
    rw [h.1]
    rfl
  have h7 : Decode.funct7 w = 0b0000001#7 := h.2.1
  simp only [Decode.ctrl, hop, if_pos h7]
  rfl

theorem isMulOp_division (h : Division w) : MulDiv.isMulOp (MextOp.ofFunct3 (funct3 w)) = false := by
  have h3 := h.2.2
  unfold decodeMul at h3
  generalize funct3 w = f at h3 ⊢
  revert f
  decide

theorem ctrl_fence (h : opcode w = 0b0001111#7) : Decode.ctrl w = { Ctrl.idle with fence := true } := by
  have hop : Decode.opcode w = some .fence := by
    change Opcode.ofBits (opcode w) = _
    rw [h]
    rfl
  simp only [Decode.ctrl, hop]

/-- the control signals of a CSR instruction that count -/
theorem ctrl_csr (h : CsrInstr w) : Straight (Decode.ctrl w) ∧ (Decode.ctrl w).csrEn = true := by
  have hop : Decode.opcode w = some .system := by
    change Opcode.ofBits (opcode w) = _
    rw [h.1]
    rfl
  have h3 : Decode.funct3 w ≠ 0b000#3 := h.2.1
  rw [ctrl_system hop, Decode.system, if_neg h3]
  refine ⟨⟨?_, ?_, ?_, ?_, ?_⟩, ?_⟩ <;> split_ifs <;> rfl

theorem straight_division (h : Division w) : Straight (Decode.ctrl w) := by
  rw [ctrl_division h]
  exact ⟨rfl, rfl, rfl, rfl, rfl⟩

theorem straight_fence (h : opcode w = 0b0001111#7) : Straight (Decode.ctrl w) := by
  rw [ctrl_fence h]
  exact ⟨rfl, rfl, rfl, rfl, rfl⟩

theorem fence_of_decode {i : Instr} (hw : decode w = some i) : (Decode.ctrl w).fence = false := by
  cases decodes hw with
  | lui h => rw [ctrl_lui h]; rfl
  | auipc h => rw [ctrl_auipc h]; rfl
  | jal h => rw [ctrl_jal h]; rfl
  | jalr h => rw [ctrl_jalr h]; rfl
  | branch h => rw [ctrl_branch h]; rfl
  | load h => rw [ctrl_load h]; rfl
  | store h => rw [ctrl_store h]; rfl
  | opImm h ho => rw [ctrl_opImm h ho]; rfl
  | op h hm ho => rw [ctrl_op h hm ho]; rfl
  | mul h hm ho => rw [ctrl_mul h hm ho]; rfl

end Words

/-! ## The next pc -/

section Exec

variable {prog : Program} {s : State} {i : Instr} {csr a b r1 r2 : Word}

theorem fullEffect_of_decode (h : decode (prog.fetch s.pc) = some i) : s.fullEffect prog csr = i.effect s := by
  simp only [State.fullEffect, h]

theorem accessAligned_of_decode (h : decode (prog.fetch s.pc) = some i) : s.AccessAligned prog ↔ i.AccessAligned s := by
  simp only [State.AccessAligned, h]

theorem accessAligned_of_none (h : decode (prog.fetch s.pc) = none) : s.AccessAligned prog := by
  simp only [State.AccessAligned, h]

theorem nextPc_of_none (h : decode (prog.fetch s.pc) = none) : (s.fullEffect prog csr).nextPc = s.pc + 4 := by
  simp only [State.fullEffect, h]
  split_ifs <;> rfl

/-- **The pc behind an instruction**, with the operands that a base instruction uses -/
theorem nextPc_of_kind (hk : Kind (prog.fetch s.pc))
    (ho : ∀ i, decode (prog.fetch s.pc) = some i →
      (Decode.idEx ⟨s.pc, prog.fetch s.pc, true⟩ r1 r2).Operands a b s) :
    (Decode.idEx ⟨s.pc, prog.fetch s.pc, true⟩ r1 r2).nextPc a b = (s.fullEffect prog csr).nextPc := by
  have straight (hn : decode (prog.fetch s.pc) = none) (hs : Straight (Decode.ctrl (prog.fetch s.pc))) :
      (Decode.idEx ⟨s.pc, prog.fetch s.pc, true⟩ r1 r2).nextPc a b = (s.fullEffect prog csr).nextPc := by
    rw [nextPc_of_none hn, nextPc_of_noBranch hs.branch hs.jal hs.jalr]
  cases hk with
  | base h => rw [fullEffect_of_decode h, nextPc_of_decode h (ho _ h)]
  | division h => exact straight (decode_division h) (straight_division h)
  | csr h => exact straight (decode_csr h) (ctrl_csr h).1
  | fence h => exact straight (decode_fence h) (straight_fence h)

/-! ## Data accesses -/

theorem misaligned_of_unaligned {f : BitVec 3} {l : Width} {addr : Word} (h : f.extractLsb' 0 2 = l.code)
    (ha : ¬ l.Aligned addr) : MemoryStage.misaligned f addr = true := by
  unfold MemoryStage.misaligned
  rw [h]
  cases l with
  | byte => exact absurd (Nat.mod_one _) ha
  | half =>
    simp only [Width.Aligned, Width.bytes] at ha
    simp [Width.code, BitVec.getElem_eq_testBit_toNat]
    omega
  | word =>
    simp only [Width.Aligned, Width.bytes] at ha
    have hz : addr.extractLsb' 0 2 ≠ 0#2 := by
      intro hc
      have := congrArg BitVec.toNat hc
      simp at this
      omega
    simp [Width.code, hz]

/-- EX/MEM carries the effect of a base instruction with an aligned access -/
theorem carries_of_aligned (h : decode (prog.fetch s.pc) = some i) (hal : s.AccessAligned prog)
    (ho : (Decode.idEx ⟨s.pc, prog.fetch s.pc, true⟩ r1 r2).Operands a b s) :
    ((Decode.idEx ⟨s.pc, prog.fetch s.pc, true⟩ r1 r2).executed a b).Carries (s.fullEffect prog csr) s.mem := by
  rw [fullEffect_of_decode h]
  exact carries_of_access h ((accessAligned_of_decode h).1 hal) ho

/-- an access that is not aligned traps in EX/MEM -/
theorem faults_of_unaligned (hal : ¬ s.AccessAligned prog)
    (ho : ∀ i, decode (prog.fetch s.pc) = some i →
      (Decode.idEx ⟨s.pc, prog.fetch s.pc, true⟩ r1 r2).Operands a b s) :
    ((Decode.idEx ⟨s.pc, prog.fetch s.pc, true⟩ r1 r2).executed a b).faults = true := by
  cases hd : decode (prog.fetch s.pc) with
  | none => exact absurd (accessAligned_of_none hd) hal
  | some i =>
    have ho := ho i hd
    have hal := mt (accessAligned_of_decode hd).2 hal
    cases decodes hd with
    | load hop hl =>
      have h1 : a = s.reg (rs1 (prog.fetch s.pc)) :=
        ho.rs1 (by simp [Ctrl.usesRs1, Decode.idEx, ctrl_load hop, Ctrl.idle])
      have hm := misaligned_of_unaligned (code_of_load hl) hal
      rw [← h1] at hm
      simp [ExMem.faults, ExMem.isAccess, IdEx.executed, IdEx.result, Decode.idEx, ctrl_load hop, Ctrl.idle, alu,
        Decode.immediate, hop]
      exact hm
    | store hop hl =>
      have h1 : a = s.reg (rs1 (prog.fetch s.pc)) :=
        ho.rs1 (by simp [Ctrl.usesRs1, Decode.idEx, ctrl_store hop, Ctrl.idle])
      have hm := misaligned_of_unaligned (code_of_store hl) hal
      rw [← h1] at hm
      simp [ExMem.faults, ExMem.isAccess, IdEx.executed, IdEx.result, Decode.idEx, ctrl_store hop, Ctrl.idle, alu,
        Decode.immediate, hop]
      exact hm
    | _ => exact absurd trivial hal

end Exec

end Vsync.Isa
