/-
Which instruction words `decode_stage` accepts.

- `Valid`: the encodings of RV32I, RV32M, Zicsr, FENCE, ECALL, EBREAK and MRET.
- `Accepts`: a word is illegal exactly when it is not valid, and the three controls of the system instructions are
  raised by their words only.
- `Unchecked`: the reserved encodings under a known opcode. The decoder looks at the opcode, and at `funct3` of a CSR
  instruction; it executes these words as other instructions.
- `accepts_iff`: the decoder accepts what it should outside of them.
Failing input:
- `reserved_jalr`: a JALR with `funct3` 1.
-/
import Vsync.Core.Isa
import Vsync.Core.Decode

namespace Vsync.Isa

def ecallWord : Word := 0x00000073#32

def ebreakWord : Word := 0x00100073#32

def mretWord : Word := 0x30200073#32

/-- a valid encoding of one of the implemented instructions -/
def Valid (w : Word) : Prop :=
  opcode w = 0b0110111#7 ∨ opcode w = 0b0010111#7 ∨ opcode w = 0b1101111#7 ∨
  (opcode w = 0b1100111#7 ∧ funct3 w = 0b000#3) ∨
  (opcode w = 0b1100011#7 ∧ (decodeBranch w).isSome = true) ∨
  (opcode w = 0b0000011#7 ∧ (decodeLoad w).isSome = true) ∨
  (opcode w = 0b0100011#7 ∧ (decodeStore w).isSome = true) ∨
  (opcode w = 0b0010011#7 ∧ (decodeOpImm w).isSome = true) ∨
  (opcode w = 0b0110011#7 ∧ (funct7 w = 0b0000001#7 ∨ (decodeOp w).isSome = true)) ∨
  (opcode w = 0b0001111#7 ∧ funct3 w = 0b000#3) ∨
  -- the CSR instructions: all of `funct3` but the two values without one
  (opcode w = 0b1110011#7 ∧ funct3 w ≠ 0b000#3 ∧ funct3 w ≠ 0b100#3) ∨
  w = ecallWord ∨ w = ebreakWord ∨ w = mretWord

instance (w : Word) : Decidable (Valid w) := by unfold Valid; infer_instance

/-- the decoder raises `illegal_instr` and the system controls for the words that they are for -/
structure Accepts (w : Word) : Prop where
  illegal : (Decode.ctrl w).illegalInstr = true ↔ ¬ Valid w
  ecall : (Decode.ctrl w).ecall = true → w = ecallWord
  ebreak : (Decode.ctrl w).ebreak = true → w = ebreakWord
  mret : (Decode.ctrl w).mret = true → w = mretWord

/-- a word that is not valid, with an opcode that is -/
def Unchecked (w : Word) : Prop :=
  match Decode.opcode w with
  | some .jalr => funct3 w ≠ 0b000#3
  | some .branch => funct3 w = 0b010#3 ∨ funct3 w = 0b011#3
  | some .load => funct3 w = 0b011#3 ∨ funct3 w = 0b110#3 ∨ funct3 w = 0b111#3
  | some .store => 0b010#3 < funct3 w
  | some .opImm =>
    -- the shifts
    (funct3 w = 0b001#3 ∧ funct7 w ≠ 0b0000000#7) ∨
      (funct3 w = 0b101#3 ∧ funct7 w ≠ 0b0000000#7 ∧ funct7 w ≠ 0b0100000#7)
  | some .op =>
    funct7 w ≠ 0b0000000#7 ∧ funct7 w ≠ 0b0000001#7 ∧
      (funct7 w = 0b0100000#7 → funct3 w ≠ 0b000#3 ∧ funct3 w ≠ 0b101#3)
  | some .fence => funct3 w ≠ 0b000#3
  | some .system => funct3 w = 0b000#3 ∧ w ≠ ecallWord ∧ w ≠ ebreakWord ∧ w ≠ mretWord
  | _ => False

/-! ## The tables -/

theorem branch_isSome (w : Word) : (decodeBranch w).isSome = true ↔ ¬ (funct3 w = 0b010#3 ∨ funct3 w = 0b011#3) := by
  unfold decodeBranch
  generalize funct3 w = f
  revert f
  decide

theorem load_isSome (w : Word) :
    (decodeLoad w).isSome = true ↔ ¬ (funct3 w = 0b011#3 ∨ funct3 w = 0b110#3 ∨ funct3 w = 0b111#3) := by
  unfold decodeLoad
  generalize funct3 w = f
  revert f
  decide

theorem store_isSome (w : Word) : (decodeStore w).isSome = true ↔ ¬ 0b010#3 < funct3 w := by
  unfold decodeStore
  generalize funct3 w = f
  revert f
  decide

theorem opImm_isSome (w : Word) : (decodeOpImm w).isSome = true ↔
    ¬ ((funct3 w = 0b001#3 ∧ funct7 w ≠ 0b0000000#7) ∨
      (funct3 w = 0b101#3 ∧ funct7 w ≠ 0b0000000#7 ∧ funct7 w ≠ 0b0100000#7)) := by
  unfold decodeOpImm
  generalize funct3 w = f, funct7 w = g
  by_cases h0 : g = 0b0000000#7
  · rw [h0]
    revert f
    decide
  · by_cases h1 : g = 0b0100000#7
    · rw [h1]
      revert f
      decide
    · simp only [h0, h1, ne_eq]
      revert f
      decide

theorem op_isSome (w : Word) : (decodeOp w).isSome = true ↔ funct7 w = 0b0000000#7 ∨
    (funct7 w = 0b0100000#7 ∧ (funct3 w = 0b000#3 ∨ funct3 w = 0b101#3)) := by
  unfold decodeOp
  generalize funct3 w = f, funct7 w = g
  by_cases h0 : g = 0b0000000#7
  · rw [h0]
    revert f
    decide
  · by_cases h1 : g = 0b0100000#7
    · rw [h1]
      revert f
      decide
    · simp only [h0, h1]
      revert f
      decide

def opcodeBits : Opcode → BitVec 7
  | .lui => 0b0110111#7
  | .auipc => 0b0010111#7
  | .jal => 0b1101111#7
  | .jalr => 0b1100111#7
  | .branch => 0b1100011#7
  | .load => 0b0000011#7
  | .store => 0b0100011#7
  | .opImm => 0b0010011#7
  | .op => 0b0110011#7
  | .fence => 0b0001111#7
  | .system => 0b1110011#7

theorem opcode_of_known {w : Word} {k : Opcode} (h : Decode.opcode w = some k) : opcode w = opcodeBits k := by
  have hbits : Opcode.ofBits (opcode w) = some k := h
  generalize opcode w = b at hbits ⊢
  revert b
  cases k <;> decide +kernel

theorem opcode_ecall : opcode ecallWord = 0b1110011#7 ∧ opcode ebreakWord = 0b1110011#7 ∧
    opcode mretWord = 0b1110011#7 := by
  decide

/-- a word with another opcode is none of the three system instructions -/
theorem ne_system {w : Word} (h : opcode w ≠ 0b1110011#7) : w ≠ ecallWord ∧ w ≠ ebreakWord ∧ w ≠ mretWord := by
  obtain ⟨h1, h2, h3⟩ := opcode_ecall
  refine ⟨?_, ?_, ?_⟩
  · rintro rfl
    exact h h1
  · rintro rfl
    exact h h2
  · rintro rfl
    exact h h3

/-! ## The decoder -/

variable {w : Word}

/-- an opcode other than SYSTEM is accepted as it is, and raises no system control -/
theorem accepts_of_quiet (hill : (Decode.ctrl w).illegalInstr = false) (he : (Decode.ctrl w).ecall = false)
    (hb : (Decode.ctrl w).ebreak = false) (hm : (Decode.ctrl w).mret = false) : Accepts w ↔ Valid w := by
  constructor
  · intro h
    by_contra hv
    rw [h.illegal.2 hv] at hill
    exact absurd hill (by simp)
  · intro hv
    refine ⟨?_, ?_, ?_, ?_⟩
    · rw [hill]
      exact ⟨fun h => absurd h (by simp), fun h => absurd hv h⟩
    all_goals
      intro h
      simp_all

theorem known_of_valid (h : Valid w) : Decode.opcode w ≠ none := by
  have hknown : Opcode.ofBits (opcode w) ≠ none := by
    rcases h with h | h | h | ⟨h, -⟩ | ⟨h, -⟩ | ⟨h, -⟩ | ⟨h, -⟩ | ⟨h, -⟩ | ⟨h, -⟩ | ⟨h, -⟩ | ⟨h, -⟩ | h | h | h
    all_goals
      rw [h]
      decide
  exact hknown

theorem accepts_of_unknown (h : Decode.opcode w = none) : Accepts w := by
  have hnot : ¬ Valid w := fun hv => known_of_valid hv h
  have hctrl : Decode.ctrl w = { Ctrl.idle with illegalInstr := true } := by simp only [Decode.ctrl, h]
  refine ⟨?_, ?_, ?_, ?_⟩
  all_goals rw [hctrl]
  · exact ⟨fun _ => hnot, fun _ => rfl⟩
  all_goals
    intro hc
    exact absurd hc (by decide)

/-- no other opcode than SYSTEM is ever illegal, or raises a system control -/
theorem quiet_of_known {k : Opcode} (h : Decode.opcode w = some k) (hk : k ≠ .system) :
    (Decode.ctrl w).illegalInstr = false ∧ (Decode.ctrl w).ecall = false ∧ (Decode.ctrl w).ebreak = false ∧
      (Decode.ctrl w).mret = false := by
  cases k with
  | system => exact absurd rfl hk
  | op =>
    simp only [Decode.ctrl, h]
    split <;> exact ⟨rfl, rfl, rfl, rfl⟩
  | _ =>
    simp only [Decode.ctrl, h]
    exact ⟨rfl, rfl, rfl, rfl⟩

theorem valid_iff_of_known {k : Opcode} (h : Decode.opcode w = some k) (hk : k ≠ .system) :
    Valid w ↔ ¬ Unchecked w := by
  have hbits := opcode_of_known h
  have hsystem : opcode w ≠ 0b1110011#7 := by
    rw [hbits]
    cases k <;> first | decide | exact absurd rfl hk
  obtain ⟨h1, h2, h3⟩ := ne_system hsystem
  rw [Valid, Unchecked, h, hbits]
  -- of the alternatives only the one of the opcode is left
  cases k with
  | system => exact absurd rfl hk
  | lui => simp [opcodeBits]
  | auipc => simp [opcodeBits]
  | jal => simp [opcodeBits]
  | jalr => simp [opcodeBits, h1, h2, h3]
  | branch => simp [opcodeBits, h1, h2, h3, branch_isSome]
  | load => simp [opcodeBits, h1, h2, h3, load_isSome]
  | store => simp [opcodeBits, h1, h2, h3, store_isSome]
  | opImm => simp [opcodeBits, h1, h2, h3, opImm_isSome]
  | op =>
    simp only [opcodeBits, h1, h2, h3, op_isSome]
    simp only [BitVec.reduceEq, false_and, true_and, false_or, or_false]
    tauto
  | fence => simp [opcodeBits, h1, h2, h3]

/-! ## SYSTEM -/

theorem ctrl_system (h : Decode.opcode w = some .system) : Decode.ctrl w = Decode.system w := by
  simp only [Decode.ctrl, h]

theorem valid_iff_system (h : Decode.opcode w = some .system) :
    Valid w ↔ (funct3 w ≠ 0b000#3 ∧ funct3 w ≠ 0b100#3) ∨ w = ecallWord ∨ w = ebreakWord ∨ w = mretWord := by
  rw [Valid, opcode_of_known h]
  simp [opcodeBits]

theorem funct3_system : funct3 ecallWord = 0b000#3 ∧ funct3 ebreakWord = 0b000#3 ∧ funct3 mretWord = 0b000#3 := by
  decide

/-- the CSR instructions raise no system control, and `funct3` 4 is illegal -/
theorem system_csr (h3 : funct3 w ≠ 0b000#3) : (Decode.system w).illegalInstr = decide (funct3 w = 0b100#3) ∧
    (Decode.system w).ecall = false ∧ (Decode.system w).ebreak = false ∧ (Decode.system w).mret = false := by
  have hf : Decode.funct3 w = funct3 w := rfl
  rw [Decode.system, hf, if_neg h3]
  generalize funct3 w = f at h3
  revert f
  decide

theorem accepts_csr (h : Decode.opcode w = some .system) (h3 : funct3 w ≠ 0b000#3) : Accepts w := by
  obtain ⟨hill, he, hb, hm⟩ := system_csr h3
  obtain ⟨f1, f2, f3⟩ := funct3_system
  have hnone : ¬ (w = ecallWord ∨ w = ebreakWord ∨ w = mretWord) := by
    rintro (rfl | rfl | rfl)
    · exact h3 f1
    · exact h3 f2
    · exact h3 f3
  refine ⟨?_, ?_, ?_, ?_⟩
  all_goals rw [ctrl_system h]
  · rw [hill, decide_eq_true_iff, valid_iff_system h, or_iff_left hnone, not_and_not_right]
    exact ⟨fun h4 _ => h4, fun h4 => h4 h3⟩
  · rw [he]
    exact fun hc => absurd hc (by simp)
  · rw [hb]
    exact fun hc => absurd hc (by simp)
  · rw [hm]
    exact fun hc => absurd hc (by simp)

theorem accepts_words : Accepts ecallWord ∧ Accepts ebreakWord ∧ Accepts mretWord := by
  obtain ⟨h1, h2, h3⟩ : Decode.opcode ecallWord = some .system ∧ Decode.opcode ebreakWord = some .system ∧
      Decode.opcode mretWord = some .system := by decide
  have hvalid : Valid ecallWord ∧ Valid ebreakWord ∧ Valid mretWord :=
    ⟨(valid_iff_system h1).2 (.inr (.inl rfl)), (valid_iff_system h2).2 (.inr (.inr (.inl rfl))),
      (valid_iff_system h3).2 (.inr (.inr (.inr rfl)))⟩
  refine ⟨⟨?_, ?_, ?_, ?_⟩, ⟨?_, ?_, ?_, ?_⟩, ⟨?_, ?_, ?_, ?_⟩⟩
  · exact ⟨fun h => absurd h (by decide), fun h => absurd hvalid.1 h⟩
  · exact fun _ => rfl
  · exact fun h => absurd h (by decide)
  · exact fun h => absurd h (by decide)
  · exact ⟨fun h => absurd h (by decide), fun h => absurd hvalid.2.1 h⟩
  · exact fun h => absurd h (by decide)
  · exact fun _ => rfl
  · exact fun h => absurd h (by decide)
  · exact ⟨fun h => absurd h (by decide), fun h => absurd hvalid.2.2 h⟩
  · exact fun h => absurd h (by decide)
  · exact fun h => absurd h (by decide)
  · exact fun _ => rfl

theorem accepts_system (h : Decode.opcode w = some .system) (h3 : funct3 w = 0b000#3) :
    Accepts w ↔ w = ecallWord ∨ w = ebreakWord ∨ w = mretWord := by
  have hill : (Decode.ctrl w).illegalInstr = false := by
    have hf : Decode.funct3 w = 0b000#3 := h3
    rw [ctrl_system h, Decode.system, if_pos hf]
    split
    · rfl
    · split <;> rfl
  constructor
  · intro ha
    by_contra hno
    have hinvalid : ¬ Valid w := by
      rw [valid_iff_system h, h3]
      rintro (⟨hc, -⟩ | hc)
      · exact hc rfl
      · exact hno hc
    rw [ha.illegal.2 hinvalid] at hill
    exact absurd hill (by simp)
  · obtain ⟨ha1, ha2, ha3⟩ := accepts_words
    rintro (rfl | rfl | rfl)
    · exact ha1
    · exact ha2
    · exact ha3

/-- **The decoder accepts exactly the implemented instructions** outside of the reserved encodings that it does not
check. -/
theorem accepts_iff (w : Word) : Accepts w ↔ ¬ Unchecked w := by
  cases h : Decode.opcode w with
  | none =>
    have hno : ¬ Unchecked w := by
      rw [Unchecked, h]
      exact id
    exact ⟨fun _ => hno, fun _ => accepts_of_unknown h⟩
  | some k =>
    by_cases hk : k = .system
    · subst hk
      by_cases h3 : funct3 w = 0b000#3
      · rw [accepts_system h h3, Unchecked, h]
        simp only [h3, true_and]
        tauto
      · have hno : ¬ Unchecked w := by
          rw [Unchecked, h]
          exact fun hc => h3 hc.1
        exact ⟨fun _ => hno, fun _ => accepts_csr h h3⟩
    · obtain ⟨hill, he, hb, hm⟩ := quiet_of_known h hk
      rw [accepts_of_quiet hill he hb hm, valid_iff_of_known h hk]

/-- **A reserved word is executed**: a JALR with `funct3` 1 is not valid, and a jump to the decoder. -/
theorem reserved_jalr : ¬ ∀ w, Accepts w := by
  intro h
  have hjalr : Decode.opcode 0x00009067#32 = some .jalr := by decide
  have hinvalid : ¬ Valid 0x00009067#32 := by
    rw [valid_iff_of_known hjalr (by simp), Unchecked, hjalr, not_not]
    show funct3 0x00009067#32 ≠ 0b000#3
    decide
  exact absurd ((h 0x00009067#32).illegal.2 hinvalid) (by decide)

end Vsync.Isa
