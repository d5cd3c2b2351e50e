/-
Assembly of RV32I with the machine-mode trap registers (Zicsr): a hart, the instructions that a trap handler is made of,
and programs of labelled blocks. Nothing in this file is about a particular program.

- `Hart.trap`, `Instr.exec`, `Program.step`: a trap, an instruction, a step of a program; a program stays at an `mret`.
- `Runs`: some steps with the words that they store; `runs_line`: the rule for instructions without jumps.
- `Holds`, `spills`, `fills`: a frame of words, and the blocks that store registers into a frame and load them again.
-/
import Mathlib.Data.BitVec
import Vsync.ByteMem
import Vsync.Machine

namespace Vsync.Asm

open Machine

abbrev Reg := BitVec 5

namespace Reg

def ra : Reg := 1
def sp : Reg := 2
def gp : Reg := 3
def tp : Reg := 4
def t0 : Reg := 5
def t1 : Reg := 6
def t2 : Reg := 7
def s0 : Reg := 8
def s1 : Reg := 9
def a0 : Reg := 10
def a1 : Reg := 11
def a2 : Reg := 12
def a3 : Reg := 13
def a4 : Reg := 14
def a5 : Reg := 15
def a6 : Reg := 16
def a7 : Reg := 17
def s2 : Reg := 18
def s3 : Reg := 19
def s4 : Reg := 20
def s5 : Reg := 21
def s6 : Reg := 22
def s7 : Reg := 23
def s8 : Reg := 24
def s9 : Reg := 25
def s10 : Reg := 26
def s11 : Reg := 27
def t3 : Reg := 28
def t4 : Reg := 29
def t5 : Reg := 30
def t6 : Reg := 31

end Reg

inductive Csr where
  | mstatus
  | mscratch
  | mepc
  | mcause
  | mtval
  deriving DecidableEq, Repr

/-- instructions and pseudo-instructions; jumps name a label -/
inductive Instr (L : Type) where
  | csrrw (rd : Reg) (c : Csr) (rs : Reg)
  | csrr (rd : Reg) (c : Csr)
  | csrw (c : Csr) (rs : Reg)
  | addi (rd rs : Reg) (imm : BitVec 12)
  | andi (rd rs : Reg) (imm : BitVec 12)
  | li (rd : Reg) (imm : BitVec 12)
  | sw (rs : Reg) (offset : BitVec 12) (base : Reg)
  | lw (rd : Reg) (offset : BitVec 12) (base : Reg)
  | beq (rs1 rs2 : Reg) (l : L)
  | bltz (rs : Reg) (l : L)
  | j (l : L)
  | mret
  deriving DecidableEq, Repr

/-- a hart that has machine mode only; of `mstatus` it keeps `MIE` and `MPIE` -/
structure Hart where
  regs : Reg → BitVec 32
  mem : ByteMem 32
  mie : Bool
  mpie : Bool
  mscratch : BitVec 32
  mepc : BitVec 32
  mcause : BitVec 32
  mtval : BitVec 32

namespace Hart

variable (h : Hart)

/-- a register; `x0` is 0 -/
def reg (r : Reg) : BitVec 32 := if r = 0#5 then 0 else h.regs r

def setReg (r : Reg) (v : BitVec 32) : Hart := { h with regs := if r = 0#5 then h.regs else Function.update h.regs r v }

/-- the previous privilege mode, `MPP`, is always machine mode -/
def mstatus : BitVec 32 := 0x1800 ||| (if h.mpie then 0x80 else 0) ||| (if h.mie then 0x8 else 0)

def csr : Csr → BitVec 32
  | .mstatus => h.mstatus
  | .mscratch => h.mscratch
  | .mepc => h.mepc
  | .mcause => h.mcause
  | .mtval => h.mtval

/-- a CSR write; the low two bits of `mepc` are always zero -/
def setCsr (c : Csr) (v : BitVec 32) : Hart :=
  match c with
  | .mstatus => { h with mie := v.getLsbD 3, mpie := v.getLsbD 7 }
  | .mscratch => { h with mscratch := v }
  | .mepc => { h with mepc := v &&& ~~~3#32 }
  | .mcause => { h with mcause := v }
  | .mtval => { h with mtval := v }

def trap (cause pc tval : BitVec 32) : Hart :=
  { h with mie := false, mpie := h.mie, mepc := pc &&& ~~~3#32, mcause := cause, mtval := tval }

/-- `mret`: where the hart goes on, and how -/
def ret : BitVec 32 × Hart := (h.mepc, { h with mie := h.mpie, mpie := true })

theorem reg_setReg_self {r : Reg} (h0 : r ≠ 0#5) (v : BitVec 32) : (h.setReg r v).reg r = v := by simp [reg, setReg, h0]

theorem reg_setReg_ne {r r' : Reg} (hr : r' ≠ r) (v : BitVec 32) : (h.setReg r v).reg r' = h.reg r' := by
  by_cases h0 : r = 0#5
  · simp [reg, setReg, h0]
  · simp [reg, setReg, h0, hr]

@[simp] theorem setReg_mem (r : Reg) (v : BitVec 32) : (h.setReg r v).mem = h.mem := rfl

@[simp] theorem setReg_mie (r : Reg) (v : BitVec 32) : (h.setReg r v).mie = h.mie := rfl

@[simp] theorem setReg_mpie (r : Reg) (v : BitVec 32) : (h.setReg r v).mpie = h.mpie := rfl

@[simp] theorem setReg_csr (r : Reg) (v : BitVec 32) (c : Csr) : (h.setReg r v).csr c = h.csr c := by cases c <;> rfl

@[simp] theorem reg_setCsr (c : Csr) (v : BitVec 32) (r : Reg) : (h.setCsr c v).reg r = h.reg r := by cases c <;> rfl

@[simp] theorem setCsr_mem (c : Csr) (v : BitVec 32) : (h.setCsr c v).mem = h.mem := by cases c <;> rfl

theorem csr_setCsr_ne {c c' : Csr} (hc : c' ≠ c) (v : BitVec 32) : (h.setCsr c v).csr c' = h.csr c' := by
  cases c <;> cases c' <;> first | rfl | exact absurd rfl hc

@[simp] theorem setMepc_mie (v : BitVec 32) : (h.setCsr .mepc v).mie = h.mie := rfl

@[simp] theorem setMepc_mpie (v : BitVec 32) : (h.setCsr .mepc v).mpie = h.mpie := rfl

@[simp] theorem csr_setMepc (v : BitVec 32) : (h.setCsr .mepc v).csr .mepc = v &&& ~~~3#32 := rfl

theorem mstatus_mie : h.mstatus.getLsbD 3 = h.mie := by
  cases h1 : h.mie <;> cases h2 : h.mpie <;> simp [mstatus, h1, h2]

theorem mstatus_mpie : h.mstatus.getLsbD 7 = h.mpie := by
  cases h1 : h.mie <;> cases h2 : h.mpie <;> simp [mstatus, h1, h2]

/-- the two bits of `mstatus` survive a save and a restore -/
theorem setCsr_mstatus (h' : Hart) : (h.setCsr .mstatus h'.mstatus).mie = h'.mie ∧
    (h.setCsr .mstatus h'.mstatus).mpie = h'.mpie :=
  ⟨h'.mstatus_mie, h'.mstatus_mpie⟩

end Hart

namespace Instr

variable {L : Type}

def exec (i : Instr L) (h : Hart) : Hart :=
  match i with
  | .csrrw rd c rs => (h.setCsr c (h.reg rs)).setReg rd (h.csr c)
  | .csrr rd c => h.setReg rd (h.csr c)
  | .csrw c rs => h.setCsr c (h.reg rs)
  | .addi rd rs imm => h.setReg rd (h.reg rs + imm.signExtend 32)
  | .andi rd rs imm => h.setReg rd (h.reg rs &&& imm.signExtend 32)
  | .li rd imm => h.setReg rd (imm.signExtend 32)
  | .sw rs offset base => { h with mem := h.mem.store (h.reg base + offset.signExtend 32) 4 (h.reg rs) }
  | .lw rd offset base => h.setReg rd (h.mem.load (h.reg base + offset.signExtend 32) 4)
  | .beq .. => h
  | .bltz .. => h
  | .j _ => h
  | .mret => h

def jump (i : Instr L) (h : Hart) : Option L :=
  match i with
  | .beq rs1 rs2 l => if h.reg rs1 = h.reg rs2 then some l else none
  | .bltz rs l => if (h.reg rs).toInt < 0 then some l else none
  | .j l => some l
  | _ => none

def stored (i : Instr L) (h : Hart) : List (BitVec 32) :=
  match i with
  | .sw _ offset base => [h.reg base + offset.signExtend 32]
  | _ => []

/-- an instruction that goes on to the next one -/
def onLine : Instr L → Bool
  | .beq .. => false
  | .bltz .. => false
  | .j _ => false
  | .mret => false
  | _ => true

theorem jump_of_onLine {i : Instr L} (hi : i.onLine = true) (h : Hart) : i.jump h = none := by
  cases i <;> first | rfl | exact Bool.noConfusion hi

end Instr

/-! ## Programs -/

/-- blocks with their labels, one behind the other -/
abbrev Program (L : Type) := List (L × List (Instr L))

/-- a hart at an instruction of a program -/
structure Config where
  hart : Hart
  idx : ℕ

/-- the inputs of a machine that reads none -/
def alone : ℕ → Unit := fun _ => ()

namespace Program

variable {L : Type} [DecidableEq L] (p : Program L)

def code : List (Instr L) := p.flatMap Prod.snd

def entry (l : L) : ℕ := ((p.takeWhile fun b => b.1 ≠ l).flatMap Prod.snd).length

def step (c : Config) (_ : Unit) : Config :=
  match p.code[c.idx]? with
  | some .mret => c
  | some i =>
    ⟨i.exec c.hart,
      match i.jump c.hart with
      | some l => p.entry l
      | none => c.idx + 1⟩
  | none => c

def stores (c : Config) (_ : Unit) : List (BitVec 32) :=
  match p.code[c.idx]? with
  | some i => i.stored c.hart
  | none => []

def AtMret (c : Config) : Prop := p.code[c.idx]? = some .mret

/-- `n` steps lead from `c` to `c'` and store words at `ws` -/
structure Runs (n : ℕ) (c : Config) (ws : List (BitVec 32)) (c' : Config) : Prop where
  trace : trace p.step c alone n = c'
  log : log p.stores p.step c alone n = ws

variable {p} {c c' c'' : Config} {m n : ℕ} {ws ws' : List (BitVec 32)}

theorem Runs.refl (p : Program L) (c : Config) : p.Runs 0 c [] c := ⟨rfl, rfl⟩

theorem Runs.append (h : p.Runs m c ws c') (h' : p.Runs n c' ws' c'') : p.Runs (m + n) c (ws ++ ws') c'' := by
  refine ⟨?_, ?_⟩
  · rw [trace_add, h.trace]
    exact h'.trace
  · rw [log_add, h.trace, h.log]
    congr 1
    exact h'.log

theorem runs_mret (h : p.AtMret c) (n : ℕ) : p.Runs n c [] c := by
  have hcode : p.code[c.idx]? = some .mret := h
  induction n with
  | zero => exact Runs.refl p c
  | succ n ih =>
    refine ⟨?_, ?_⟩
    · rw [trace_succ, ih.trace]
      simp [step, hcode]
    · rw [log_succ, ih.trace, ih.log]
      simp [stores, hcode, Instr.stored]

theorem runs_one {i : Instr L} {h : Hart} {k : ℕ} (hi : p.code[k]? = some i) (hm : i ≠ .mret) :
    p.Runs 1 ⟨h, k⟩ (i.stored h) ⟨i.exec h, match i.jump h with | some l => p.entry l | none => k + 1⟩ := by
  refine ⟨?_, ?_⟩
  · rw [trace_succ, trace_zero, step]
    simp only [hi]
  · rw [log_succ, log_zero, trace_zero, stores]
    simp only [hi, List.nil_append]

theorem runs_jump {i : Instr L} {h : Hart} {k : ℕ} {l : L} (hi : p.code[k]? = some i) (hm : i ≠ .mret)
    (hj : i.jump h = some l) : p.Runs 1 ⟨h, k⟩ (i.stored h) ⟨i.exec h, p.entry l⟩ := by
  have hone := runs_one (h := h) hi hm
  simp only [hj] at hone
  exact hone

theorem runs_next {i : Instr L} {h : Hart} {k : ℕ} (hi : p.code[k]? = some i) (hm : i ≠ .mret) (hj : i.jump h = none) :
    p.Runs 1 ⟨h, k⟩ (i.stored h) ⟨i.exec h, k + 1⟩ := by
  have hone := runs_one (h := h) hi hm
  simp only [hj] at hone
  exact hone

def execAll (l : List (Instr L)) (h : Hart) : Hart := l.foldl (fun h i => i.exec h) h

def storedAll : List (Instr L) → Hart → List (BitVec 32)
  | [], _ => []
  | i :: l, h => i.stored h ++ storedAll l (i.exec h)

/-- **The rule for instructions without jumps.** -/
theorem runs_line (l : List (Instr L)) {h : Hart} {k : ℕ} (hcode : l <+: p.code.drop k)
    (hline : ∀ i ∈ l, i.onLine = true) : p.Runs l.length ⟨h, k⟩ (storedAll l h) ⟨execAll l h, k + l.length⟩ := by
  induction l generalizing h k with
  | nil => exact Runs.refl p _
  | cons i l ih =>
    obtain ⟨rest, hrest⟩ := hcode
    have hi : p.code[k]? = some i := by
      have hhead := congrArg (fun l => l[0]?) hrest
      simpa using hhead.symm
    have htail : l <+: p.code.drop (k + 1) := by
      have hdrop := congrArg (fun l => l.drop 1) hrest
      refine ⟨rest, ?_⟩
      simpa [List.drop_drop] using hdrop
    have hon := hline i List.mem_cons_self
    have hm : i ≠ .mret := by
      rintro rfl
      exact Bool.noConfusion hon
    have hone := runs_next (h := h) hi hm (Instr.jump_of_onLine hon h)
    have hmany := ih (h := i.exec h) htail fun i' hi' => hline i' (List.mem_cons_of_mem i hi')
    have hall := hone.append hmany
    rw [Nat.add_assoc, Nat.add_comm 1 l.length] at hall
    exact hall

end Program

/-! ## Frames -/

section Frames

variable {L : Type} {frame : BitVec 32} {vals : List (ℕ × BitVec 32)} {m : ByteMem 32}

/-- the memory holds the words `vals` at their offsets from `frame` -/
def Holds (frame : BitVec 32) (vals : List (ℕ × BitVec 32)) (m : ByteMem 32) : Prop :=
  ∀ x ∈ vals, m.load (frame + BitVec.ofNat 32 x.1) 4 = x.2

/-- an offset of a word that an instruction can name -/
def Slot (k : ℕ) : Prop := k % 4 = 0 ∧ k < 2048

instance (k : ℕ) : Decidable (Slot k) := inferInstanceAs (Decidable (_ ∧ _))

theorem signExtend_slot {k : ℕ} (hk : Slot k) : (BitVec.ofNat 12 k).signExtend 32 = BitVec.ofNat 32 k := by
  have hmsb : (BitVec.ofNat 12 k).msb = false := by
    rw [BitVec.msb_eq_decide]
    have hlt := hk.2
    simp only [BitVec.toNat_ofNat, decide_eq_false_iff_not, Nat.not_le]
    omega
  rw [BitVec.signExtend_eq_setWidth_of_msb_false hmsb]
  apply BitVec.eq_of_toNat_eq
  have hlt := hk.2
  simp only [BitVec.toNat_setWidth, BitVec.toNat_ofNat]
  omega

theorem load_word (m : ByteMem 32) (a v : BitVec 32) : (m.store a 4 v).load a 4 = v :=
  m.load_store a (Nat.pow_le_pow_right (by decide) (by decide : 2 ≤ 32)) v

theorem slots_apart (frame : BitVec 32) {k k' i : ℕ} (hk : Slot k) (hk' : Slot k') (hne : k' ≠ k) (hi : i < 4) :
    4 ≤ (frame + BitVec.ofNat 32 k' + BitVec.ofNat 32 i - (frame + BitVec.ofNat 32 k)).toNat := by
  have hsub : frame + BitVec.ofNat 32 k' + BitVec.ofNat 32 i - (frame + BitVec.ofNat 32 k) =
      BitVec.ofNat 32 (k' + i) - BitVec.ofNat 32 k := by
    rw [BitVec.add_assoc, ← BitVec.ofNat_add]
    exact add_sub_add_left_eq_sub _ _ frame
  obtain ⟨hk4, hlt⟩ := hk
  obtain ⟨hk4', hlt'⟩ := hk'
  rw [hsub, BitVec.toNat_sub, BitVec.toNat_ofNat, BitVec.toNat_ofNat]
  omega

theorem holds_nil (frame : BitVec 32) (m : ByteMem 32) : Holds frame [] m := fun x hx => absurd hx (by simp)

/-- a word stored in a slot of its own -/
theorem Holds.store (h : Holds frame vals m) {k : ℕ} (hk : Slot k) (hvals : ∀ x ∈ vals, Slot x.1 ∧ x.1 ≠ k)
    (v : BitVec 32) :
    Holds frame ((k, v) :: vals) (m.store (frame + BitVec.ofNat 32 k) 4 v) := by
  intro x hx
  rcases List.mem_cons.1 hx with rfl | hx
  · exact load_word m (frame + BitVec.ofNat 32 k) v
  · obtain ⟨hslot, hne⟩ := hvals x hx
    have hapart := ByteMem.load_store_of_apart m (frame + BitVec.ofNat 32 k) v
      fun i hi => slots_apart frame hk hslot hne (i := i) hi
    exact hapart.trans (h x hx)

def spills (base : Reg) (l : List (Reg × ℕ)) : List (Instr L) := l.map fun x => .sw x.1 (BitVec.ofNat 12 x.2) base

def csrSpills (tmp base : Reg) (l : List (Csr × ℕ)) : List (Instr L) :=
  l.flatMap fun x => [.csrr tmp x.1, .sw tmp (BitVec.ofNat 12 x.2) base]

def fills (base : Reg) (l : List (Reg × ℕ)) : List (Instr L) := l.map fun x => .lw x.1 (BitVec.ofNat 12 x.2) base

/-- `h'` is `h` but for the registers `rs`; the memory may have changed -/
structure Keeps (rs : List Reg) (h h' : Hart) : Prop where
  reg : ∀ r, r ∉ rs → h'.reg r = h.reg r
  csr : ∀ c, h'.csr c = h.csr c

theorem Keeps.refl (rs : List Reg) (h : Hart) : Keeps rs h h := ⟨fun _ _ => rfl, fun _ => rfl⟩

theorem Keeps.mie {rs : List Reg} {h h' : Hart} (hk : Keeps rs h h') : h'.mie = h.mie := by
  have hstatus : h'.mstatus = h.mstatus := hk.csr .mstatus
  rw [← h'.mstatus_mie, hstatus, h.mstatus_mie]

theorem Keeps.mpie {rs : List Reg} {h h' : Hart} (hk : Keeps rs h h') : h'.mpie = h.mpie := by
  have hstatus : h'.mstatus = h.mstatus := hk.csr .mstatus
  rw [← h'.mstatus_mpie, hstatus, h.mstatus_mpie]

theorem Keeps.of_mem (rs : List Reg) (h : Hart) (m : ByteMem 32) : Keeps rs h { h with mem := m } :=
  ⟨fun _ _ => rfl, fun c => by cases c <;> rfl⟩

theorem Keeps.of_setReg {r : Reg} {rs : List Reg} (hr : r ∈ rs) (h : Hart) (v : BitVec 32) :
    Keeps rs h (h.setReg r v) := by
  refine ⟨fun r' hr' => h.reg_setReg_ne ?_ v, fun c => h.setReg_csr r v c⟩
  rintro rfl
  exact hr' hr

theorem Keeps.trans {rs : List Reg} {h h' h'' : Hart} (h1 : Keeps rs h h') (h2 : Keeps rs h' h'') : Keeps rs h h'' :=
  ⟨fun r hr => (h2.reg r hr).trans (h1.reg r hr), fun c => (h2.csr c).trans (h1.csr c)⟩

theorem Keeps.mono {rs rs' : List Reg} {h h' : Hart} (hk : Keeps rs h h') (hsub : rs ⊆ rs') : Keeps rs' h h' :=
  ⟨fun r hr => hk.reg r fun hmem => hr (hsub hmem), hk.csr⟩

/-- the offsets of a block: slots, all different, and none of them among those of `vals` -/
structure Fresh (vals : List (ℕ × BitVec 32)) (ks : List ℕ) : Prop where
  slot : ∀ k ∈ ks, Slot k
  nodup : ks.Nodup
  others : ∀ k ∈ vals.map Prod.fst, Slot k ∧ k ∉ ks

theorem Fresh.tail {k : ℕ} {ks : List ℕ} (h : Fresh vals (k :: ks)) (v : BitVec 32) : Fresh ((k, v) :: vals) ks := by
  obtain ⟨hnot, hnodup⟩ := List.nodup_cons.1 h.nodup
  refine ⟨fun k' hk' => h.slot k' (List.mem_cons_of_mem k hk'), hnodup, fun k' hk' => ?_⟩
  rcases List.mem_cons.1 hk' with rfl | hk'
  · exact ⟨h.slot _ List.mem_cons_self, hnot⟩
  · obtain ⟨hslot, hne⟩ := h.others k' hk'
    exact ⟨hslot, fun hmem => hne (List.mem_cons_of_mem k hmem)⟩

theorem Fresh.store {k : ℕ} {ks : List ℕ} (h : Fresh vals (k :: ks)) (hm : Holds frame vals m) (v : BitVec 32) :
    Holds frame ((k, v) :: vals) (m.store (frame + BitVec.ofNat 32 k) 4 v) := by
  refine hm.store (h.slot k List.mem_cons_self) (fun x hx => ?_) v
  obtain ⟨hslot, hne⟩ := h.others x.1 (List.mem_map_of_mem hx)
  exact ⟨hslot, fun heq => hne (heq ▸ List.mem_cons_self)⟩

section Blocks

open Program

variable (base tmp : Reg)

/-- **A block of stores** keeps what the frame holds, and adds its registers. -/
theorem spills_hold (l : List (Reg × ℕ)) {h : Hart} (hbase : h.reg base = frame) (hf : Fresh vals (l.map Prod.snd))
    (hm : Holds frame vals h.mem) :
    Keeps [] h (execAll (spills (L := L) base l) h) ∧
      Holds frame (vals ++ l.map fun x => (x.2, h.reg x.1)) (execAll (spills (L := L) base l) h).mem ∧
      storedAll (spills (L := L) base l) h = l.map fun x => frame + BitVec.ofNat 32 x.2 := by
  induction l generalizing h vals with
  | nil => exact ⟨Keeps.refl [] h, by simpa [spills, execAll] using hm, rfl⟩
  | cons x l ih =>
    have haddr : h.reg base + (BitVec.ofNat 12 x.2).signExtend 32 = frame + BitVec.ofNat 32 x.2 := by
      rw [hbase, signExtend_slot (hf.slot x.2 (by simp))]
    obtain ⟨hkeeps, hholds, hstored⟩ :=
      ih (h := { h with mem := h.mem.store (frame + BitVec.ofNat 32 x.2) 4 (h.reg x.1) }) hbase
        (hf.tail (h.reg x.1)) (hf.store hm (h.reg x.1))
    have hexec : execAll (spills (L := L) base (x :: l)) h =
        execAll (spills (L := L) base l) { h with mem := h.mem.store (frame + BitVec.ofNat 32 x.2) 4 (h.reg x.1) } := by
      rw [← haddr]
      rfl
    rw [hexec]
    refine ⟨(Keeps.of_mem [] h _).trans hkeeps, ?_, ?_⟩
    · intro y hy
      apply hholds y
      simp only [List.map_cons, List.mem_append, List.mem_cons] at hy ⊢
      tauto
    · have hhead : storedAll (spills (L := L) base (x :: l)) h =
          (h.reg base + (BitVec.ofNat 12 x.2).signExtend 32) :: storedAll (spills (L := L) base l)
            { h with mem := h.mem.store (h.reg base + (BitVec.ofNat 12 x.2).signExtend 32) 4 (h.reg x.1) } := rfl
      rw [hhead, haddr, hstored]
      rfl

/-- **A block of CSR stores** needs a register. -/
theorem csrSpills_hold (l : List (Csr × ℕ)) {h : Hart} (hbase : h.reg base = frame) (htmp : tmp ≠ 0#5)
    (hne : base ≠ tmp) (hf : Fresh vals (l.map Prod.snd)) (hm : Holds frame vals h.mem) :
    Keeps [tmp] h (execAll (csrSpills (L := L) tmp base l) h) ∧
      Holds frame (vals ++ l.map fun x => (x.2, h.csr x.1)) (execAll (csrSpills (L := L) tmp base l) h).mem ∧
      storedAll (csrSpills (L := L) tmp base l) h = l.map fun x => frame + BitVec.ofNat 32 x.2 := by
  induction l generalizing h vals with
  | nil => exact ⟨Keeps.refl [tmp] h, by simpa [csrSpills, execAll] using hm, rfl⟩
  | cons x l ih =>
    obtain ⟨h1, hh1⟩ : ∃ h1, h1 = h.setReg tmp (h.csr x.1) := ⟨_, rfl⟩
    have hkeeps1 : Keeps [tmp] h h1 := hh1 ▸ Keeps.of_setReg (by simp) h _
    have hmem1 : h1.mem = h.mem := by rw [hh1, Hart.setReg_mem]
    have hbase1 : h1.reg base = frame := by rw [hkeeps1.reg base (by simpa using hne), hbase]
    have hval : h1.reg tmp = h.csr x.1 := by rw [hh1, Hart.reg_setReg_self h htmp]
    have haddr : h1.reg base + (BitVec.ofNat 12 x.2).signExtend 32 = frame + BitVec.ofNat 32 x.2 := by
      rw [hbase1, signExtend_slot (hf.slot x.2 (by simp))]
    have hstore : Holds frame ((x.2, h1.reg tmp) :: vals) (h1.mem.store (frame + BitVec.ofNat 32 x.2) 4 (h1.reg tmp)) :=
      hf.store (by rwa [hmem1]) (h1.reg tmp)
    obtain ⟨hkeeps, hholds, hstored⟩ :=
      ih (h := { h1 with mem := h1.mem.store (frame + BitVec.ofNat 32 x.2) 4 (h1.reg tmp) }) hbase1
        (hf.tail (h1.reg tmp)) hstore
    have hkeeps2 : Keeps [tmp] h { h1 with mem := h1.mem.store (frame + BitVec.ofNat 32 x.2) 4 (h1.reg tmp) } :=
      hkeeps1.trans (Keeps.of_mem [tmp] h1 _)
    have hexec : execAll (csrSpills (L := L) tmp base (x :: l)) h = execAll (csrSpills (L := L) tmp base l)
        { h1 with mem := h1.mem.store (frame + BitVec.ofNat 32 x.2) 4 (h1.reg tmp) } := by
      rw [← haddr, hh1]
      rfl
    rw [hexec]
    refine ⟨hkeeps2.trans hkeeps, ?_, ?_⟩
    · intro y hy
      apply hholds y
      simp only [List.map_cons, List.mem_append, List.mem_cons, hval] at hy ⊢
      rcases hy with hy | rfl | hy
      · exact .inl (.inr hy)
      · exact .inl (.inl rfl)
      · refine .inr ?_
        rw [List.mem_map] at hy ⊢
        obtain ⟨z, hz, rfl⟩ := hy
        exact ⟨z, hz, congrArg (Prod.mk z.2) ((Keeps.of_mem [] h1 _).csr z.1 |>.trans (hkeeps1.csr z.1))⟩
    · have hhead : storedAll (csrSpills (L := L) tmp base (x :: l)) h =
          (h1.reg base + (BitVec.ofNat 12 x.2).signExtend 32) :: storedAll (csrSpills (L := L) tmp base l)
            { h1 with mem := h1.mem.store (h1.reg base + (BitVec.ofNat 12 x.2).signExtend 32) 4 (h1.reg tmp) } := by
        rw [hh1]
        rfl
      rw [hhead, haddr, hstored]
      rfl

/-- **A block of loads** gives its registers the words of the frame. -/
theorem fills_load (l : List (Reg × ℕ)) {h : Hart} (hbase : h.reg base = frame) (hslots : ∀ x ∈ l, Slot x.2)
    (hregs : (l.map Prod.fst).Nodup) (hne : base ∉ l.map Prod.fst) :
    Keeps (l.map Prod.fst) h (execAll (fills (L := L) base l) h) ∧ (execAll (fills (L := L) base l) h).mem = h.mem ∧
      (∀ x ∈ l, x.1 ≠ 0#5 →
        (execAll (fills (L := L) base l) h).reg x.1 = h.mem.load (frame + BitVec.ofNat 32 x.2) 4) ∧
      storedAll (fills (L := L) base l) h = [] := by
  induction l generalizing h with
  | nil => exact ⟨Keeps.refl [] h, rfl, by simp, rfl⟩
  | cons x l ih =>
    obtain ⟨hx, hnodup⟩ := List.nodup_cons.1 hregs
    obtain ⟨hbx, hbl⟩ := not_or.1 (fun hor => hne (List.mem_cons.2 hor))
    have haddr : h.reg base + (BitVec.ofNat 12 x.2).signExtend 32 = frame + BitVec.ofNat 32 x.2 := by
      rw [hbase, signExtend_slot (hslots x List.mem_cons_self)]
    obtain ⟨h1, hh1⟩ : ∃ h1, h1 = h.setReg x.1 (h.mem.load (frame + BitVec.ofNat 32 x.2) 4) := ⟨_, rfl⟩
    have hexec : execAll (fills (L := L) base (x :: l)) h = execAll (fills (L := L) base l) h1 := by
      rw [hh1, ← haddr]
      rfl
    have hstored : storedAll (fills (L := L) base (x :: l)) h = storedAll (fills (L := L) base l) h1 := by
      rw [hh1, ← haddr]
      rfl
    have hmem1 : h1.mem = h.mem := by rw [hh1, Hart.setReg_mem]
    have hbase1 : h1.reg base = frame := by rw [hh1, Hart.reg_setReg_ne h hbx, hbase]
    obtain ⟨hkeeps, hmem, hloads, hnone⟩ :=
      ih hbase1 (fun y hy => hslots y (List.mem_cons_of_mem x hy)) hnodup hbl
    rw [hexec, hstored]
    refine ⟨?_, hmem.trans hmem1, fun y hy h0 => ?_, hnone⟩
    · have hfirst : Keeps (List.map Prod.fst (x :: l)) h h1 := hh1 ▸ Keeps.of_setReg (by simp) h _
      exact hfirst.trans (hkeeps.mono (by simp))
    · rcases List.mem_cons.1 hy with rfl | hy
      · rw [hkeeps.reg y.1 hx, hh1, Hart.reg_setReg_self h h0]
      · rw [hloads y hy h0, hmem1]

end Blocks

end Frames

end Vsync.Asm
