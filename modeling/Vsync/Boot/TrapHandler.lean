/-
`_trap_handler` of `start.S`: the text, and one run of it from a trap to `mret`.

- `handler`: the blocks, line by line; `TrapPoint`: a trap, with the hart of the interrupted program.
- `saves`, `dispatches`, `restores`: the three parts of a run.
- `handles`: the run gives every register back, stores the 34 words of a frame below `mscratch`, and leaves the stack
  pointer of the program in `mscratch`.
- `resumes_iff`: it goes on where it is to go on exactly after an interrupt. `_trap_restore` loads `mepc` from the
  frame, over what the exception handler has written.
-/
import Vsync.Asm
import Vsync.Pkg

namespace Vsync.TrapHandler

open Machine Asm Asm.Reg Asm.Program

inductive Label where
  | trapHandler
  | handleException
  | handleEcall
  | handleInterrupt
  | handleSwInt
  | handleTimerInt
  | handleExtInt
  | trapRestore
  deriving DecidableEq, Repr

/-- the lines from `_trap_handler` to `mret` -/
def handler : Program Label :=
  [(.trapHandler,
    [.csrrw sp .mscratch sp,
     .addi sp sp (-144),
     .sw ra 0 sp, .sw t0 4 sp, .sw t1 8 sp, .sw t2 12 sp,
     .sw a0 16 sp, .sw a1 20 sp, .sw a2 24 sp, .sw a3 28 sp, .sw a4 32 sp, .sw a5 36 sp, .sw a6 40 sp, .sw a7 44 sp,
     .sw t3 48 sp, .sw t4 52 sp, .sw t5 56 sp, .sw t6 60 sp,
     .sw s0 64 sp, .sw s1 68 sp, .sw s2 72 sp, .sw s3 76 sp, .sw s4 80 sp, .sw s5 84 sp, .sw s6 88 sp, .sw s7 92 sp,
     .sw s8 96 sp, .sw s9 100 sp, .sw s10 104 sp, .sw s11 108 sp,
     .csrr t0 .mepc, .sw t0 112 sp,
     .csrr t0 .mcause, .sw t0 116 sp,
     .csrr t0 .mtval, .sw t0 120 sp,
     .csrr t0 .mstatus, .sw t0 124 sp,
     .csrr t0 .mscratch, .sw t0 128 sp,
     .sw gp 132 sp,
     .csrr t0 .mcause,
     .bltz t0 .handleInterrupt]),
   (.handleException,
    [.li t1 11,
     .beq t0 t1 .handleEcall,
     .csrr t0 .mepc,
     .addi t0 t0 4,
     .csrw .mepc t0,
     .j .trapRestore]),
   (.handleEcall,
    [.csrr t0 .mepc,
     .addi t0 t0 4,
     .csrw .mepc t0,
     .j .trapRestore]),
   (.handleInterrupt,
    [.andi t0 t0 0x7FF,
     .li t1 3,
     .beq t0 t1 .handleSwInt,
     .li t1 7,
     .beq t0 t1 .handleTimerInt,
     .li t1 11,
     .beq t0 t1 .handleExtInt,
     .j .trapRestore]),
   (.handleSwInt, [.j .trapRestore]),
   (.handleTimerInt, [.j .trapRestore]),
   (.handleExtInt, [.j .trapRestore]),
   (.trapRestore,
    [.lw t0 124 sp,
     .csrw .mstatus t0,
     .lw t0 112 sp,
     .csrw .mepc t0,
     .lw gp 132 sp,
     .lw ra 0 sp, .lw t0 4 sp, .lw t1 8 sp, .lw t2 12 sp,
     .lw a0 16 sp, .lw a1 20 sp, .lw a2 24 sp, .lw a3 28 sp, .lw a4 32 sp, .lw a5 36 sp, .lw a6 40 sp, .lw a7 44 sp,
     .lw t3 48 sp, .lw t4 52 sp, .lw t5 56 sp, .lw t6 60 sp,
     .lw s0 64 sp, .lw s1 68 sp, .lw s2 72 sp, .lw s3 76 sp, .lw s4 80 sp, .lw s5 84 sp, .lw s6 88 sp, .lw s7 92 sp,
     .lw s8 96 sp, .lw s9 100 sp, .lw s10 104 sp, .lw s11 108 sp,
     .lw sp 128 sp,
     .mret])]

/-- the registers that are saved first and restored last, with their offsets -/
def regSlots : List (Reg × ℕ) :=
  [(ra, 0), (t0, 4), (t1, 8), (t2, 12), (a0, 16), (a1, 20), (a2, 24), (a3, 28), (a4, 32), (a5, 36), (a6, 40), (a7, 44),
   (t3, 48), (t4, 52), (t5, 56), (t6, 60), (s0, 64), (s1, 68), (s2, 72), (s3, 76), (s4, 80), (s5, 84), (s6, 88),
   (s7, 92),
   (s8, 96), (s9, 100), (s10, 104), (s11, 108)]

def csrSlots : List (Csr × ℕ) := [(.mepc, 112), (.mcause, 116), (.mtval, 120), (.mstatus, 124), (.mscratch, 128)]

def offsets : List ℕ := regSlots.map Prod.snd ++ csrSlots.map Prod.snd ++ [132]

/-- a trap, with the hart at that moment -/
structure TrapPoint where
  hart : Hart
  pc : Word
  /-- as every pc of RV32I -/
  aligned : pc &&& ~~~3#32 = pc
  cause : Word
  tval : Word

def TrapPoint.enter (t : TrapPoint) (m : Word) : Hart := { t.hart with mscratch := m }.trap t.cause t.pc t.tval

/-- the handler, run for as many steps as it has lines -/
@[irreducible]
def finish (h : Hart) : Config := trace handler.step ⟨h, 0⟩ alone handler.code.length

@[irreducible]
def written (h : Hart) : List Word := log handler.stores handler.step ⟨h, 0⟩ alone handler.code.length

/-! ## The frame -/

section Handler

variable {h g : Hart}

/-- the stack pointer of the handler -/
def frameOf (h : Hart) : Word := h.mscratch + (-144 : BitVec 12).signExtend 32

def saved (h : Hart) : List (ℕ × Word) :=
  (regSlots.map fun x => (x.2, h.reg x.1)) ++
    [(112, h.mepc), (116, h.mcause), (120, h.mtval), (124, h.mstatus), (128, h.reg sp), (132, h.reg gp)]

/-- behind the saves of `h` -/
structure Saved (h g : Hart) : Prop where
  sp : g.reg sp = frameOf h
  t0 : g.reg t0 = h.mcause
  reg : ∀ r, r ∉ [Reg.sp, Reg.t0] → g.reg r = h.reg r
  mscratch : g.mscratch = h.reg Reg.sp
  holds : Holds (frameOf h) (saved h) g.mem

/-- `csrrw sp, mscratch, sp` and `addi sp, sp, -144` -/
def swap : List (Instr Label) := [.csrrw sp .mscratch sp, .addi sp sp (-144)]

theorem swap_exec (h : Hart) : (execAll swap h).reg sp = frameOf h ∧
    (∀ r, r ≠ sp → (execAll swap h).reg r = h.reg r) ∧ (∀ c, c ≠ .mscratch → (execAll swap h).csr c = h.csr c) ∧
    (execAll swap h).mscratch = h.reg sp := by
  have hsp : sp ≠ 0#5 := by decide
  refine ⟨?_, fun r hr => ?_, fun c hc => ?_, rfl⟩
  · change (Hart.setReg _ sp _).reg sp = _
    rw [Hart.reg_setReg_self _ hsp]
    change (Hart.setReg _ sp _).reg sp + _ = _
    rw [Hart.reg_setReg_self _ hsp]
    rfl
  · change (Hart.setReg _ sp _).reg r = _
    rw [Hart.reg_setReg_ne _ hr]
    change (Hart.setReg _ sp _).reg r = _
    rw [Hart.reg_setReg_ne _ hr, Hart.reg_setCsr]
  · change (Hart.setReg (Hart.setReg _ sp _) sp _).csr c = _
    rw [Hart.setReg_csr, Hart.setReg_csr, Hart.csr_setCsr_ne _ hc]

/-- **The saves.** -/
theorem saves (h : Hart) : ∃ g, handler.Runs 42 ⟨h, 0⟩ (offsets.map fun k => frameOf h + BitVec.ofNat 32 k) ⟨g, 42⟩ ∧
    Saved h g := by
  obtain ⟨hsp, hreg, hcsr, hscratch⟩ := swap_exec h
  have hrun0 : handler.Runs 2 ⟨h, 0⟩ [] ⟨execAll swap h, 2⟩ := runs_line swap (by decide) (by decide)
  generalize execAll swap h = h0 at hsp hreg hcsr hscratch hrun0
  -- the registers
  have hrun1 : handler.Runs 28 ⟨h0, 2⟩ (storedAll (spills sp regSlots) h0) ⟨execAll (spills sp regSlots) h0, 30⟩ :=
    runs_line (spills sp regSlots) (by decide) (by decide)
  obtain ⟨hkeeps1, hholds1, hstored1⟩ := spills_hold (L := Label) sp (h := h0) regSlots hsp
    (Fresh.mk (by decide) (by decide) (by simp)) (holds_nil _ _)
  rw [hstored1] at hrun1
  generalize execAll (spills sp regSlots) h0 = h1 at hkeeps1 hholds1 hrun1
  have hsp1 : h1.reg sp = frameOf h := (hkeeps1.reg sp (by simp)).trans hsp
  -- the CSRs
  have hrun2 : handler.Runs 10 ⟨h1, 30⟩ (storedAll (csrSpills t0 sp csrSlots) h1)
      ⟨execAll (csrSpills t0 sp csrSlots) h1, 40⟩ :=
    runs_line (csrSpills t0 sp csrSlots) (by decide) (by decide)
  obtain ⟨hkeeps2, hholds2, hstored2⟩ := csrSpills_hold (L := Label) sp t0 (h := h1) csrSlots hsp1 (by decide)
    (by decide) (Fresh.mk (by decide) (by decide) (by change ∀ k ∈ regSlots.map Prod.snd, _; decide)) hholds1
  rw [hstored2] at hrun2
  generalize execAll (csrSpills t0 sp csrSlots) h1 = h2 at hkeeps2 hholds2 hrun2
  have hsp2 : h2.reg sp = frameOf h := (hkeeps2.reg sp (by decide)).trans hsp1
  -- `gp`
  have hrun3 : handler.Runs 1 ⟨h2, 40⟩ (storedAll (spills sp [(gp, 132)]) h2)
      ⟨execAll (spills sp [(gp, 132)]) h2, 41⟩ :=
    runs_line (spills sp [(gp, 132)]) (by decide) (by decide)
  obtain ⟨hkeeps3, hholds3, hstored3⟩ := spills_hold (L := Label) sp (h := h2) [(gp, 132)] hsp2
    (Fresh.mk (by decide) (by decide)
      (by change ∀ k ∈ regSlots.map Prod.snd ++ csrSlots.map Prod.snd, _; decide)) hholds2
  rw [hstored3] at hrun3
  generalize execAll (spills sp [(gp, 132)]) h2 = h3 at hkeeps3 hholds3 hrun3
  -- the cause
  have hrun4 : handler.Runs 1 ⟨h3, 41⟩ [] ⟨h3.setReg t0 h3.mcause, 42⟩ :=
    runs_line [.csrr t0 .mcause] (by decide) (by decide)
  refine ⟨h3.setReg t0 h3.mcause, ?_, ?_⟩
  · have hall := (((hrun0.append hrun1).append hrun2).append hrun3).append hrun4
    exact hall
  · have hcsr1 (c : Csr) : h1.csr c = h0.csr c := hkeeps1.csr c
    have hcsr3 (c : Csr) : h3.csr c = h0.csr c := (hkeeps3.csr c).trans ((hkeeps2.csr c).trans (hcsr1 c))
    have hreg3 (r : Reg) (hr : r ∉ [sp, t0]) : h3.reg r = h.reg r := by
      simp only [List.mem_cons, List.not_mem_nil, or_false, not_or] at hr
      rw [hkeeps3.reg r (by simp), hkeeps2.reg r (by simpa using hr.2), hkeeps1.reg r (by simp), hreg r hr.1]
    refine ⟨?_, ?_, fun r hr => ?_, ?_, ?_⟩
    · rw [Hart.reg_setReg_ne _ (by decide), hkeeps3.reg sp (by simp), hsp2]
    · rw [Hart.reg_setReg_self _ (by decide)]
      exact (hcsr3 .mcause).trans (hcsr .mcause (by decide))
    · rw [Hart.reg_setReg_ne _ fun heq => hr (by simp [heq]), hreg3 r hr]
    · exact (hcsr3 .mscratch).trans hscratch
    · have hregs : (regSlots.map fun x => (x.2, h0.reg x.1)) = regSlots.map fun x => (x.2, h.reg x.1) := by
        apply List.map_congr_left
        intro x hx
        have hne : ∀ x ∈ regSlots, x.1 ≠ sp := by decide
        rw [hreg x.1 (hne x hx)]
      have hcsrs : (csrSlots.map fun x => (x.2, h1.csr x.1)) =
          [(112, h.mepc), (116, h.mcause), (120, h.mtval), (124, h.mstatus), (128, h.reg sp)] := by
        have hepc : h0.csr .mepc = h.mepc := hcsr .mepc (by decide)
        have hcause : h0.csr .mcause = h.mcause := hcsr .mcause (by decide)
        have htval : h0.csr .mtval = h.mtval := hcsr .mtval (by decide)
        have hstatus : h0.csr .mstatus = h.mstatus := hcsr .mstatus (by decide)
        have hold : h0.csr .mscratch = h.reg sp := hscratch
        simp only [csrSlots, List.map_cons, List.map_nil, hcsr1, hepc, hcause, htval, hstatus, hold]
      have hgp : h2.reg gp = h.reg gp := by
        rw [hkeeps2.reg gp (by decide), hkeeps1.reg gp (by simp), hreg gp (by decide)]
      rw [hregs, hcsrs] at hholds3
      simp only [List.nil_append, List.map_cons, List.map_nil, hgp, List.append_assoc] at hholds3
      exact hholds3

/-! ## The cause -/

/-- what the code for the cause leaves alone -/
structure Dispatched (h g : Hart) : Prop where
  reg : ∀ r, r ∉ [t0, t1] → g.reg r = h.reg r
  mem : g.mem = h.mem
  mscratch : g.mscratch = h.mscratch

theorem Dispatched.refl (h : Hart) : Dispatched h h := ⟨fun _ _ => rfl, rfl, rfl⟩

theorem Dispatched.trans {h1 h2 h3 : Hart} (h12 : Dispatched h1 h2) (h23 : Dispatched h2 h3) : Dispatched h1 h3 :=
  ⟨fun r hr => (h23.reg r hr).trans (h12.reg r hr), h23.mem.trans h12.mem, h23.mscratch.trans h12.mscratch⟩

theorem dispatched_setReg {r : Reg} (hr : r ∈ [t0, t1]) (h : Hart) (v : Word) : Dispatched h (h.setReg r v) := by
  refine ⟨fun r' hr' => h.reg_setReg_ne ?_ v, rfl, rfl⟩
  rintro rfl
  exact hr' hr

/-- line 64, `_trap_restore`, is reached from line `k` in at most `m` steps -/
def Restoring (m : ℕ) (h : Hart) (k : ℕ) : Prop := ∃ n ≤ m, ∃ g, handler.Runs n ⟨h, k⟩ [] ⟨g, 64⟩ ∧ Dispatched h g

section Lines

variable {k k' m n : ℕ}

theorem Restoring.before (hrun : handler.Runs n ⟨h, k⟩ [] ⟨g, k'⟩) (hd : Dispatched h g) (hr : Restoring m g k') :
    Restoring (n + m) h k := by
  obtain ⟨n', hn', g', hrun', hd'⟩ := hr
  exact ⟨n + n', by omega, g', hrun.append hrun', hd.trans hd'⟩

theorem Restoring.mono (hr : Restoring m h k) (hmn : m ≤ n) : Restoring n h k := by
  obtain ⟨n', hn', hrest⟩ := hr
  exact ⟨n', le_trans hn' hmn, hrest⟩

theorem restoring_jump (hj : handler.code[k]? = some (.j .trapRestore)) (h : Hart) : Restoring 1 h k :=
  ⟨1, le_refl 1, h, runs_jump hj (by simp) rfl, Dispatched.refl h⟩

theorem restoring_compare {v : BitVec 12} {l : Label} (hli : handler.code[k]? = some (.li t1 v))
    (hbeq : handler.code[k + 1]? = some (.beq t0 t1 l)) (hl : ∀ h, Restoring m h (handler.entry l))
    (hnext : ∀ h, Restoring m h (k + 2)) (h : Hart) : Restoring (2 + m) h k := by
  have hfirst : handler.Runs 1 ⟨h, k⟩ [] ⟨h.setReg t1 (v.signExtend 32), k + 1⟩ := runs_next hli (by simp) rfl
  have hd : Dispatched h (h.setReg t1 (v.signExtend 32)) := dispatched_setReg (by simp) h _
  generalize h.setReg t1 (v.signExtend 32) = h1 at hfirst hd
  by_cases heq : h1.reg t0 = h1.reg t1
  · have hjump : handler.Runs 1 ⟨h1, k + 1⟩ [] ⟨h1, handler.entry l⟩ := runs_jump hbeq (by simp) (if_pos heq)
    exact (hl h1).before (hfirst.append hjump) hd
  · have hgo : handler.Runs 1 ⟨h1, k + 1⟩ [] ⟨h1, k + 2⟩ := runs_next hbeq (by simp) (if_neg heq)
    exact (hnext h1).before (hfirst.append hgo) hd

theorem restoring_advance (hline : [.csrr t0 .mepc, .addi t0 t0 4, .csrw .mepc t0] <+: handler.code.drop k)
    (hj : handler.code[k + 3]? = some (.j .trapRestore)) (h : Hart) : Restoring 4 h k := by
  have hrun := runs_line (p := handler) [.csrr t0 .mepc, .addi t0 t0 4, .csrw .mepc t0] (h := h) hline
    (by simp [Instr.onLine])
  refine (restoring_jump hj _).before hrun ?_
  have hread : Dispatched h (h.setReg t0 h.mepc) := dispatched_setReg (by simp) h _
  have hadd := dispatched_setReg (r := t0) (by simp) (h.setReg t0 h.mepc)
    ((h.setReg t0 h.mepc).reg t0 + (4 : BitVec 12).signExtend 32)
  exact (hread.trans hadd).trans ⟨fun r _ => Hart.reg_setCsr _ .mepc _ r, rfl, rfl⟩

/-- **The code for the cause**: every path leads to `_trap_restore`. -/
theorem dispatches (h : Hart) : Restoring 11 h 42 := by
  by_cases hneg : (h.reg t0).toInt < 0
  · -- `_handle_interrupt`
    have hjump : handler.Runs 1 ⟨h, 42⟩ [] ⟨h, 53⟩ :=
      runs_jump (i := .bltz t0 Label.handleInterrupt) rfl (by simp) (if_pos hneg)
    have hmask : handler.Runs 1 ⟨h, 53⟩ [] ⟨h.setReg t0 (h.reg t0 &&& (0x7FF : BitVec 12).signExtend 32), 54⟩ :=
      runs_next (i := .andi t0 t0 0x7FF) rfl (by simp) rfl
    have hlast (h : Hart) : Restoring 3 h 58 := restoring_compare rfl rfl (restoring_jump rfl) (restoring_jump rfl) h
    have htimer (h : Hart) : Restoring 5 h 56 :=
      restoring_compare rfl rfl (fun h => (restoring_jump rfl h).mono (by decide)) hlast h
    have hsoft (h : Hart) : Restoring 7 h 54 :=
      restoring_compare rfl rfl (fun h => (restoring_jump rfl h).mono (by decide)) htimer h
    exact ((hsoft _).before (hjump.append hmask) (dispatched_setReg (by simp) h _)).mono (by decide)
  · -- `_handle_exception`
    have hgo : handler.Runs 1 ⟨h, 42⟩ [] ⟨h, 43⟩ :=
      runs_next (i := .bltz t0 .handleInterrupt) rfl (by simp) (if_neg hneg)
    have hcause : Restoring 6 h 43 :=
      restoring_compare rfl rfl (restoring_advance (by decide) rfl) (restoring_advance (by decide) rfl) h
    exact (hcause.before hgo (Dispatched.refl h)).mono (by decide)

end Lines

/-! ## The restores -/

/-- the CSRs and `gp` -/
def restoreFirst : List (Instr Label) :=
  [.lw t0 124 sp, .csrw .mstatus t0, .lw t0 112 sp, .csrw .mepc t0, .lw gp 132 sp]

/-- behind the restores: the hart that entered, with its stack pointer in `mscratch` -/
structure Restored (h g : Hart) : Prop where
  reg : ∀ r, g.reg r = h.reg r
  mie : g.mie = h.mie
  mpie : g.mpie = h.mpie
  mepc : g.mepc = h.mepc &&& ~~~3#32
  mscratch : g.mscratch = h.reg sp

theorem lw_exec (r : Reg) (k : ℕ) {v : Word} (hsp : g.reg sp = frameOf h) (hk : Slot k)
    (hm : g.mem.load (frameOf h + BitVec.ofNat 32 k) 4 = v) :
    (Instr.lw r (BitVec.ofNat 12 k) sp : Instr Label).exec g = g.setReg r v := by
  change g.setReg r (g.mem.load (g.reg sp + (BitVec.ofNat 12 k).signExtend 32) 4) = _
  rw [hsp, signExtend_slot hk, hm]

theorem csrw_exec (c : Csr) (k : ℕ) {v : Word} (hsp : g.reg sp = frameOf h) (hk : Slot k)
    (hm : g.mem.load (frameOf h + BitVec.ofNat 32 k) 4 = v) :
    execAll (L := Label) [.lw t0 (BitVec.ofNat 12 k) sp, .csrw c t0] g = (g.setReg t0 v).setCsr c v := by
  have hload := lw_exec t0 k hsp hk hm
  change Hart.setCsr ((Instr.lw t0 (BitVec.ofNat 12 k) sp : Instr Label).exec g) c
    (((Instr.lw t0 (BitVec.ofNat 12 k) sp : Instr Label).exec g).reg t0) = _
  rw [hload, Hart.reg_setReg_self g (by decide) v]

theorem restoreFirst_exec (hsp : g.reg sp = frameOf h) (hm : Holds (frameOf h) (saved h) g.mem) :
    execAll restoreFirst g =
      ((((g.setReg t0 h.mstatus).setCsr .mstatus h.mstatus).setReg t0 h.mepc).setCsr .mepc h.mepc).setReg gp
        (h.reg gp) := by
  have h124 : g.mem.load (frameOf h + BitVec.ofNat 32 124) 4 = h.mstatus := hm (124, h.mstatus) (by simp [saved])
  have h112 : g.mem.load (frameOf h + BitVec.ofNat 32 112) 4 = h.mepc := hm (112, h.mepc) (by simp [saved])
  have h132 : g.mem.load (frameOf h + BitVec.ofNat 32 132) 4 = h.reg gp := hm (132, h.reg gp) (by simp [saved])
  have hne : sp ≠ t0 := by decide
  have hstatus := csrw_exec .mstatus 124 hsp (by decide) h124
  obtain ⟨g1, hg1⟩ : ∃ g1, g1 = (g.setReg t0 h.mstatus).setCsr .mstatus h.mstatus := ⟨_, rfl⟩
  have hsp1 : g1.reg sp = frameOf h := by rw [hg1, Hart.reg_setCsr, Hart.reg_setReg_ne _ hne, hsp]
  have hmem1 : g1.mem = g.mem := by rw [hg1, Hart.setCsr_mem, Hart.setReg_mem]
  have hepc := csrw_exec .mepc 112 hsp1 (by decide) (by rw [hmem1, h112])
  obtain ⟨g2, hg2⟩ : ∃ g2, g2 = (g1.setReg t0 h.mepc).setCsr .mepc h.mepc := ⟨_, rfl⟩
  have hsp2 : g2.reg sp = frameOf h := by rw [hg2, Hart.reg_setCsr, Hart.reg_setReg_ne _ hne, hsp1]
  have hmem2 : g2.mem = g.mem := by rw [hg2, Hart.setCsr_mem, Hart.setReg_mem, hmem1]
  have hgp := lw_exec gp 132 hsp2 (by decide) (by rw [hmem2, h132])
  rw [← hg1] at hstatus ⊢
  rw [← hg2] at hepc ⊢
  calc execAll restoreFirst g
      = (Instr.lw gp (BitVec.ofNat 12 132) sp : Instr Label).exec
          (execAll (L := Label) [.lw t0 (BitVec.ofNat 12 112) sp, .csrw .mepc t0]
            (execAll (L := Label) [.lw t0 (BitVec.ofNat 12 124) sp, .csrw .mstatus t0] g)) := rfl
    _ = g2.setReg gp (h.reg gp) := by rw [hstatus, hepc, hgp]

/-- **The restores.** -/
theorem restores (hsp : g.reg sp = frameOf h) (hm : Holds (frameOf h) (saved h) g.mem)
    (hscratch : g.mscratch = h.reg sp) (hothers : ∀ r, r ∉ [sp, t0, t1] → g.reg r = h.reg r) :
    ∃ g', handler.Runs 34 ⟨g, 64⟩ [] ⟨g', 98⟩ ∧ Restored h g' := by
  have hrun1 : handler.Runs 5 ⟨g, 64⟩ [] ⟨execAll restoreFirst g, 69⟩ := runs_line restoreFirst (by decide) (by decide)
  obtain ⟨g1, hg1⟩ : ∃ g1, g1 = execAll restoreFirst g := ⟨_, rfl⟩
  rw [← hg1] at hrun1
  rw [restoreFirst_exec hsp hm] at hg1
  have hreg1 (r : Reg) (hr : r ≠ t0) (hgp : r ≠ gp) : g1.reg r = g.reg r := by
    rw [hg1, Hart.reg_setReg_ne _ hgp, Hart.reg_setCsr, Hart.reg_setReg_ne _ hr, Hart.reg_setCsr,
      Hart.reg_setReg_ne _ hr]
  have hgp1 : g1.reg gp = h.reg gp := by rw [hg1, Hart.reg_setReg_self _ (by decide)]
  have hsp1 : g1.reg sp = frameOf h := (hreg1 sp (by decide) (by decide)).trans hsp
  have hmem1 : g1.mem = g.mem := by
    rw [hg1, Hart.setReg_mem, Hart.setCsr_mem, Hart.setReg_mem, Hart.setCsr_mem, Hart.setReg_mem]
  -- the general registers
  have hrun2 : handler.Runs 28 ⟨g1, 69⟩ (storedAll (fills sp regSlots) g1) ⟨execAll (fills sp regSlots) g1, 97⟩ :=
    runs_line (fills sp regSlots) (by decide) (by decide)
  obtain ⟨hkeeps2, hmem2, hloads2, hstored2⟩ :=
    fills_load (L := Label) sp (h := g1) regSlots hsp1 (by decide) (by decide) (by decide)
  rw [hstored2] at hrun2
  generalize execAll (fills sp regSlots) g1 = g2 at hkeeps2 hmem2 hloads2 hrun2
  have hsp2 : g2.reg sp = frameOf h := (hkeeps2.reg sp (by decide)).trans hsp1
  -- the stack pointer
  have h128 : g2.mem.load (frameOf h + BitVec.ofNat 32 128) 4 = h.reg sp := by
    rw [hmem2, hmem1]
    exact hm (128, h.reg sp) (by simp [saved])
  have hrun3 : handler.Runs 1 ⟨g2, 97⟩ [] ⟨(Instr.lw sp (BitVec.ofNat 12 128) sp : Instr Label).exec g2, 98⟩ :=
    runs_next (i := .lw sp (BitVec.ofNat 12 128) sp) rfl (by simp) rfl
  rw [lw_exec sp 128 hsp2 (by decide) h128] at hrun3
  have hbits := Hart.setCsr_mstatus (g.setReg t0 h.mstatus) h
  refine ⟨g2.setReg sp (h.reg sp), (hrun1.append hrun2).append hrun3, fun r => ?_, ?_, ?_, ?_, ?_⟩
  · by_cases hr : r = sp
    · rw [hr, Hart.reg_setReg_self _ (by decide)]
    · rw [Hart.reg_setReg_ne _ hr]
      by_cases hslot : r ∈ regSlots.map Prod.fst
      · obtain ⟨x, hx, rfl⟩ := List.mem_map.1 hslot
        have hne : ∀ x ∈ regSlots, x.1 ≠ 0#5 := by decide
        rw [hloads2 x hx (hne x hx), hmem1]
        exact hm (x.2, h.reg x.1) (List.mem_append_left _ (List.mem_map_of_mem hx))
      · have ht0 : r ≠ t0 := by
          rintro rfl
          exact hslot (by decide)
        have ht1 : r ≠ t1 := by
          rintro rfl
          exact hslot (by decide)
        rw [hkeeps2.reg r hslot]
        by_cases hgp : r = gp
        · rw [hgp, hgp1]
        · rw [hreg1 r ht0 hgp, hothers r (by simp [hr, ht0, ht1])]
  · rw [Hart.setReg_mie, hkeeps2.mie, hg1, Hart.setReg_mie, Hart.setMepc_mie, Hart.setReg_mie]
    exact hbits.1
  · rw [Hart.setReg_mpie, hkeeps2.mpie, hg1, Hart.setReg_mpie, Hart.setMepc_mpie, Hart.setReg_mpie]
    exact hbits.2
  · have hepc := hkeeps2.csr .mepc
    rw [hg1, Hart.setReg_csr, Hart.csr_setMepc] at hepc
    exact hepc
  · have hold := hkeeps2.csr .mscratch
    rw [hg1, Hart.setReg_csr, Hart.csr_setCsr_ne _ (by decide), Hart.setReg_csr, Hart.csr_setCsr_ne _ (by decide),
      Hart.setReg_csr] at hold
    exact hold.trans hscratch

/-! ## A run -/

theorem finish_of_runs {c : Config} {ws : List Word} (hr : handler.Runs handler.code.length ⟨h, 0⟩ ws c) :
    finish h = c ∧ written h = ws := by
  unfold finish written
  exact ⟨hr.trace, hr.log⟩

/-- **The handler**, from any hart: it gives every register back and leaves the stack pointer of the program in
`mscratch`. -/
theorem handles (h : Hart) : ∃ g, finish h = ⟨g, 98⟩ ∧ Restored h g ∧
    written h = offsets.map fun k => frameOf h + BitVec.ofNat 32 k := by
  obtain ⟨g1, hrun1, hsaved⟩ := saves h
  obtain ⟨n, hn, g2, hrun2, hd⟩ := dispatches g1
  have hsp2 : g2.reg sp = frameOf h := (hd.reg sp (by decide)).trans hsaved.sp
  have hm2 : Holds (frameOf h) (saved h) g2.mem := by
    rw [hd.mem]
    exact hsaved.holds
  have hothers (r : Reg) (hr : r ∉ [sp, t0, t1]) : g2.reg r = h.reg r := by
    simp only [List.mem_cons, List.not_mem_nil, or_false, not_or] at hr
    rw [hd.reg r (by simp [hr.2.1, hr.2.2]), hsaved.reg r (by simp [hr.1, hr.2.1])]
  obtain ⟨g3, hrun3, hrestored⟩ := restores hsp2 hm2 (hd.mscratch.trans hsaved.mscratch) hothers
  have hmret : handler.AtMret ⟨g3, 98⟩ := rfl
  have hall := ((hrun1.append hrun2).append hrun3).append (runs_mret hmret (23 - n))
  have hlength : 42 + n + 34 + (23 - n) = handler.code.length := by
    have h99 : handler.code.length = 99 := rfl
    omega
  rw [hlength] at hall
  simp only [List.append_nil] at hall
  obtain ⟨hfinish, hwritten⟩ := finish_of_runs hall
  exact ⟨g3, hfinish, hrestored, hwritten⟩

/-! ## Where the program goes on -/

/-- the program goes on at the instruction of an interrupt or behind that of an exception, with its interrupt enable -/
structure Resumes (t : TrapPoint) (m : Word) : Prop where
  atMret : handler.AtMret (finish (t.enter m))
  pc : (finish (t.enter m)).hart.ret.1 = if t.cause.msb then t.pc else t.pc + 4
  mie : (finish (t.enter m)).hart.ret.2.mie = t.hart.mie

/-- **The program goes on where it is to go on exactly after an interrupt.** -/
theorem resumes_iff (t : TrapPoint) (m : Word) : Resumes t m ↔ t.cause.msb = true := by
  obtain ⟨g, hg, hrestored, -⟩ := handles (t.enter m)
  have hpc : (finish (t.enter m)).hart.ret.1 = t.pc := by
    have hepc : (t.enter m).mepc = t.pc := t.aligned
    rw [hg]
    change g.mepc = _
    rw [hrestored.mepc, hepc, t.aligned]
  constructor
  · intro h
    have hret := h.pc
    rw [hpc] at hret
    by_contra hc
    rw [if_neg hc] at hret
    bv_omega
  · intro hc
    refine ⟨?_, ?_, ?_⟩
    · rw [hg]
      rfl
    · rw [hpc, if_pos hc]
    · rw [hg]
      exact hrestored.mpie

theorem aligned_0x100 : (0x100 : Word) &&& ~~~3#32 = 0x100 := by decide

def illegalAt : TrapPoint where
  hart := ⟨fun _ => 0, fun _ => 0, true, true, 0, 0, 0, 0⟩
  pc := 0x100
  aligned := aligned_0x100
  cause := 2
  tval := 0

/-- **The same instruction traps again.** -/
theorem exception_repeats : ¬ ∀ t m, Resumes t m := by
  intro h
  obtain ⟨g, hg, hrestored, -⟩ := handles (illegalAt.enter 0x14000)
  have hpc := (h illegalAt 0x14000).pc
  rw [hg] at hpc
  change g.mepc = _ at hpc
  rw [hrestored.mepc] at hpc
  exact absurd hpc (by decide)

end Handler

end Vsync.TrapHandler
