/-
`csr_unit` on its own, over whole runs: traps, returns, CSR writes, retirements and interrupt lines in any combination.

- `CsrIn`: the ports in one cycle; a trap goes before a return, and both before a CSR write.
- `TrapCsr.event`: what a cycle loads into a register that only traps and writes change; `held_next`: it holds the last
  one.
- `mpie_of_quiet`: between a trap and its return `MPIE` keeps the `MIE` of the trap.
- `csr_trap_law`: **what the registers hold in a run.**
-/
import Vsync.Core.CsrAccess

namespace Vsync

/-- `exception_taken` with its data, `mret`, the CSR access, `retire_valid` and the interrupt lines -/
structure CsrIn where
  exceptionTaken : Bool
  exceptionCause : Word
  exceptionPc : Word
  exceptionVal : Word
  mret : Bool
  access : CsrAccess
  retireValid : Bool
  irq : IrqLines

namespace CsrIn

variable (i : CsrIn)

def trap : Trap :=
  if i.exceptionTaken then .taken i.exceptionCause i.exceptionPc i.exceptionVal 0
  else if i.mret then .mret 0
  else .nothing

/-- an `mret` that is not overruled by a trap -/
def returns : Bool := i.mret && !i.exceptionTaken

/-- a CSR write to `addr` that is not dropped for a trap or an `mret` -/
def writes (addr : BitVec 12) : Bool :=
  !i.exceptionTaken && !i.mret && i.access.en && i.access.op != 0b00#2 && i.access.addr == addr

/-- a trap, an `mret` or a write of `mstatus` -/
def changesStatus : Bool := i.exceptionTaken || i.mret || i.writes CsrAddr.MSTATUS

end CsrIn

/-- the CSRs that only traps and writes change -/
inductive TrapCsr where
  | mepc
  | mcause
  | mtval
  | mtvec
  | mscratch
  | mie
  deriving DecidableEq, Repr

namespace CsrUnit

def next (s : CsrUnit) (i : CsrIn) : CsrUnit := s.step i.access i.trap i.retireValid i.irq

section Frame

variable {V : Type*} {f : CsrUnit → V} {c : Prop} [Decidable c] {x y t : CsrUnit}

theorem ite_keeps (hx : c → f x = f t) (hy : f y = f t) : f (if c then x else y) = f t := by
  split_ifs with hc
  · exact hx hc
  · exact hy

end Frame

/-- what a step without a trap and an `mret` does -/
theorem next_of_quiet {s : CsrUnit} {i : CsrIn} (htrap : i.exceptionTaken = false) (hmret : i.mret = false) :
    s.next i = if i.access.en && i.access.op != 0b00#2 then s.write i.access (s.tick i.irq i.retireValid)
      else s.tick i.irq i.retireValid := by
  simp [next, step, CsrIn.trap, htrap, hmret]

/-- a field that a write to `a.addr` keeps, and a trap and an `mret` too -/
theorem next_keeps {s : CsrUnit} {i : CsrIn} {V : Type*} {f : CsrUnit → V}
    (hwrite : i.writes i.access.addr = true → f (s.write i.access (s.tick i.irq i.retireValid)) =
      f (s.tick i.irq i.retireValid))
    (htrap : ∀ pc cause val b, f { s.tick i.irq i.retireValid with
      mepc := pc, mcause := cause, mtval := val, mstatusMpie := b, mstatusMie := false } =
        f (s.tick i.irq i.retireValid))
    (hmret : ∀ b, f { s.tick i.irq i.retireValid with mstatusMie := b, mstatusMpie := true } =
      f (s.tick i.irq i.retireValid)) :
    f (s.next i) = f (s.tick i.irq i.retireValid) := by
  by_cases h1 : i.exceptionTaken = true
  · simp only [next, step, CsrIn.trap, if_pos h1]
    exact htrap _ _ _ _
  by_cases h2 : i.mret = true
  · simp only [next, step, CsrIn.trap, if_neg h1, if_pos h2]
    exact hmret _
  rw [Bool.not_eq_true] at h1 h2
  rw [next_of_quiet h1 h2]
  refine ite_keeps (fun hen => hwrite ?_) rfl
  simpa [CsrIn.writes, h1, h2] using hen

end CsrUnit

namespace TrapCsr

open CsrUnit

def held : TrapCsr → CsrUnit → Word
  | mepc, s => s.mepc
  | mcause, s => s.mcause
  | mtval, s => s.mtval
  | mtvec, s => s.mtvec
  | mscratch, s => s.mscratch
  | mie, s => s.mie

def addr : TrapCsr → BitVec 12
  | mepc => CsrAddr.MEPC
  | mcause => CsrAddr.MCAUSE
  | mtval => CsrAddr.MTVAL
  | mtvec => CsrAddr.MTVEC
  | mscratch => CsrAddr.MSCRATCH
  | mie => CsrAddr.MIE

/-- what a write of `v` leaves: `mepc` has no bit 0 -/
def legal : TrapCsr → Word → Word
  | mepc, v => v &&& ~~~1#32
  | _, v => v

def onTrap : TrapCsr → CsrIn → Option Word
  | mepc, i => some i.exceptionPc
  | mcause, i => some i.exceptionCause
  | mtval, i => some i.exceptionVal
  | _, _ => none

def event (r : TrapCsr) (s : CsrUnit) (i : CsrIn) : Option Word :=
  if i.exceptionTaken then r.onTrap i
  else if i.writes r.addr then
    some (r.legal (Zicsr.update i.access.op (r.held s) (CsrUnit.operand i.access)))
  else none

theorem read_addr (r : TrapCsr) (s : CsrUnit) : s.read r.addr = r.held s := by cases r <;> rfl

theorem held_tick (r : TrapCsr) (s : CsrUnit) (irq : IrqLines) (retire : Bool) :
    r.held (s.tick irq retire) = r.held s := by
  cases r <;> rfl

theorem held_write_other {r : TrapCsr} {a : CsrAccess} (s t : CsrUnit) (h : a.addr ≠ r.addr) :
    r.held (s.write a t) = r.held t := by
  unfold CsrUnit.write
  generalize s.newValue a = v
  refine ite_keeps ?_ (ite_keeps ?_ (ite_keeps ?_ (ite_keeps ?_ (ite_keeps ?_ (ite_keeps ?_ (ite_keeps ?_ (ite_keeps ?_
    (ite_keeps ?_ (ite_keeps ?_ (ite_keeps ?_ (ite_keeps ?_ rfl)))))))))))
  all_goals
    intro hc
    cases r <;> first | rfl | exact absurd hc h

theorem held_write {r : TrapCsr} {a : CsrAccess} (s t : CsrUnit) (h : a.addr = r.addr) :
    r.held (s.write a t) = r.legal (s.newValue a) := by
  unfold CsrUnit.write
  rw [h]
  cases r <;> rfl

/-- **One clock edge**: the CSR takes what the event of the cycle puts there. -/
theorem held_next (r : TrapCsr) (s : CsrUnit) (i : CsrIn) : r.held (s.next i) = (r.event s i).getD (r.held s) := by
  unfold CsrUnit.next CsrUnit.step CsrIn.trap event
  by_cases htrap : i.exceptionTaken = true
  · rw [if_pos htrap, if_pos htrap]
    cases r <;> rfl
  rw [if_neg htrap, if_neg htrap]
  by_cases hmret : i.mret = true
  · have hdrop : i.writes r.addr = false := by simp [CsrIn.writes, hmret]
    rw [if_pos hmret, hdrop]
    cases r <;> rfl
  rw [if_neg hmret]
  dsimp only
  by_cases hen : (i.access.en && i.access.op != 0b00#2) = true
  · rw [if_pos hen]
    by_cases haddr : i.access.addr = r.addr
    · have hw : i.writes r.addr = true := by simpa [CsrIn.writes, htrap, hmret, haddr] using hen
      rw [hw, held_write _ _ haddr, CsrUnit.newValue_eq, haddr, read_addr]
      rfl
    · have hw : i.writes r.addr = false := by simp [CsrIn.writes, haddr]
      rw [hw, held_write_other _ _ haddr, held_tick]
      rfl
  · have hw : i.writes r.addr = false := by
      simp only [CsrIn.writes, htrap, hmret]
      simp at hen ⊢
      intro h1 h2
      exact absurd (hen h1) h2
    rw [if_neg hen, hw, held_tick]
    rfl

end TrapCsr

namespace CsrUnit

variable {s : CsrUnit} {i : CsrIn}

/-- the status bits under writes to other CSRs -/
theorem mpie_write {a : CsrAccess} (t : CsrUnit) (h : a.addr ≠ CsrAddr.MSTATUS) :
    (s.write a t).mstatusMpie = t.mstatusMpie := by
  unfold write
  generalize s.newValue a = v
  simp only [apply_ite mstatusMpie, if_neg h, ite_self]

theorem mcycle_write {a : CsrAccess} (t : CsrUnit) (hlow : a.addr ≠ CsrAddr.MCYCLE) (hhigh : a.addr ≠ CsrAddr.MCYCLEH) :
    (s.write a t).mcycle = t.mcycle := by
  unfold write
  generalize s.newValue a = v
  simp only [apply_ite mcycle, if_neg hlow, if_neg hhigh, ite_self]

theorem minstret_write {a : CsrAccess} (t : CsrUnit) (hlow : a.addr ≠ CsrAddr.MINSTRET)
    (hhigh : a.addr ≠ CsrAddr.MINSTRETH) : (s.write a t).minstret = t.minstret := by
  unfold write
  generalize s.newValue a = v
  simp only [apply_ite minstret, if_neg hlow, if_neg hhigh, ite_self]

theorem mpie_trap (h : i.exceptionTaken = true) : (s.next i).mstatusMpie = s.mstatusMie := by
  simp [next, step, CsrIn.trap, h]

theorem mie_return (h : i.returns = true) : (s.next i).mstatusMie = s.mstatusMpie := by
  have hboth : i.mret = true ∧ i.exceptionTaken = false := by simpa [CsrIn.returns] using h
  simp [next, step, CsrIn.trap, hboth.1, hboth.2]

/-- a cycle without a trap, an `mret` or a write of `mstatus` keeps `MPIE` -/
theorem mpie_quiet (h : i.changesStatus = false) : (s.next i).mstatusMpie = s.mstatusMpie := by
  simp only [CsrIn.changesStatus, Bool.or_eq_false_iff] at h
  obtain ⟨⟨htrap, hmret⟩, hwrite⟩ := h
  rw [next_of_quiet htrap hmret]
  refine ite_keeps (fun hen => mpie_write _ ?_) rfl
  intro haddr
  simp [CsrIn.writes, htrap, hmret, haddr] at hwrite hen
  exact hen.2 (hwrite hen.1)

theorem mcycle_next (hlow : i.writes CsrAddr.MCYCLE = false) (hhigh : i.writes CsrAddr.MCYCLEH = false) :
    (s.next i).mcycle = s.mcycle + 1 := by
  refine next_keeps (fun hw => mcycle_write _ ?_ ?_) (fun _ _ _ _ => rfl) fun _ => rfl
  · intro haddr
    rw [haddr, hlow] at hw
    exact Bool.noConfusion hw
  · intro haddr
    rw [haddr, hhigh] at hw
    exact Bool.noConfusion hw

theorem minstret_next (hlow : i.writes CsrAddr.MINSTRET = false) (hhigh : i.writes CsrAddr.MINSTRETH = false) :
    (s.next i).minstret = s.minstret + if i.retireValid then 1 else 0 := by
  have htick : (s.tick i.irq i.retireValid).minstret = s.minstret + if i.retireValid then 1 else 0 := by
    cases hr : i.retireValid <;> simp [tick]
  rw [← htick]
  refine next_keeps (fun hw => minstret_write _ ?_ ?_) (fun _ _ _ _ => rfl) fun _ => rfl
  · intro haddr
    rw [haddr, hlow] at hw
    exact Bool.noConfusion hw
  · intro haddr
    rw [haddr, hhigh] at hw
    exact Bool.noConfusion hw

section Run

variable (s : CsrUnit) (ins : ℕ → CsrIn)

/-- from the cycle after a trap on, as long as nothing touches the status -/
theorem mpie_of_quiet {k : ℕ} (htrap : (ins k).exceptionTaken = true) (n : ℕ)
    (h : ∀ j, k < j → j < k + 1 + n → (ins j).changesStatus = false) :
    (Machine.trace next s ins (k + 1 + n)).mstatusMpie = (Machine.trace next s ins k).mstatusMie := by
  induction n with
  | zero => exact mpie_trap htrap
  | succ n ih =>
    rw [← Nat.add_assoc, Machine.trace_succ, mpie_quiet (h (k + 1 + n) (by omega) (by omega))]
    exact ih fun j h1 h2 => h j h1 (by omega)

/-- **Traps, returns and counters.** From any state (after reset in particular), an `mret` gives `MIE` the value it had
before the last trap; the trap CSRs hold the last event that targets them; a counter that is not written counts its
cycles. -/
theorem csr_trap_law :
    (∀ k m, k < m → (ins k).exceptionTaken = true → (ins m).returns = true →
      (∀ j, k < j → j < m → (ins j).changesStatus = false) →
      (Machine.trace next s ins (m + 1)).mstatusMie = (Machine.trace next s ins k).mstatusMie) ∧
    (∀ (r : TrapCsr) (n : ℕ), Machine.LastOf next s ins r.event (r.held s) n (r.held (Machine.trace next s ins n))) ∧
    (∀ a n, (∀ k < n, (ins (a + k)).writes CsrAddr.MCYCLE = false ∧ (ins (a + k)).writes CsrAddr.MCYCLEH = false) →
      (Machine.trace next s ins (a + n)).mcycle = (Machine.trace next s ins a).mcycle + BitVec.ofNat 64 n) ∧
    ∀ a n, (∀ k < n, (ins (a + k)).writes CsrAddr.MINSTRET = false ∧ (ins (a + k)).writes CsrAddr.MINSTRETH = false) →
      (Machine.trace next s ins (a + n)).minstret =
        (Machine.trace next s ins a).minstret + BitVec.ofNat 64
          (Nat.count (fun k => (ins (a + k)).retireValid = true) n) := by
  refine ⟨?_, ?_, ?_, ?_⟩
  · intro k m hkm htrap hret hquiet
    obtain ⟨n, rfl⟩ : ∃ n, m = k + 1 + n := Nat.exists_eq_add_of_le hkm
    rw [Machine.trace_succ, mie_return hret]
    exact mpie_of_quiet s ins htrap n hquiet
  · intro r n
    exact Machine.trace_last next s ins (TrapCsr.held_next r) n
  · intro a n hw
    have hcount : (Machine.trace next (Machine.trace next s ins a) (fun k => ins (a + k)) n).mcycle =
        (Machine.trace next s ins a).mcycle + BitVec.ofNat 64 (Nat.count (fun _ => true = true) n) :=
      Machine.trace_count next _ _ (p := fun _ _ => true) n fun k hk => mcycle_next (hw k hk).1 (hw k hk).2
    rw [Machine.trace_add, hcount]
    simp [Nat.count_true]
  · intro a n hw
    rw [Machine.trace_add]
    exact Machine.trace_count next (Machine.trace next s ins a) (fun k => ins (a + k)) (p := fun _ i => i.retireValid) n
      fun k hk => minstret_next (hw k hk).1 (hw k hk).2

end Run

/-- a trap, a cycle in between and an `mret`, over and over -/
def trapAndReturn (n : ℕ) : CsrIn :=
  ⟨n % 3 = 0, Cause.M_EXT_INT, 0x100, 0, n % 3 = 2, ⟨false, 0, false, 0, 0⟩, true, .none⟩

theorem csr_trap_law_trapAndReturn :
    (Machine.trace next { reset with mstatusMie := true } trapAndReturn 3).mstatusMie = true :=
  (csr_trap_law { reset with mstatusMie := true } trapAndReturn).1 0 2 (by decide) rfl rfl fun j h1 h2 => by
    obtain rfl : j = 1 := by omega
    rfl

end CsrUnit

end Vsync
