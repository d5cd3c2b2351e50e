/-
`_trap_handler` over a sequence of traps, and the trap stack.

- `scratchAt`: `mscratch` at each trap, `_trap_stack_top` at the first one.
- `Preserved`: a run of the handler gives the registers back, and stores within the 144 bytes below `_trap_stack_top`.
- `preserved_iff`: it does at every trap of a sequence exactly if the stack pointer of the program is, at every trap but
  the last, `_trap_stack_top` itself or at most eight bytes above it. The handler swaps `sp` and `mscratch` on entry and
  does not swap them back.
-/
import Mathlib.Data.BitVec
import Vsync.Boot.TrapHandler

namespace Vsync.TrapHandler

open Asm Asm.Reg

section Sequence

variable (top : Word) (traps : ℕ → TrapPoint)

/-- `mscratch` at trap `k`; the program between two traps leaves it alone -/
def scratchAt : ℕ → Word
  | 0 => top
  | k + 1 => (finish ((traps k).enter (scratchAt k))).hart.mscratch

def InFrame (a : Word) : Prop := ∀ j < 4, (a + BitVec.ofNat 32 j - (top - 144)).toNat < 144

/-- the handler of the trap `t`, with `m` in `mscratch` -/
structure Preserved (t : TrapPoint) (m : Word) : Prop where
  atMret : handler.AtMret (finish (t.enter m))
  reg : ∀ r, (finish (t.enter m)).hart.reg r = t.hart.reg r
  stores : ∀ a ∈ written (t.enter m), InFrame top a

end Sequence

variable {top : Word} {traps : ℕ → TrapPoint}

theorem frameOf_enter (t : TrapPoint) (m : Word) : frameOf (t.enter m) = m - 144 := by
  change m + (-144 : BitVec 12).signExtend 32 = m - 144
  have h144 : (-144 : BitVec 12).signExtend 32 = -(144 : Word) := by decide
  rw [h144]
  exact (BitVec.sub_eq_add_neg m 144).symm

/-- **One trap**: the stores are in the frame exactly if `mscratch` is at most eight bytes above `_trap_stack_top`. -/
theorem stores_iff (t : TrapPoint) (m : Word) :
    (∀ a ∈ written (t.enter m), InFrame top a) ↔ (m - top).toNat ≤ 8 := by
  obtain ⟨g, -, -, hwritten⟩ := handles (t.enter m)
  have hbyte (k j : ℕ) : m - 144 + BitVec.ofNat 32 k + BitVec.ofNat 32 j - (top - 144) = (m - top) +
      BitVec.ofNat 32 (k + j) := by
    rw [BitVec.ofNat_add]
    ring
  rw [hwritten, frameOf_enter]
  constructor
  · intro h
    -- the first byte and the last one
    have hfirst := h _ (List.mem_map_of_mem (show 0 ∈ offsets by decide)) 0 (by decide)
    have hlast := h _ (List.mem_map_of_mem (show 132 ∈ offsets by decide)) 3 (by decide)
    rw [hbyte] at hfirst hlast
    bv_omega
  · intro h a ha j hj
    obtain ⟨k, hk, rfl⟩ := List.mem_map.1 ha
    have hbound : ∀ k ∈ offsets, k ≤ 132 := by decide
    have hk132 := hbound k hk
    rw [hbyte, BitVec.toNat_add, BitVec.toNat_ofNat]
    omega

/-- the registers come back whatever is in `mscratch` -/
theorem preserved_one_iff (t : TrapPoint) (m : Word) : Preserved top t m ↔ (m - top).toNat ≤ 8 := by
  obtain ⟨g, hg, hrestored, -⟩ := handles (t.enter m)
  refine ⟨fun h => (stores_iff t m).1 h.stores, fun h => ⟨?_, fun r => ?_, (stores_iff t m).2 h⟩⟩
  · rw [hg]
    rfl
  · rw [hg]
    exact hrestored.reg r

/-- the handler leaves the stack pointer of the program behind -/
theorem scratchAt_succ (top : Word) (traps : ℕ → TrapPoint) (k : ℕ) :
    scratchAt top traps (k + 1) = (traps k).hart.reg sp := by
  obtain ⟨g, hg, hrestored, -⟩ := handles ((traps k).enter (scratchAt top traps k))
  rw [scratchAt, hg]
  exact hrestored.mscratch

/-- **A sequence of traps** is handled as it is to be exactly if the program has its stack pointer at `_trap_stack_top`,
or at most eight bytes above it, at every trap but the last. -/
theorem preserved_iff (top : Word) (traps : ℕ → TrapPoint) (n : ℕ) :
    (∀ k < n, Preserved top (traps k) (scratchAt top traps k)) ↔
      ∀ k, k + 1 < n → ((traps k).hart.reg sp - top).toNat ≤ 8 := by
  constructor
  · intro h k hk
    have hnext := (preserved_one_iff (traps (k + 1)) _).1 (h (k + 1) hk)
    rwa [scratchAt_succ] at hnext
  · intro h k hk
    rw [preserved_one_iff]
    cases k with
    | zero => simp [scratchAt]
    | succ k =>
      rw [scratchAt_succ]
      exact h k hk

/-- a timer interrupt in a program whose stack pointer is `0x10FF0`, in a `.stack` that begins with DMEM -/
def timerAt : TrapPoint where
  hart := ⟨fun r => if r = sp then 0x10FF0 else 0, fun _ => 0, true, true, 0, 0, 0, 0⟩
  pc := 0x100
  aligned := aligned_0x100
  cause := 0x80000007
  tval := 0

/-- **The second interrupt stores below the stack pointer of the program**, at `0x10F60`, and not in the trap
stack below `0x11400`. -/
theorem second_trap_stores : ¬ ∀ top traps k, Preserved top (traps k) (scratchAt top traps k) := by
  intro h
  have hsecond := (preserved_one_iff timerAt _).1 (h 0x11400 (fun _ => timerAt) 1)
  rw [scratchAt_succ] at hsecond
  exact absurd hsecond (by decide)

end Vsync.TrapHandler
