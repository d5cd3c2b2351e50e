/-
`multiplier_divider.sv`: the single-cycle multiplier and the 32-step restoring divider.

`busy` reads `start`: an operation with an immediate result takes the outputs even from a division in progress.
-/
import Vsync.Core.PipeRegs

namespace Vsync

inductive DivState where
  | idle
  | calc
  | done
  | hold
  deriving DecidableEq, Repr

structure MulDiv where
  state : DivState
  count : BitVec 5
  quotient : Word
  remainder : BitVec 33
  divisor : Word
  op : MextOp
  operandA : Word
  operandB : Word
  deriving DecidableEq, Repr

namespace MulDiv

def reset : MulDiv := ⟨.idle, 0, 0, 0, 0, .mul, 0, 0⟩

def isMulOp : MextOp → Bool
  | .mul => true
  | .mulh => true
  | .mulhsu => true
  | .mulhu => true
  | _ => false

def isSignedDiv : MextOp → Bool
  | .div => true
  | .rem => true
  | _ => false

def mulResult (op : MextOp) (a b : Word) : Word :=
  match op with
  | .mul => (a.signExtend 64 * b.signExtend 64).extractLsb' 0 32
  | .mulh => (a.signExtend 64 * b.signExtend 64).extractLsb' 32 32
  | .mulhsu => (a.signExtend 65 * b.setWidth 65).extractLsb' 32 32
  | .mulhu => (a.setWidth 64 * b.setWidth 64).extractLsb' 32 32
  | _ => 0

def divByZero (b : Word) : Bool := b == 0

def divOverflow (op : MextOp) (a b : Word) : Bool := isSignedDiv op && a == 0x80000000 && b == 0xFFFFFFFF

/-- `abs_a`, `abs_b` -/
def absOf (op : MextOp) (x : Word) : Word := if isSignedDiv op && x.msb then ~~~x + 1 else x

def byZeroResult (op : MextOp) (a : Word) : Word :=
  match op with
  | .div => 0xFFFFFFFF
  | .divu => 0xFFFFFFFF
  | .rem => a
  | .remu => a
  | _ => 0

def overflowResult : MextOp → Word
  | .div => 0x80000000
  | _ => 0

/-- an operation that is done in its first cycle -/
def immediate (op : MextOp) (a b : Word) : Bool := isMulOp op || divByZero b || divOverflow op a b

section Divider

variable (u : MulDiv)

/-- `quotient` and `remainder` with their signs -/
def signedQuotient : Word :=
  if isSignedDiv u.op && (u.operandA.msb ^^ u.operandB.msb) then ~~~u.quotient + 1 else u.quotient

def signedRemainder : Word :=
  if isSignedDiv u.op && u.operandA.msb then ~~~(u.remainder.setWidth 32) + 1 else u.remainder.setWidth 32

def divResult : Word :=
  match u.op with
  | .div => u.signedQuotient
  | .divu => u.signedQuotient
  | .rem => u.signedRemainder
  | .remu => u.signedRemainder
  | _ => 0

def calculating : Bool := u.state == .calc

def busy (start : Bool) (op : MextOp) (a b : Word) : Bool := !(start && immediate op a b) && u.calculating

def result (start : Bool) (op : MextOp) (a b : Word) : Option Word :=
  if start && isMulOp op then some (mulResult op a b)
  else if start && divByZero b then some (byZeroResult op a)
  else if start && divOverflow op a b then some (overflowResult op)
  else if u.state = .done ∨ u.state = .hold then some u.divResult
  else none

def iterate : MulDiv :=
  let r := u.remainder.setWidth 32 ++ u.quotient.extractLsb' 31 1
  if (u.divisor.setWidth 33) ≤ r then
    { u with remainder := r - u.divisor.setWidth 33, quotient := u.quotient.extractLsb' 0 31 ++ 0b1#1,
             count := u.count + 1, state := if u.count = 31 then .done else .calc }
  else
    { u with remainder := r, quotient := u.quotient.extractLsb' 0 31 ++ 0b0#1,
             count := u.count + 1, state := if u.count = 31 then .done else .calc }

def step (start : Bool) (op : MextOp) (a b : Word) : MulDiv :=
  match u.state with
  | .idle =>
    if start && !isMulOp op && !divByZero b && !divOverflow op a b then
      ⟨.calc, 0, absOf op a, 0, absOf op b, op, a, b⟩
    else u
  | .calc => u.iterate
  | .done => { u with state := .hold }
  | .hold => { u with state := .idle }

end Divider

/-! ## A division ends -/

theorem step_not_calculating {u : MulDiv} (op : MextOp) (a b : Word) (h : u.calculating = false) :
    (u.step false op a b).calculating = false := by
  unfold calculating at *
  unfold step
  rcases hs : u.state with _ | _ | _ | _
  · simp [hs]
  · simp [hs] at h
  · rfl
  · rfl

theorem step_calculating (u : MulDiv) (op : MextOp) (a b : Word) (h : u.calculating = true) :
    (u.step false op a b).state = (if u.count = 31 then .done else .calc) ∧
      (u.step false op a b).count = u.count + 1 := by
  have hs : u.state = .calc := by simpa [calculating] using h
  simp only [step, hs, iterate]
  split_ifs <;> simp

/-- without a new start the unit is idle from some cycle on -/
theorem ends (u : ℕ → MulDiv) (hu : ∀ k, ∃ op a b, u (k + 1) = (u k).step false op a b) :
    ∃ n, ∀ k ≥ n, (u k).calculating = false := by
  have hstop : ∀ d n, 31 - (u n).count.toNat = d → ∃ m, (u m).calculating = false := by
    intro d
    induction d with
    | zero =>
      intro n hd
      cases hb : (u n).calculating with
      | false => exact ⟨n, hb⟩
      | true =>
        obtain ⟨op, a, b, hn⟩ := hu n
        have hc : (u n).count = 31 := by bv_omega
        refine ⟨n + 1, ?_⟩
        rw [hn, calculating, (step_calculating _ op a b hb).1, if_pos hc]
        rfl
    | succ d ih =>
      intro n hd
      cases hb : (u n).calculating with
      | false => exact ⟨n, hb⟩
      | true =>
        obtain ⟨op, a, b, hn⟩ := hu n
        have hc : (u (n + 1)).count = (u n).count + 1 := by rw [hn, (step_calculating _ op a b hb).2]
        exact ih (n + 1) (by bv_omega)
  obtain ⟨m, hm⟩ := hstop _ 0 rfl
  refine ⟨m, fun k hk => ?_⟩
  induction k, hk using Nat.le_induction with
  | base => exact hm
  | succ k _ ih =>
    obtain ⟨op, a, b, hn⟩ := hu k
    rw [hn]
    exact step_not_calculating op a b ih

end MulDiv

end Vsync
