/-
`gpio_apb.sv`, for `w` pins: the registers behind the APB port, the synchroniser and the interrupt status.

- `Gpio.intDetect`: the edge or the level that each pin is configured for.
- `Gpio.EventAt`: an enabled event of a pin; `OverwritesAt`: a write of `INT_STATUS` in its cycle, while the bit is
  still 0, that does not clear the pin.
- `status_step`: the status bit of a pin after a cycle.
- `event_kept_iff`: **which events a run keeps.** The write takes the place of the update with the new events.
-/
import Vsync.Machine
import Vsync.Pkg
import Mathlib.Tactic

namespace Vsync

/-- the APB port and the pins -/
structure GpioIn (w : ℕ) where
  psel : Bool
  penable : Bool
  pwrite : Bool
  paddr : BitVec 8
  pwdata : Word
  gpioIn : BitVec w

structure Gpio (w : ℕ) where
  gpioOut : BitVec w
  gpioDir : BitVec w
  gpioIntEn : BitVec w
  gpioIntStatus : BitVec w
  gpioIntType : BitVec w
  gpioIntPol : BitVec w
  gpioInSync1 : BitVec w
  gpioInSync2 : BitVec w
  gpioInPrev : BitVec w
  deriving DecidableEq, Repr

namespace GpioReg

def GPIO_OUT : BitVec 8 := 0x00
def GPIO_IN : BitVec 8 := 0x04
def GPIO_DIR : BitVec 8 := 0x08
def GPIO_INT_EN : BitVec 8 := 0x0C
def GPIO_INT_STATUS : BitVec 8 := 0x10
def GPIO_INT_TYPE : BitVec 8 := 0x14
def GPIO_INT_POL : BitVec 8 := 0x18

end GpioReg

namespace GpioIn

variable {w : ℕ} (i : GpioIn w)

def writeEn : Bool := i.psel && i.penable && i.pwrite

def readEn : Bool := i.psel && i.penable && !i.pwrite

def pready : Bool := i.psel && i.penable

def writes (addr : BitVec 8) : Bool := i.writeEn && i.paddr == addr

def data : BitVec w := i.pwdata.setWidth w

end GpioIn

namespace Gpio

variable {w : ℕ}

def reset : Gpio w := ⟨0, 0, 0, 0, 0, 0, 0, 0, 0⟩

section Unit

variable (g : Gpio w) (i : GpioIn w)

def risingEdge : BitVec w := g.gpioInSync2 &&& ~~~g.gpioInPrev

def fallingEdge : BitVec w := ~~~g.gpioInSync2 &&& g.gpioInPrev

/-- the loop body of `int_detect`: an edge or a level, of the polarity of the pin -/
def detects (k : Fin w) : Bool :=
  if g.gpioIntType[k] then
    if g.gpioIntPol[k] then g.risingEdge[k] else g.fallingEdge[k]
  else
    if g.gpioIntPol[k] then g.gpioInSync2[k] else !g.gpioInSync2[k]

def intDetect : BitVec w := (BitVec.ofBoolListLE (List.ofFn g.detects)).cast List.length_ofFn

def prdata : Word :=
  if i.readEn then
    if i.paddr = GpioReg.GPIO_OUT then g.gpioOut.setWidth 32
    else if i.paddr = GpioReg.GPIO_IN then g.gpioInSync2.setWidth 32
    else if i.paddr = GpioReg.GPIO_DIR then g.gpioDir.setWidth 32
    else if i.paddr = GpioReg.GPIO_INT_EN then g.gpioIntEn.setWidth 32
    else if i.paddr = GpioReg.GPIO_INT_STATUS then g.gpioIntStatus.setWidth 32
    else if i.paddr = GpioReg.GPIO_INT_TYPE then g.gpioIntType.setWidth 32
    else if i.paddr = GpioReg.GPIO_INT_POL then g.gpioIntPol.setWidth 32
    else 0
  else 0

def irq : Bool := g.gpioIntStatus &&& g.gpioIntEn != 0

def step : Gpio w where
  gpioOut := if i.writes GpioReg.GPIO_OUT then i.data else g.gpioOut
  gpioDir := if i.writes GpioReg.GPIO_DIR then i.data else g.gpioDir
  gpioIntEn := if i.writes GpioReg.GPIO_INT_EN then i.data else g.gpioIntEn
  -- the later of the two assignments wins: write-1-to-clear, over the update with the new events
  gpioIntStatus :=
    if i.writes GpioReg.GPIO_INT_STATUS then g.gpioIntStatus &&& ~~~i.data
    else g.gpioIntStatus ||| (g.intDetect &&& g.gpioIntEn)
  gpioIntType := if i.writes GpioReg.GPIO_INT_TYPE then i.data else g.gpioIntType
  gpioIntPol := if i.writes GpioReg.GPIO_INT_POL then i.data else g.gpioIntPol
  gpioInSync1 := i.gpioIn
  gpioInSync2 := g.gpioInSync1
  gpioInPrev := g.gpioInSync2

/-! ## The events of one pin -/

variable (k : Fin w)

def EventAt : Prop := g.detects k = true ∧ g.gpioIntEn[k] = true

/-- the write of the cycle clears bit `k` -/
def ClearsAt : Prop := i.writes GpioReg.GPIO_INT_STATUS = true ∧ i.data[k] = true

/-- a write of `INT_STATUS` that clears other bits, while bit `k` is not yet set -/
def OverwritesAt : Prop :=
  i.writes GpioReg.GPIO_INT_STATUS = true ∧ i.data[k] = false ∧ g.gpioIntStatus[k] = false

instance : Decidable (g.EventAt k) := inferInstanceAs (Decidable (_ ∧ _))
instance : Decidable (ClearsAt i k) := inferInstanceAs (Decidable (_ ∧ _))
instance : Decidable (g.OverwritesAt i k) := inferInstanceAs (Decidable (_ ∧ _ ∧ _))

end Unit

section Pin

variable {g : Gpio w} {i : GpioIn w} {k : Fin w}

theorem getElem_intDetect : g.intDetect[k] = g.detects k := by
  have hbit : g.intDetect.getLsbD k = (List.ofFn g.detects).getD k false := by
    rw [intDetect, BitVec.getLsbD_cast, BitVec.getLsbD_ofBoolListLE]
  rw [List.getD_eq_getElem?_getD, List.getElem?_ofFn, dif_pos k.isLt] at hbit
  exact hbit

theorem status_step : (g.step i).gpioIntStatus[k] =
    if i.writes GpioReg.GPIO_INT_STATUS then g.gpioIntStatus[k] && !i.data[k]
    else g.gpioIntStatus[k] || (g.detects k && g.gpioIntEn[k]) := by
  rw [← getElem_intDetect]
  unfold step
  dsimp only
  split_ifs <;> simp

/-- what an event leaves: its bit, unless the write of the cycle clears it or takes the place of the update -/
theorem kept_or_cleared_iff (h : g.EventAt k) :
    ((g.step i).gpioIntStatus[k] = true ∨ ClearsAt i k) ↔ ¬ g.OverwritesAt i k := by
  rw [status_step]
  cases hw : i.writes GpioReg.GPIO_INT_STATUS with
  | false => simp [OverwritesAt, hw, h.1, h.2]
  | true =>
    cases hd : i.data[k] with
    | true => simp [ClearsAt, OverwritesAt, hw, hd]
    | false =>
      simp only [ClearsAt, OverwritesAt, hw, hd]
      cases g.gpioIntStatus[k] <;> simp

end Pin

section Run

variable (g : Gpio w) (ins : ℕ → GpioIn w)

/-- **Which events are kept.** From any state and for any inputs, an enabled event of a pin in cycle `n` leaves its bit
set after the cycle, or the write of the cycle clears it: exactly if the cycle does not write `INT_STATUS` with a 0 for
the pin while its bit is still 0. -/
theorem event_kept_iff (n : ℕ) (k : Fin w) (h : (Machine.trace step g ins n).EventAt k) :
    ((Machine.trace step g ins (n + 1)).gpioIntStatus[k] = true ∨ ClearsAt (ins n) k) ↔
      ¬ (Machine.trace step g ins n).OverwritesAt (ins n) k :=
  kept_or_cleared_iff h

end Run

/-- The pins are set up for rising edges. Pin 0 rises; in the cycle in which the write that clears its bit reaches the
registers, the edge of pin 1 is there. -/
def lostEdge (n : ℕ) : GpioIn 32 where
  psel := n < 6 || n = 8 || n = 9
  penable := n = 1 || n = 3 || n = 5 || n = 9
  pwrite := true
  paddr :=
    if n < 2 then GpioReg.GPIO_INT_TYPE
    else if n < 4 then GpioReg.GPIO_INT_POL
    else if n < 6 then GpioReg.GPIO_INT_EN
    else GpioReg.GPIO_INT_STATUS
  pwdata := if n < 6 then 3 else 1
  gpioIn := if n < 4 then 0 else if n < 7 then 1 else 3

theorem edge_lost : ¬ ∀ (g : Gpio 32) (ins : ℕ → GpioIn 32) (n : ℕ) (k : Fin 32),
    (Machine.trace step g ins n).EventAt k →
      (Machine.trace step g ins (n + 1)).gpioIntStatus[k] = true ∨ ClearsAt (ins n) k := by
  intro h
  have hlost : (Machine.trace step reset lostEdge 9).EventAt (1 : Fin 32) ∧
      (Machine.trace step reset lostEdge 10).gpioIntStatus[(1 : Fin 32)] = false ∧
      ¬ ClearsAt (lostEdge 9) (1 : Fin 32) := by
    decide +kernel
  rcases h reset lostEdge 9 1 hlost.1 with hset | hclear
  · rw [hlost.2.1] at hset
    exact Bool.noConfusion hset
  · exact hlost.2.2 hclear

theorem event_kept_iff_lostEdge :
    ((Machine.trace step reset lostEdge 10).gpioIntStatus[(1 : Fin 32)] = true ∨ ClearsAt (lostEdge 9) (1 : Fin 32)) ↔
      ¬ (Machine.trace step reset lostEdge 9).OverwritesAt (lostEdge 9) (1 : Fin 32) :=
  event_kept_iff reset lostEdge 9 1 (by decide +kernel)

end Gpio

end Vsync
