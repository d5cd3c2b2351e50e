/-
The memories outside the core: instruction words, and data words with byte strobes; the command lines of the data bus.
-/
import Vsync.ByteMem
import Vsync.Pkg

namespace Vsync

abbrev Program := BitVec 14 → Word

/-- `a_addr`: the word address in the low 16 bits of a fetch address -/
def Program.fetch (prog : Program) (pc : Word) : Word := prog (pc.extractLsb' 2 14)

abbrev DataMem := BitVec 30 → Word

def wordAddr (addr : Word) : BitVec 30 := addr.extractLsb' 2 30

/-- the bytes of `new` whose strobe is up, and those of `old` otherwise -/
def mergeBytes (strobe : BitVec 4) (old new : Word) : Word :=
  (if strobe.getLsbD 3 then new.extractLsb' 24 8 else old.extractLsb' 24 8) ++
  (if strobe.getLsbD 2 then new.extractLsb' 16 8 else old.extractLsb' 16 8) ++
  (if strobe.getLsbD 1 then new.extractLsb' 8 8 else old.extractLsb' 8 8) ++
  (if strobe.getLsbD 0 then new.extractLsb' 0 8 else old.extractLsb' 0 8)

theorem byteOf_append (b₃ b₂ b₁ b₀ : BitVec 8) {i : ℕ} (hi : i < 4) :
    byteOf (b₃ ++ b₂ ++ b₁ ++ b₀) i = if i = 3 then b₃ else if i = 2 then b₂ else if i = 1 then b₁ else b₀ := by
  apply BitVec.eq_of_getLsbD_eq
  intro j hj
  rw [getLsbD_byteOf _ _ hj]
  simp only [BitVec.getLsbD_append]
  rcases show i = 0 ∨ i = 1 ∨ i = 2 ∨ i = 3 by omega with rfl | rfl | rfl | rfl
  · simp [hj]
  · simp [show ¬ 8 + j < 8 by omega, hj]
  · simp [show ¬ 16 + j < 8 by omega, show 16 + j - 8 - 8 = j by omega, show ¬ 16 + j - 8 < 8 by omega, hj]
  · simp [show ¬ 24 + j < 8 by omega, show ¬ 24 + j - 8 < 8 by omega, show ¬ 24 + j - 8 - 8 < 8 by omega,
      show 24 + j - 8 - 8 - 8 = j by omega]

theorem byteOf_mergeBytes (strobe : BitVec 4) (old new : Word) {i : ℕ} (hi : i < 4) :
    byteOf (mergeBytes strobe old new) i = if strobe.getLsbD i then byteOf new i else byteOf old i := by
  have happend := byteOf_append (if strobe.getLsbD 3 then new.extractLsb' 24 8 else old.extractLsb' 24 8)
    (if strobe.getLsbD 2 then new.extractLsb' 16 8 else old.extractLsb' 16 8)
    (if strobe.getLsbD 1 then new.extractLsb' 8 8 else old.extractLsb' 8 8)
    (if strobe.getLsbD 0 then new.extractLsb' 0 8 else old.extractLsb' 0 8) hi
  refine happend.trans ?_
  rcases show i = 0 ∨ i = 1 ∨ i = 2 ∨ i = 3 by omega with rfl | rfl | rfl | rfl <;> rfl

theorem mergeBytes_idem (strobe : BitVec 4) (old new : Word) :
    mergeBytes strobe (mergeBytes strobe old new) new = mergeBytes strobe old new := by
  apply eq_of_byteOf (n := 4)
  intro i hi
  rw [byteOf_mergeBytes strobe _ new hi, byteOf_mergeBytes strobe old new hi]
  cases strobe.getLsbD i <;> rfl

def DataMem.write (m : DataMem) (addr data : Word) (strobe : BitVec 4) : DataMem :=
  Function.update m (wordAddr addr) (mergeBytes strobe (m (wordAddr addr)) data)

/-- a store that is repeated does not change the memory -/
theorem DataMem.write_write (m : DataMem) (addr data : Word) (strobe : BitVec 4) :
    (m.write addr data strobe).write addr data strobe = m.write addr data strobe := by
  unfold DataMem.write
  rw [Function.update_idem, Function.update_self, mergeBytes_idem]

structure BusCmd where
  read : Bool
  write : Bool
  addr : Word
  wdata : Word
  strobe : BitVec 4
  deriving DecidableEq, Repr

end Vsync
