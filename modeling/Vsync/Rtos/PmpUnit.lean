/-
`pmp_unit.sv` as `hw_rtos` instantiates it: eight regions.

- `PmpUnit`, `PmpWrites`: the registers, and the two CSR write ports.
- `regionMatch`, `accessFault`: the match logic and the access check.
- `Decides`: the entry that the RISC-V priority rule asks, the first one that matches.
- `decided_iff`: the fault is the answer of that entry, unless it grants the access and a later matching entry does not.
Failing input:
- `guardedWord_read`: a word that entry 1 closes inside a range that entry 0 opens; the read is refused.
-/
import Vsync.Machine
import Vsync.Pkg

namespace Vsync

/-- `pmpcfg_r`, `pmpaddr_r` -/
structure PmpUnit where
  pmpcfg : Fin 8 → BitVec 8
  pmpaddr : Fin 8 → Word

/-- `csr_pmpcfg_idx` with `csr_pmpcfg_wdata` while `csr_pmpcfg_wr`, and the same for `pmpaddr` -/
structure PmpWrites where
  cfg : Option (Fin 2 × Word)
  addr : Option (Fin 8 × Word)

/-- the body of the loop of `napot_mask`, over `mask` and `found` -/
def napotStep (addr : Word) (st : Word × Bool) (b : ℕ) : Word × Bool :=
  let found := st.2 || !addr.getLsbD b
  (if found then st.1 ||| BitVec.twoPow 32 b else st.1, found)

def napotMask (addr : Word) : Word :=
  let scan := (List.range 32).foldl (napotStep addr) (0, false)
  if scan.2 then scan.1 else 0

def low30 (x : Word) : BitVec 30 := x.extractLsb' 0 30

namespace PmpUnit

def reset : PmpUnit := ⟨fun _ => 0, fun _ => 0⟩

variable (u : PmpUnit)

/-- `CFG_L_BIT` -/
def lock (i : Fin 8) : Bool := (u.pmpcfg i).getLsbD 7

/-- `CFG_A_HI`, `CFG_A_LO` -/
def mode (i : Fin 8) : BitVec 2 := (u.pmpcfg i).extractLsb' 3 2

/-- `CFG_X_BIT`, `CFG_W_BIT`, `CFG_R_BIT` -/
def perms (i : Fin 8) : BitVec 3 := (u.pmpcfg i).extractLsb' 0 3

def step (w : PmpWrites) : PmpUnit where
  pmpcfg i :=
    match w.cfg with
    | some (idx, d) => if i.val / 4 = idx ∧ u.lock i = false then d.extractLsb' (8 * (i.val % 4)) 8 else u.pmpcfg i
    | none => u.pmpcfg i
  pmpaddr i :=
    match w.addr with
    | some (idx, d) => if i = idx ∧ u.lock i = false then d else u.pmpaddr i
    | none => u.pmpaddr i

def bound (i : Fin 8) : Word := low30 (u.pmpaddr i) ++ 0#2

def regionMatch (checkAddr : Word) (i : Fin 8) : Bool :=
  if u.mode i = 0b01#2 then
    -- TOR
    if i = 0 then decide (checkAddr < u.bound i)
    else decide (u.bound (i - 1) ≤ checkAddr) && decide (checkAddr < u.bound i)
  else if u.mode i = 0b10#2 then checkAddr.extractLsb' 2 30 == low30 (u.pmpaddr i)
  else if u.mode i = 0b11#2 then
    (checkAddr.extractLsb' 2 30 &&& low30 (napotMask (u.pmpaddr i))) ==
      (low30 (u.pmpaddr i) &&& low30 (napotMask (u.pmpaddr i)))
  else false

def denies (checkType : BitVec 3) (i : Fin 8) : Bool :=
  (checkType.getLsbD 0 && !(u.pmpcfg i).getLsbD 0) || (checkType.getLsbD 1 && !(u.pmpcfg i).getLsbD 1) ||
    (checkType.getLsbD 2 && !(u.pmpcfg i).getLsbD 2)

/-- `access_fault`: the loop body only ever sets it -/
def accessFault (checkAddr : Word) (checkType : BitVec 3) : Bool :=
  (List.finRange 8).foldl (fun fault i => if u.regionMatch checkAddr i then fault || u.denies checkType i
    else fault) false

/-! ## Priority -/

/-- the entry is the lowest-numbered one that matches -/
structure Decides (a : Word) (i : Fin 8) : Prop where
  here : u.regionMatch a i = true
  first : ∀ j < i, u.regionMatch a j = false

variable {u} {a : Word} {ty : BitVec 3} {i : Fin 8}

/-- the loop collects the answers of all entries that match -/
theorem accessFault_iff : u.accessFault a ty = true ↔ ∃ i, u.regionMatch a i = true ∧ u.denies ty i = true := by
  have hfold : ∀ (l : List (Fin 8)) (fault : Bool),
      l.foldl (fun fault i => if u.regionMatch a i then fault || u.denies ty i else fault) fault = true ↔
        fault = true ∨ ∃ i ∈ l, u.regionMatch a i = true ∧ u.denies ty i = true := by
    intro l
    induction l with
    | nil => simp
    | cons i l ih =>
      intro fault
      rw [List.foldl_cons, ih]
      cases hm : u.regionMatch a i with
      | true => simp [hm, or_assoc]
      | false => simp [hm]
  rw [accessFault, hfold]
  simp

/-- an entry that matches is behind the one that decides -/
theorem exists_decides (h : u.regionMatch a i = true) : ∃ j ≤ i, u.Decides a j := by
  induction i using WellFoundedLT.induction with
  | ind i ih =>
    by_cases hb : ∃ j < i, u.regionMatch a j = true
    · obtain ⟨j, hj, hm⟩ := hb
      obtain ⟨k, hk, hd⟩ := ih j hj hm
      exact ⟨k, hk.trans hj.le, hd⟩
    · refine ⟨i, le_refl i, h, fun j hj => ?_⟩
      exact Bool.eq_false_iff.2 fun hm => hb ⟨j, hj, hm⟩

/-- the access is a fault by the priority rule: some entry matches, and the first one denies it -/
def Denied (u : PmpUnit) (a : Word) (ty : BitVec 3) : Prop := ∃ i, u.Decides a i ∧ u.denies ty i = true

/-- the first matching entry grants the access, and a later matching one does not -/
def Overruled (u : PmpUnit) (a : Word) (ty : BitVec 3) : Prop :=
  ∃ i j, u.Decides a i ∧ u.denies ty i = false ∧ i < j ∧ u.regionMatch a j = true ∧ u.denies ty j = true

theorem accessFault_of_denied (h : u.Denied a ty) : u.accessFault a ty = true := by
  obtain ⟨i, hd, hno⟩ := h
  exact accessFault_iff.2 ⟨i, hd.here, hno⟩

theorem denied_or_overruled (h : u.accessFault a ty = true) : u.Denied a ty ∨ u.Overruled a ty := by
  obtain ⟨j, hm, hno⟩ := accessFault_iff.1 h
  obtain ⟨i, hij, hd⟩ := exists_decides hm
  cases hi : u.denies ty i with
  | true => exact .inl ⟨i, hd, hi⟩
  | false =>
    refine .inr ⟨i, j, hd, hi, lt_of_le_of_ne hij ?_, hm, hno⟩
    intro he
    rw [he, hno] at hi
    exact absurd hi (by simp)

theorem Decides.unique {j : Fin 8} (hi : u.Decides a i) (hj : u.Decides a j) : i = j := by
  rcases lt_trichotomy i j with h | h | h
  · exact absurd hi.here (by simp [hj.first i h])
  · exact h
  · exact absurd hj.here (by simp [hi.first j h])

/-- an access is refused exactly when the first matching entry denies it, unless that entry is overruled -/
theorem decided_iff (u : PmpUnit) (a : Word) (ty : BitVec 3) :
    (u.accessFault a ty = true ↔ u.Denied a ty) ↔ ¬ u.Overruled a ty := by
  constructor
  · rintro h ⟨i, j, hd, hi, hij, hm, hno⟩
    obtain ⟨k, hk, hk'⟩ := h.1 (accessFault_iff.2 ⟨j, hm, hno⟩)
    rw [hk.unique hd, hi] at hk'
    exact absurd hk' (by simp)
  · intro h
    refine ⟨fun hf => ?_, accessFault_of_denied⟩
    exact (denied_or_overruled hf).resolve_right h

/-- entry 0: the range below 0x1000, readable; entry 1: the word at 0x100, nothing permitted -/
def guardedWord : PmpUnit where
  pmpcfg i := if i = 0 then 0x09#8 else if i = 1 then 0x10#8 else 0
  pmpaddr i := if i = 0 then 0x400#32 else if i = 1 then 0x40#32 else 0

/-- a read at 0x100 is granted by entry 0 and refused -/
theorem guardedWord_read :
    ¬ (guardedWord.accessFault 0x100#32 0b001#3 = true ↔ guardedWord.Denied 0x100#32 0b001#3) := by
  intro h
  obtain ⟨i, hd, hno⟩ := h.1 (by decide +kernel)
  have hzero : i = 0 := by
    by_contra hi
    have := hd.first 0 (Fin.pos_iff_ne_zero.2 hi)
    exact absurd this (by decide)
  rw [hzero] at hno
  exact absurd hno (by decide)

end PmpUnit

end Vsync
