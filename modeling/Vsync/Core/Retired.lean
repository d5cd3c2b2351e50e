/-
`minstret` in the pipeline: the counter counts the cycles with a valid MEM/WB register, `retire_valid`.

An instruction is known by the cycle in which it entered EX/MEM; `executed_once`: nothing enters EX/MEM twice.

- `exMemSince`, `memWbSince`: the instructions in EX/MEM and in MEM/WB.
- `retired`, `entered`: those that have been in WB, and those that came there in an interval.
- `StaysInWb`, `TakenAgain`: the two ways in which an instruction is in WB once more; `again_iff`: there are no others.
- `minstret_counts_iff`: **in which intervals `minstret` counts instructions.**
-/
import Vsync.Core.CsrLaw
import Vsync.Core.CtxFsm
import Vsync.Core.Board

namespace Vsync

namespace CsrIn

/-- the ports that the exception unit drives with `trap` -/
def ofTrap (a : CsrAccess) (retire : Bool) (irq : IrqLines) : Trap → CsrIn
  | .nothing => ⟨false, 0, 0, 0, false, a, retire, irq⟩
  | .taken cause pc val _ => ⟨true, cause, pc, val, false, a, retire, irq⟩
  | .mret _ => ⟨false, 0, 0, 0, true, a, retire, irq⟩

theorem next_ofTrap (s : CsrUnit) (a : CsrAccess) (retire : Bool) (irq : IrqLines) (t : Trap) :
    s.next (ofTrap a retire irq t) = s.step a t retire irq := by
  cases t <;> rfl

end CsrIn

namespace Rv32imCore

section Cycle

variable (s : Rv32imCore) (i : CoreIn)

def csrIn : CsrIn := .ofTrap s.csrAccess s.memWb.valid i.irq (s.trap i)

/-- a write of `minstret` or `minstreth` -/
def writesMinstret : Bool := (s.csrIn i).writes CsrAddr.MINSTRET || (s.csrIn i).writes CsrAddr.MINSTRETH

def takesWb : Bool := !s.flushMem i && !s.stallMem i && s.exMem.valid

def holdsWb : Bool := !s.flushMem i && s.stallMem i && s.memWb.valid

theorem csrIn_retire : (s.csrIn i).retireValid = s.memWb.valid := by
  unfold csrIn
  cases s.trap i <;> rfl

theorem minstret_step (h : s.writesMinstret i = false) :
    (s.step i).csr.minstret = s.csr.minstret + if s.memWb.valid then 1 else 0 := by
  rw [writesMinstret, Bool.or_eq_false_iff] at h
  have hnext : (s.step i).csr = s.csr.next (s.csrIn i) := (CsrIn.next_ofTrap ..).symm
  rw [hnext, CsrUnit.minstret_next h.1 h.2, csrIn_retire]

theorem memWb_valid_step : (s.step i).memWb.valid = (s.holdsWb i || s.takesWb i) := by
  change (s.memWbNext i).valid = _
  unfold memWbNext holdsWb takesWb memDone
  cases s.flushMem i <;> cases s.stallMem i <;> simp [MemWb.bubble]

/-- **What enters EX/MEM leaves ID/EX**: no instruction enters twice. -/
theorem executed_once (hstall : s.stallEx i = false) (hflush : s.flushEx i = false) :
    s.exMemNext i = s.executed i ∧ (s.idExNext i = .bubble ∨
      s.idExNext i = Decode.idEx s.ifId (s.readPort i (s.rfRs1Addr i)) (s.readPort i s.rfRs2Addr)) := by
  have hload : s.loadUse = false := by
    simp only [flushEx, Bool.or_eq_false_iff] at hflush
    exact hflush.1.1.1
  have hid : s.stallId i = false := by rw [stallId, hload, hstall]; rfl
  refine ⟨by simp [exMemNext, hstall, hflush], ?_⟩
  unfold idExNext
  rw [hid]
  split_ifs
  · exact .inl rfl
  · contradiction
  · exact .inr rfl

end Cycle

section Run

variable (c : ℕ → Rv32imCore) (i : ℕ → CoreIn)

/-- the cycle in which what is in EX/MEM before cycle `n` entered it -/
def exMemSince : ℕ → ℕ
  | 0 => 0
  | n + 1 => if (c n).stallEx (i n) then exMemSince n else n + 1

/-- the same for what is in MEM/WB -/
def memWbSince : ℕ → ℕ
  | 0 => 0
  | n + 1 => if (c n).stallMem (i n) then memWbSince n else exMemSince c i n

def retired (n : ℕ) : Finset ℕ := ((Finset.range n).filter fun k => (c k).memWb.valid = true).image (memWbSince c i)

/-- how many distinct instructions came into WB in the cycles from `a` up to `b` -/
def entered (a b : ℕ) : ℕ := (retired c i b \ retired c i a).card

/-- the instruction that is in WB in cycle `n` was there before -/
def Again (n : ℕ) : Prop := (c n).memWb.valid = true ∧ memWbSince c i n ∈ retired c i n

/-- cycle `n` takes an instruction into WB that an earlier cycle has taken, and that an EX stall has held since -/
def TakenAgain (n : ℕ) : Prop :=
  (c n).takesWb (i n) = true ∧ ∃ m < n, (c m).takesWb (i m) = true ∧ ∀ j, m ≤ j → j < n → (c j).stallEx (i j) = true

end Run

section Entries

variable {c : ℕ → Rv32imCore} {i : ℕ → CoreIn}

theorem exMemSince_le (n : ℕ) : exMemSince c i n ≤ n := by
  induction n with
  | zero => exact le_refl 0
  | succ n ih =>
    rw [exMemSince]
    split_ifs
    · exact Nat.le_succ_of_le ih
    · exact le_refl _

/-- the same instruction is in EX/MEM as long as EX stalls -/
theorem exMemSince_eq_iff {m n : ℕ} (hmn : m ≤ n) :
    exMemSince c i m = exMemSince c i n ↔ ∀ j, m ≤ j → j < n → (c j).stallEx (i j) = true := by
  induction n, hmn using Nat.le_induction with
  | base => exact iff_of_true rfl fun j h1 h2 => absurd h2 (Nat.not_lt.2 h1)
  | succ n hmn ih =>
    rw [exMemSince]
    constructor
    · intro h
      by_cases hstall : (c n).stallEx (i n) = true
      · rw [if_pos hstall] at h
        intro j h1 h2
        rcases Nat.lt_succ_iff_lt_or_eq.1 h2 with hlt | rfl
        · exact ih.1 h j h1 hlt
        · exact hstall
      · rw [if_neg hstall] at h
        have hle : exMemSince c i m ≤ m := exMemSince_le m
        omega
    · intro h
      rw [if_pos (h n hmn (Nat.lt_succ_self n))]
      exact ih.2 fun j h1 h2 => h j h1 (Nat.lt_succ_of_lt h2)

theorem mem_retired {n x : ℕ} :
    x ∈ retired c i n ↔ ∃ k < n, (c k).memWb.valid = true ∧ memWbSince c i k = x := by
  simp [retired, and_assoc]

variable (hc : Runs c i) (h0 : (c 0).memWb.valid = false)

include hc in
theorem valid_succ (n : ℕ) : (c (n + 1)).memWb.valid = ((c n).holdsWb (i n) || (c n).takesWb (i n)) := by
  rw [hc]
  exact memWb_valid_step (c n) (i n)

theorem memWbSince_of_holds {n : ℕ} (h : (c n).holdsWb (i n) = true) : memWbSince c i (n + 1) = memWbSince c i n := by
  have hstall : (c n).stallMem (i n) = true := by
    simp only [holdsWb, Bool.and_eq_true] at h
    exact h.1.2
  rw [memWbSince, if_pos hstall]

theorem memWbSince_of_takes {n : ℕ} (h : (c n).takesWb (i n) = true) : memWbSince c i (n + 1) = exMemSince c i n := by
  have hstall : ¬ (c n).stallMem (i n) = true := by
    simp only [takesWb, Bool.and_eq_true, Bool.not_eq_true'] at h
    simp [h.1.2]
  rw [memWbSince, if_neg hstall]

include hc h0 in
/-- what is in WB was taken from EX/MEM -/
theorem taken_of_valid {n : ℕ} (h : (c n).memWb.valid = true) :
    ∃ m < n, (c m).takesWb (i m) = true ∧ memWbSince c i n = exMemSince c i m := by
  induction n with
  | zero =>
    rw [h0] at h
    exact Bool.noConfusion h
  | succ n ih =>
    rw [valid_succ hc, Bool.or_eq_true] at h
    rcases h with hholds | htakes
    · have hv : (c n).memWb.valid = true := by
        simp only [holdsWb, Bool.and_eq_true] at hholds
        exact hholds.2
      obtain ⟨m, hmn, hm, heq⟩ := ih hv
      exact ⟨m, Nat.lt_succ_of_lt hmn, hm, (memWbSince_of_holds hholds).trans heq⟩
    · exact ⟨n, Nat.lt_succ_self n, htakes, memWbSince_of_takes htakes⟩

include hc h0 in
/-- **The ways in which an instruction is in WB once more.** -/
theorem again_succ_iff (n : ℕ) : Again c i (n + 1) ↔ (c n).holdsWb (i n) = true ∨ TakenAgain c i n := by
  rw [Again, valid_succ hc, Bool.or_eq_true, mem_retired]
  constructor
  · rintro ⟨hholds | htakes, k, hk, hv, heq⟩
    · exact .inl hholds
    · obtain ⟨m, hmk, hm, hsince⟩ := taken_of_valid hc h0 hv
      refine .inr ⟨htakes, m, by omega, hm, (exMemSince_eq_iff (by omega)).1 ?_⟩
      rw [← hsince, heq, memWbSince_of_takes htakes]
  · rintro (hholds | ⟨htakes, m, hmn, hm, hstall⟩)
    · have hv : (c n).memWb.valid = true := by
        simp only [holdsWb, Bool.and_eq_true] at hholds
        exact hholds.2
      exact ⟨.inl hholds, n, Nat.lt_succ_self n, hv, (memWbSince_of_holds hholds).symm⟩
    · refine ⟨.inr htakes, m + 1, by omega, ?_, ?_⟩
      · rw [valid_succ hc, hm, Bool.or_true]
      · rw [memWbSince_of_takes hm, memWbSince_of_takes htakes]
        exact (exMemSince_eq_iff (by omega)).2 hstall

end Entries

/-! ## Counting -/

section Count

variable {c : ℕ → Rv32imCore} {i : ℕ → CoreIn}

theorem retired_succ (n : ℕ) : retired c i (n + 1) =
    if (c n).memWb.valid then insert (memWbSince c i n) (retired c i n) else retired c i n := by
  rw [retired, Finset.range_add_one, Finset.filter_insert]
  split_ifs
  · rw [Finset.image_insert]
    rfl
  · rfl

theorem retired_mono {m n : ℕ} (h : m ≤ n) : retired c i m ⊆ retired c i n := by
  intro x hx
  rw [mem_retired] at hx ⊢
  obtain ⟨k, hk, hv⟩ := hx
  exact ⟨k, lt_of_lt_of_le hk h, hv⟩

theorem entered_self (n : ℕ) : entered c i n n = 0 := by simp [entered]

theorem entered_succ_old {a n : ℕ} (h : (c n).memWb.valid = false ∨ Again c i n) :
    entered c i a (n + 1) = entered c i a n := by
  have hsame : retired c i (n + 1) = retired c i n := by
    rw [retired_succ]
    rcases h with hv | ⟨hv, hmem⟩
    · rw [hv, if_neg Bool.false_ne_true]
    · rw [hv, if_pos rfl, Finset.insert_eq_of_mem hmem]
  rw [entered, hsame, entered]

theorem entered_succ_new {a n : ℕ} (han : a ≤ n) (hv : (c n).memWb.valid = true) (hnew : ¬ Again c i n) :
    entered c i a (n + 1) = entered c i a n + 1 := by
  have hno : memWbSince c i n ∉ retired c i n := fun hmem => hnew ⟨hv, hmem⟩
  rw [entered, retired_succ, hv, if_pos rfl, Finset.insert_sdiff_of_notMem _ fun hmem => hno (retired_mono han hmem),
    Finset.card_insert_of_notMem fun hmem => hno (Finset.mem_sdiff.1 hmem).1, entered]

variable (hc : Runs c i)

include hc in
theorem minstret_succ {n : ℕ} (h : (c n).writesMinstret (i n) = false) :
    (c (n + 1)).csr.minstret = (c n).csr.minstret + if (c n).memWb.valid then 1 else 0 := by
  rw [hc]
  exact minstret_step (c n) (i n) h

include hc in
/-- without a repetition the counter counts instructions -/
theorem minstret_of_new {a b : ℕ} (hab : a ≤ b) (hw : ∀ n, a ≤ n → n < b → (c n).writesMinstret (i n) = false)
    (hnew : ∀ n, a ≤ n → n < b → ¬ Again c i n) :
    (c b).csr.minstret = (c a).csr.minstret + BitVec.ofNat 64 (entered c i a b) := by
  induction b, hab using Nat.le_induction with
  | base => simp [entered_self]
  | succ n han ih =>
    have hbefore := ih (fun k h1 h2 => hw k h1 (Nat.lt_succ_of_lt h2)) fun k h1 h2 => hnew k h1 (Nat.lt_succ_of_lt h2)
    rw [minstret_succ hc (hw n han (Nat.lt_succ_self n)), hbefore]
    cases hv : (c n).memWb.valid with
    | false =>
      rw [entered_succ_old (.inl hv), if_neg Bool.false_ne_true]
      exact BitVec.add_zero _
    | true =>
      rw [entered_succ_new han hv (hnew n han (Nat.lt_succ_self n)), if_pos rfl, BitVec.ofNat_add, BitVec.add_assoc]
      rfl

include hc in
/-- in a cycle with a repetition it counts one too many -/
theorem minstret_of_again {n : ℕ} (hw : (c n).writesMinstret (i n) = false) (h : Again c i n) :
    (c (n + 1)).csr.minstret ≠ (c n).csr.minstret + BitVec.ofNat 64 (entered c i n (n + 1)) := by
  rw [minstret_succ hc hw, h.1, entered_succ_old (.inr h), entered_self, if_pos rfl]
  intro heq
  bv_omega

end Count

/-- **When `minstret` counts instructions.** In any run from reset, over every part of an interval without writes to it,
the counter rises by the number of distinct instructions that came into WB: exactly if in the interval no stall holds a
valid instruction in MEM/WB, and none is taken from EX/MEM into MEM/WB again. -/
theorem minstret_counts_iff {c : ℕ → Rv32imCore} {i : ℕ → CoreIn} (hc : Runs c i) (h0 : c 0 = reset) (a b : ℕ)
    (hw : ∀ n, a ≤ n → n < b → (c n).writesMinstret (i n) = false) :
    (∀ x y, a ≤ x → x ≤ y → y ≤ b →
      (c y).csr.minstret = (c x).csr.minstret + BitVec.ofNat 64 (entered c i x y)) ↔
    ∀ n, a ≤ n + 1 → n + 1 < b → (c n).holdsWb (i n) = false ∧ ¬ TakenAgain c i n := by
  have hvalid : (c 0).memWb.valid = false := by rw [h0]; rfl
  constructor
  · intro hcount n han hnb
    have hnot : ¬ Again c i (n + 1) := fun h =>
      minstret_of_again hc (hw (n + 1) han hnb) h (hcount (n + 1) (n + 2) han (Nat.le_succ _) hnb)
    rw [again_succ_iff hc hvalid, not_or, Bool.not_eq_true] at hnot
    exact hnot
  · intro hcond x y hax hxy hyb
    refine minstret_of_new hc hxy (fun n h1 h2 => hw n (by omega) (by omega)) fun n h1 h2 h => ?_
    cases n with
    | zero =>
      rw [Again, hvalid] at h
      exact Bool.noConfusion h.1
    | succ n =>
      obtain ⟨hholds, htaken⟩ := hcond n (by omega) (by omega)
      rcases (again_succ_iff hc hvalid n).1 h with hh | ht
      · rw [hholds] at hh
        exact Bool.noConfusion hh
      · exact htaken ht

/-! ## On the board -/

def boardCore (prog : Program) (mem : DataMem) (ins : ℕ → BoardIn) (n : ℕ) : Rv32imCore :=
  (Board.stateAt prog mem ins n).core

def boardCoreIn (prog : Program) (mem : DataMem) (ins : ℕ → BoardIn) (n : ℕ) : CoreIn :=
  (Board.stateAt prog mem ins n).coreIn (ins n)

theorem runs_board (prog : Program) (mem : DataMem) (ins : ℕ → BoardIn) :
    Runs (boardCore prog mem ins) (boardCoreIn prog mem ins) := fun _ => rfl

def loadBehindAddi : Program := fun a => if a = 1 then 0x00002103 else 0x00100093

def slowMemory (n : ℕ) : BoardIn := ⟨n % 3 = 0, .none, none, false⟩

theorem loadBehindAddi_no_write : ∀ n < 10,
    (boardCore loadBehindAddi (fun _ => 0) slowMemory n).writesMinstret
      (boardCoreIn loadBehindAddi (fun _ => 0) slowMemory n) = false := by
  decide +kernel

/-- the `addi` waits in MEM/WB for the load in cycle 5, and is counted in cycle 6 once more -/
theorem addi_counted_twice : ¬ ∀ (prog : Program) (mem : DataMem) (ins : ℕ → BoardIn) (a b : ℕ), a ≤ b →
    (∀ n, a ≤ n → n < b → (boardCore prog mem ins n).writesMinstret (boardCoreIn prog mem ins n) = false) →
      (boardCore prog mem ins b).csr.minstret = (boardCore prog mem ins a).csr.minstret +
        BitVec.ofNat 64 (entered (boardCore prog mem ins) (boardCoreIn prog mem ins) a b) := by
  intro h
  have hholds : (boardCore loadBehindAddi (fun _ => 0) slowMemory 5).holdsWb
      (boardCoreIn loadBehindAddi (fun _ => 0) slowMemory 5) = true := by
    decide +kernel
  have hruns := runs_board loadBehindAddi (fun _ => 0) slowMemory
  have hagain : Again (boardCore loadBehindAddi (fun _ => 0) slowMemory)
      (boardCoreIn loadBehindAddi (fun _ => 0) slowMemory) 6 :=
    (again_succ_iff hruns rfl 5).2 (.inl hholds)
  exact minstret_of_again hruns (loadBehindAddi_no_write 6 (by decide)) hagain
    (h loadBehindAddi (fun _ => 0) slowMemory 6 7 (by decide) fun n _ hn => loadBehindAddi_no_write n (by omega))

theorem minstret_counts_iff_loadBehindAddi :
    (∀ x y, 0 ≤ x → x ≤ y → y ≤ 10 →
      (boardCore loadBehindAddi (fun _ => 0) slowMemory y).csr.minstret =
        (boardCore loadBehindAddi (fun _ => 0) slowMemory x).csr.minstret + BitVec.ofNat 64
          (entered (boardCore loadBehindAddi (fun _ => 0) slowMemory)
            (boardCoreIn loadBehindAddi (fun _ => 0) slowMemory) x y)) ↔
    ∀ n, 0 ≤ n + 1 → n + 1 < 10 →
      (boardCore loadBehindAddi (fun _ => 0) slowMemory n).holdsWb
        (boardCoreIn loadBehindAddi (fun _ => 0) slowMemory n) = false ∧
        ¬ TakenAgain (boardCore loadBehindAddi (fun _ => 0) slowMemory)
          (boardCoreIn loadBehindAddi (fun _ => 0) slowMemory) n :=
  minstret_counts_iff (runs_board loadBehindAddi (fun _ => 0) slowMemory) rfl 0 10 fun n _ hn =>
    loadBehindAddi_no_write n hn

end Rv32imCore

end Vsync
