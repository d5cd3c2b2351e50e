/-
The file-descriptor table of `posix_hw_layer.sv` as a slot table: `open` allocates, `close` releases, and descriptors 0
to 2 are reserved.

- `descriptors`: the table by its valid entries; `fdOps`: what the operation state does to it.
- `freeFd_eq`, `descriptors_fdNext`: the search and the table process are those of `SlotTable`.
- `fd_table_refines`: runs of the layer.

An `open` of a device type above 4 answers ENOENT and takes an entry all the same.
-/
import Vsync.Episodes
import Vsync.SlotTable
import Vsync.Posix.Layer

namespace Vsync

/-- what an open descriptor stands for -/
structure FdInfo where
  fdType : BitVec 3
  baseAddr : Word
  flags : BitVec 16
  deriving DecidableEq, Repr

/-- descriptors 0 to 2 -/
def stdFds : Finset Fd := {0, 1, 2}

theorem notMem_stdFds {i : Fd} : i ∉ stdFds ↔ 3 ≤ i.val := by
  revert i
  decide

/-- the valid entries -/
def descriptors (fd : Fd → FdEntry) : SlotTable Fd FdInfo := fun i =>
  if (fd i).valid then some ⟨(fd i).fdType, (fd i).baseAddr, (fd i).flags⟩ else none

theorem descriptors_eq_none {fd : Fd → FdEntry} {i : Fd} : descriptors fd i = none ↔ (fd i).valid = false := by
  cases h : (fd i).valid <;> simp [descriptors, h]

theorem descriptors_update (fd : Fd → FdEntry) (i : Fd) (e : FdEntry) : descriptors (Function.update fd i e) =
    Function.update (descriptors fd) i (if e.valid then some ⟨e.fdType, e.baseAddr, e.flags⟩ else none) := by
  funext j
  by_cases hj : j = i
  · subst hj
    simp [descriptors]
  · simp [descriptors, Function.update_of_ne hj]

namespace PosixLayer

open Machine Posix

/-- the entry that an `open` makes -/
def openInfo (arg0 arg1 : Word) : FdInfo := ⟨arg0.setWidth 3, getDeviceBase (arg0.setWidth 3), arg1.setWidth 16⟩

section Cycle

variable (s : PosixLayer)

/-- what the cycle does to the table -/
def fdOps : List (SlotTable.Op Fd FdInfo) :=
  if s.state = .fileOp then
    match s.subop with
    | 0 => [.alloc (openInfo s.arg0 s.arg1)]
    | 1 => if s.arg0.toNat < 16 then [.release (lowId 16 s.arg0)] else []
    | _ => []
  else []

theorem freeFd_eq : s.freeFd = SlotTable.lowest stdFds (descriptors s.fd) := by
  have hmem : ∀ i : Fd, i ∈ (List.finRange 16).drop 3 ↔ i ∉ stdFds := by decide
  cases hf : s.freeFd with
  | none =>
    symm
    rw [SlotTable.lowest_eq_none_iff]
    intro j hj
    rw [Ne, descriptors_eq_none]
    simpa using List.find?_eq_none.1 hf j ((hmem j).2 hj)
  | some i =>
    symm
    rw [SlotTable.lowest_eq_some_iff]
    obtain ⟨hvalid, before, after, hlist, hbefore⟩ := List.find?_eq_some_iff_append.1 hf
    refine ⟨⟨(hmem i).1 (List.mem_of_find?_eq_some hf), descriptors_eq_none.2 (by simpa using hvalid)⟩, ?_⟩
    intro j hj
    -- the list is in ascending order, so what comes before `i` in it is smaller
    have hsorted : ((List.finRange 16).drop 3).Pairwise (· < ·) := by decide
    rw [hlist] at hsorted
    have hj' : j ∈ before ++ i :: after := hlist ▸ (hmem j).2 hj.1
    rcases List.mem_append.1 hj' with hb | ha
    · exact absurd (descriptors_eq_none.1 hj.2) (by simpa using hbefore j hb)
    · rcases List.mem_cons.1 ha with rfl | ha
      · exact le_refl _
      · exact ((List.pairwise_cons.1 (List.pairwise_append.1 hsorted).2.1).1 j ha).le

theorem fdOps_open {s : PosixLayer} (hs : s.state = .fileOp) (h : s.subop = 0) :
    s.fdOps = [.alloc (openInfo s.arg0 s.arg1)] := by
  simp [fdOps, hs, h]

theorem fdOps_close {s : PosixLayer} (hs : s.state = .fileOp) (h : s.subop = 1) :
    s.fdOps = if s.arg0.toNat < 16 then [.release (lowId 16 s.arg0)] else [] := by
  simp [fdOps, hs, h]

theorem fdOps_other {s : PosixLayer} (h0 : s.subop ≠ 0) (h1 : s.subop ≠ 1) : s.fdOps = [] := by
  unfold fdOps
  split
  · split
    · next h => exact absurd h h0
    · next h => exact absurd h h1
    · rfl
  · rfl

/-- a `close` of an entry that is not valid, or of a standard descriptor, leaves the table as it is -/
theorem descriptors_close (hs : s.state = .fileOp) (h : s.subop = 1) :
    descriptors s.fdNext = SlotTable.run stdFds (descriptors s.fd) s.fdOps := by
  rw [fdOps_close hs h]
  by_cases hlt : s.arg0.toNat < 16
  · simp only [fdNext, hs, h, hlt, if_true, SlotTable.run, List.foldl_cons, List.foldl_nil, SlotTable.apply, fdOpen,
      decide_true, Bool.true_and]
    by_cases hmem : lowId 16 s.arg0 ∈ stdFds
    · have hle : ¬ 2 < (lowId 16 s.arg0).val := fun hgt => notMem_stdFds.2 hgt hmem
      simp [hmem, hle]
    · have hgt : 2 < (lowId 16 s.arg0).val := notMem_stdFds.1 hmem
      cases hv : (s.fd (lowId 16 s.arg0)).valid with
      | true => simp [hmem, hgt, descriptors_update]
      | false =>
        have hnone : descriptors s.fd (lowId 16 s.arg0) = none := descriptors_eq_none.2 hv
        simp only [hmem, if_false, Bool.false_and, Bool.false_eq_true]
        rw [← hnone, Function.update_eq_self]
  · simp [fdNext, hs, h, hlt, SlotTable.run, fdOpen]

/-- **The table process performs the operation of the cycle.** -/
theorem descriptors_fdNext : descriptors s.fdNext = SlotTable.run stdFds (descriptors s.fd) s.fdOps := by
  by_cases hs : s.state = .fileOp
  · by_cases h0 : s.subop = 0
    · rw [fdOps_open hs h0]
      simp only [fdNext, hs, h0, if_true, SlotTable.run, List.foldl_cons, List.foldl_nil, SlotTable.apply, ← freeFd_eq]
      cases s.freeFd with
      | none => rfl
      | some i => exact descriptors_update _ _ _
    · by_cases h1 : s.subop = 1
      · exact descriptors_close s hs h1
      · rw [fdOps_other h0 h1]
        simp only [fdNext, hs, if_true]
        rfl
  · simp [fdNext, fdOps, hs, SlotTable.run]

end Cycle

/-! ## Runs -/

section Run

variable (ins : ℕ → PosixIn)

def stateAt (n : ℕ) : PosixLayer := trace step reset ins n

/-- the table before cycle `n` -/
def table (n : ℕ) : SlotTable Fd FdInfo := descriptors (stateAt ins n).fd

/-- the operations on the table before cycle `n` -/
def fdLog (n : ℕ) : List (SlotTable.Op Fd FdInfo) := log (fun s _ => s.fdOps) step reset ins n

def Accepts (n : ℕ) (num : BitVec 8) : Prop := (stateAt ins n).latches (ins n) = true ∧ (ins n).syscallNum = num

/-- a call taken in cycle `n` has been answered with `ret` three cycles later, and the table is then `t` -/
def Answered (n : ℕ) (ret : Word) (t : SlotTable Fd FdInfo) : Prop :=
  (stateAt ins (n + 3)).syscallDone = some ret ∧ table ins (n + 3) = t

theorem table_succ (n : ℕ) : table ins (n + 1) = SlotTable.run stdFds (table ins n) (stateAt ins n).fdOps :=
  descriptors_fdNext (stateAt ins n)

theorem table_run (n : ℕ) : table ins n = SlotTable.run stdFds (table ins 0) (fdLog ins n) := by
  induction n with
  | zero => rfl
  | succ n ih =>
    calc table ins (n + 1) = SlotTable.run stdFds (table ins n) (stateAt ins n).fdOps := table_succ ins n
      _ = SlotTable.run stdFds (SlotTable.run stdFds (table ins 0) (fdLog ins n)) (stateAt ins n).fdOps := by rw [ih]
      _ = SlotTable.run stdFds (table ins 0) (fdLog ins (n + 1)) := (SlotTable.run_append _ _).symm

variable {ins}

/-- a file call is in its operation state two cycles after it is taken, with the table unchanged -/
theorem fileOp_of_accepts {n : ℕ} {num : BitVec 8} (h : Accepts ins n num) (hfile : num.toNat / 16 = 5) :
    (stateAt ins (n + 2)).state = .fileOp ∧ (stateAt ins (n + 2)).num = num ∧
      (stateAt ins (n + 2)).arg0 = (ins n).syscallArg0 ∧ (stateAt ins (n + 2)).arg1 = (ins n).syscallArg1 ∧
      (stateAt ins (n + 2)).fd = (stateAt ins n).fd := by
  obtain ⟨hlatch, hnum⟩ := h
  obtain ⟨hreq, hidle⟩ : (ins n).ecallReq = true ∧ (stateAt ins n).state = .idle := by simpa [latches] using hlatch
  have h1 : stateAt ins (n + 1) = (stateAt ins n).step (ins n) := rfl
  have h2 : stateAt ins (n + 2) = (stateAt ins (n + 1)).step (ins (n + 1)) := rfl
  have hdecode : (stateAt ins (n + 1)).state = .decode := by simp [h1, step, stateNext, hidle, hreq]
  have hnum1 : (stateAt ins (n + 1)).num = num := by simp [h1, step, hlatch, hnum]
  have harg0 : (stateAt ins (n + 1)).arg0 = (ins n).syscallArg0 := by simp [h1, step, hlatch]
  have harg1 : (stateAt ins (n + 1)).arg1 = (ins n).syscallArg1 := by simp [h1, step, hlatch]
  have hfd : (stateAt ins (n + 1)).fd = (stateAt ins n).fd := by simp [h1, step, fdNext, hidle]
  have hcat : (stateAt ins (n + 1)).category = 5 := by rw [category, hnum1, hfile]
  refine ⟨?_, ?_, ?_, ?_, ?_⟩
  · simp [h2, step, stateNext, hdecode, hcat]
  · simp [h2, step, latches, hdecode, hnum1]
  · simp [h2, step, latches, hdecode, harg0]
  · simp [h2, step, latches, hdecode, harg1]
  · simp [h2, step, fdNext, hdecode, hfd]

/-- the answer of a file call that needs no peripheral -/
theorem answered_of_fileOp {n : ℕ} (hs : (stateAt ins (n + 2)).state = .fileOp)
    (hreq : (stateAt ins (n + 2)).fileReq = none) :
    Answered ins n (stateAt ins (n + 2)).fileResult
      (SlotTable.run stdFds (table ins (n + 2)) (stateAt ins (n + 2)).fdOps) := by
  have h3 : stateAt ins (n + 3) = (stateAt ins (n + 2)).step (ins (n + 2)) := rfl
  refine ⟨?_, table_succ ins (n + 2)⟩
  simp [h3, syscallDone, step, stateNext, resultNext, hs, hreq]

/-- an `open` is answered with what the search finds -/
theorem open_answered {n : ℕ} (h : Accepts ins n 0x50) (htype : (ins n).syscallArg0.toNat % 8 < 5) :
    match SlotTable.lowest stdFds (table ins n) with
    | some j => Answered ins n (BitVec.ofNat 32 j.val)
        (Function.update (table ins n) j (some (openInfo (ins n).syscallArg0 (ins n).syscallArg1)))
    | none => Answered ins n EMFILE (table ins n) := by
  obtain ⟨hs, hnum, harg0, harg1, hfd⟩ := fileOp_of_accepts h (by decide)
  have hsub : (stateAt ins (n + 2)).subop = 0 := by rw [subop, hnum]; decide
  have htable : table ins (n + 2) = table ins n := by rw [table, hfd]; rfl
  have hans := answered_of_fileOp hs (by simp [fileReq, hsub])
  rw [fdOps_open hs hsub, harg0, harg1, htable] at hans
  have hres : (stateAt ins (n + 2)).fileResult = match SlotTable.lowest stdFds (table ins n) with
      | some j => BitVec.ofNat 32 j.val
      | none => EMFILE := by
    simp only [fileResult, hsub, harg0, htype, if_true, freeFd_eq, hfd]
    rfl
  rw [hres] at hans
  cases hl : SlotTable.lowest stdFds (table ins n) with
  | none => simpa [hl, SlotTable.run, SlotTable.apply] using hans
  | some j => simpa [hl, SlotTable.run, SlotTable.apply] using hans

theorem close_answered {n : ℕ} {j : Fd} (h : Accepts ins n 0x51) (hj : (ins n).syscallArg0.toNat = j.val)
    (hstd : j ∉ stdFds) (hopen : table ins n j ≠ none) :
    Answered ins n 0 (Function.update (table ins n) j none) := by
  obtain ⟨hs, hnum, harg0, -, hfd⟩ := fileOp_of_accepts h (by decide)
  have hsub : (stateAt ins (n + 2)).subop = 1 := by rw [subop, hnum]; decide
  have htable : table ins (n + 2) = table ins n := by rw [table, hfd]; rfl
  have hlt : (stateAt ins (n + 2)).arg0.toNat < 16 := by rw [harg0, hj]; exact j.isLt
  have hlow : lowId 16 (stateAt ins (n + 2)).arg0 = j := by
    apply Fin.ext
    rw [harg0]
    change (ins n).syscallArg0.toNat % 16 = j.val
    rw [hj, Nat.mod_eq_of_lt j.isLt]
  have hvalid : ((stateAt ins n).fd j).valid = true := by
    have hne : ((stateAt ins n).fd j).valid ≠ false := fun hv => hopen (descriptors_eq_none.2 hv)
    simpa using hne
  have hans := answered_of_fileOp hs (by simp [fileReq, hsub])
  rw [fdOps_close hs hsub, if_pos hlt, hlow, htable] at hans
  have hres : (stateAt ins (n + 2)).fileResult = 0 := by
    have hgt : ¬ j.val ≤ 2 := Nat.not_le.2 (notMem_stdFds.1 hstd)
    simp [fileResult, hsub, fdOpen, hlt, hlow, hfd, hvalid, hgt]
  rw [hres] at hans
  simpa [SlotTable.run, SlotTable.apply, hstd] using hans

theorem table_between (ins : ℕ → PosixIn) {n m : ℕ} (hnm : n ≤ m) :
    ∃ ops, table ins m = SlotTable.run stdFds (table ins n) ops ∧
      ∀ op ∈ ops, ∃ k, n ≤ k ∧ k < m ∧ op ∈ (stateAt ins k).fdOps := by
  induction m, hnm using Nat.le_induction with
  | base => exact ⟨[], rfl, fun op hop => absurd hop List.not_mem_nil⟩
  | succ m hnm ih =>
    obtain ⟨ops, htable, hops⟩ := ih
    refine ⟨ops ++ (stateAt ins m).fdOps, ?_, ?_⟩
    · rw [table_succ, htable, SlotTable.run_append]
    · intro op hop
      rcases List.mem_append.1 hop with hold | hnew
      · obtain ⟨k, hnk, hkm, hk⟩ := hops op hold
        exact ⟨k, hnk, Nat.lt_succ_of_lt hkm, hk⟩
      · exact ⟨m, hnm, Nat.lt_succ_self m, hnew⟩

def Closes (ins : ℕ → PosixIn) (n : ℕ) (i : Fd) : Prop :=
  (stateAt ins n).state = .fileOp ∧ (stateAt ins n).subop = 1 ∧ (stateAt ins n).arg0.toNat = i.val

theorem closes_of_release {n : ℕ} {i : Fd} (h : SlotTable.Op.release i ∈ (stateAt ins n).fdOps) : Closes ins n i := by
  unfold fdOps at h
  split at h
  · next hs =>
    split at h
    · simp at h
    · next hsub =>
      split at h
      · next hlt =>
        obtain rfl : i = lowId 16 (stateAt ins n).arg0 := by simpa using h
        refine ⟨hs, hsub, ?_⟩
        change _ = (stateAt ins n).arg0.toNat % 16
        rw [Nat.mod_eq_of_lt hlt]
      · simp at h
    · simp at h
  · simp at h

/-- **The descriptor table is a finite map.** An `open` of a device type up to 4 takes the lowest free descriptor from 3
on, or answers EMFILE; a `close` of an open descriptor from 3 on frees it; what is open stays as it is until it is
closed; and descriptors 0 to 2 stay as they are. -/
theorem fd_table_refines (ins : ℕ → PosixIn) :
    (∀ n, Accepts ins n 0x50 → (ins n).syscallArg0.toNat % 8 < 5 →
      (∀ j, IsLeast {i | 3 ≤ i.val ∧ table ins n i = none} j → Answered ins n (BitVec.ofNat 32 j.val)
        (Function.update (table ins n) j (some (openInfo (ins n).syscallArg0 (ins n).syscallArg1)))) ∧
      ((∀ i, 3 ≤ i.val → table ins n i ≠ none) → Answered ins n EMFILE (table ins n))) ∧
    (∀ n j, Accepts ins n 0x51 → (ins n).syscallArg0.toNat = j.val → 3 ≤ j.val → table ins n j ≠ none →
      Answered ins n 0 (Function.update (table ins n) j none)) ∧
    (∀ n m i info, n ≤ m → table ins n i = some info → (∀ k, n ≤ k → k < m → ¬ Closes ins k i) →
      table ins m i = some info) ∧
    ∀ n i, i.val < 3 → table ins n i = some ⟨FD_TYPE_UART, ADDR_UART_BASE, if i = 0 then 0 else 1⟩ := by
  refine ⟨?_, ?_, ?_, ?_⟩
  · intro n haccepts htype
    have hans := open_answered haccepts htype
    refine ⟨fun j hj => ?_, fun hfull => ?_⟩
    · have hset : {i : Fd | 3 ≤ i.val ∧ table ins n i = none} = {i | i ∉ stdFds ∧ table ins n i = none} := by
        ext i
        simp only [Set.mem_ofPred_eq, notMem_stdFds]
      have hlowest := SlotTable.lowest_eq_some_iff.2 (hset ▸ hj)
      rwa [hlowest] at hans
    · have hlowest := SlotTable.lowest_eq_none_iff.2 fun i hi => hfull i (notMem_stdFds.1 hi)
      rwa [hlowest] at hans
  · intro n j haccepts harg hstd hopen
    exact close_answered haccepts harg (notMem_stdFds.2 hstd) hopen
  · intro n m i info hnm hinfo hkeep
    obtain ⟨ops, htable, hops⟩ := table_between ins hnm
    rw [htable]
    apply SlotTable.run_kept hinfo
    intro hrelease
    obtain ⟨k, hnk, hkm, hk⟩ := hops _ hrelease
    exact hkeep k hnk hkm (closes_of_release hk)
  · intro n i hi
    have hstd : i ∈ stdFds := by
      by_contra hmem
      exact absurd (notMem_stdFds.1 hmem) (Nat.not_le.2 hi)
    rw [table_run, SlotTable.run_reserved hstd]
    change descriptors reset.fd i = _
    revert i
    decide

def openClose (k : ℕ) : PosixIn where
  ecallReq := true
  syscallNum := if k = 0 then 0x50 else 0x51
  syscallArg0 := if k = 0 then 1 else 3
  syscallArg1 := 2
  syscallArg2 := 0
  taskCreateDone := none
  taskJoinDone := false
  semDone := none
  mutexDone := none
  msgqDone := none
  currentTid := 0
  periphRdata := 0
  periphReady := false

theorem fd_table_refines_openClose :
    Answered openClose 0 3 (Function.update (table openClose 0) 3 (some ⟨FD_TYPE_UART, ADDR_UART_BASE, 2⟩)) ∧
    Answered openClose 4 0 (Function.update (table openClose 4) 3 none) := by
  obtain ⟨hopen, hclose, -, -⟩ := fd_table_refines openClose
  refine ⟨?_, ?_⟩
  · exact (hopen 0 ⟨by decide, by decide⟩ (by decide)).1 3 ⟨⟨by decide, by decide⟩, fun i hi => hi.1⟩
  · exact hclose 4 3 ⟨by decide, by decide⟩ (by decide) (by decide) (by decide)

end Run

end PosixLayer

end Vsync
