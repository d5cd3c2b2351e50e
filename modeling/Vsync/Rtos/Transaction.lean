/-
The transaction of the context-switch unit, in any run of it.

- `save_run`, `load_run`, `done_of_request`: the unit cycle by cycle: 31 cycles of save, 31 cycles of load.
- `save_frame`, `load_frame`: what a transaction leaves alone.
- `load_port`, `restore_of_request`: what it delivers.
-/
import Vsync.Rtos.HwRtos

namespace Vsync

/-! ## Counting registers -/

theorem ofNat_ne_last {n : ℕ} (hn : n < 31) : BitVec.ofNat 5 n ≠ 31#5 := by
  intro hc
  have := congrArg BitVec.toNat hc
  simp only [BitVec.toNat_ofNat] at this
  change n % 32 = 31 at this
  omega

theorem ofNat_succ (n : ℕ) : BitVec.ofNat 5 n + 1 = BitVec.ofNat 5 (n + 1) := (BitVec.ofNat_add n 1).symm

namespace ContextSwitch

/-- the unit `u n` before cycle `n` reads a request, the data of the save port and a pc in it -/
def Runs (u : ℕ → ContextSwitch) (req : ℕ → Option (TaskId × TaskId)) (rdata pc : ℕ → Word) : Prop :=
  ∀ n, u (n + 1) = (u n).step (req n) (rdata n) (pc n)

section Step

variable {s : ContextSwitch} {req : Option (TaskId × TaskId)} {rdata pc : Word}

theorem step_of_request {old new : TaskId} (h : s.state = .idle) (hreq : req = some (old, new)) :
    s.step req rdata pc =
      { s with state := .save, regIdx := 1, oldIdLatched := old, newIdLatched := new,
               savedPc := Function.update s.savedPc old pc } := by
  simp [step, h, hreq]

def savedBank (s : ContextSwitch) (rdata : Word) : RegAddr → Word :=
  Function.update (s.regBanks s.oldIdLatched) s.regIdx rdata

theorem step_of_save (h : s.state = .save) (hr : s.regIdx ≠ 31#5) :
    s.step req rdata pc =
      { s with regBanks := Function.update s.regBanks s.oldIdLatched (s.savedBank rdata), regIdx := s.regIdx + 1 } := by
  simp [step, h, hr, savedBank]

theorem step_of_save_last (h : s.state = .save) (hr : s.regIdx = 31#5) :
    s.step req rdata pc =
      { s with
        regBanks := Function.update s.regBanks s.oldIdLatched (s.savedBank rdata), state := .load, regIdx := 1 } := by
  simp [step, h, hr, savedBank]

theorem step_of_load (h : s.state = .load) (hr : s.regIdx ≠ 31#5) :
    s.step req rdata pc = { s with regIdx := s.regIdx + 1 } := by
  simp [step, h, hr]

theorem step_of_load_last (h : s.state = .load) (hr : s.regIdx = 31#5) :
    (s.step req rdata pc).state = .done := by
  simp [step, h, hr]

theorem step_of_done (h : s.state = .done) : (s.step req rdata pc).state = .idle := by simp [step, h]

end Step

section Transaction

variable {u : ℕ → ContextSwitch} {req : ℕ → Option (TaskId × TaskId)} {rdata pc : ℕ → Word} {t : ℕ} {old new : TaskId}

/-- **The save**: entry `r` of the bank takes what the save port shows `r` cycles after the request. -/
theorem save_run (hu : Runs u req rdata pc) (hidle : (u t).state = .idle) (hreq : req t = some (old, new)) (n : ℕ)
    (hn : n < 31) :
    (u (t + 1 + n)).state = .save ∧ (u (t + 1 + n)).regIdx = BitVec.ofNat 5 (n + 1) ∧
      (u (t + 1 + n)).oldIdLatched = old ∧
        ∀ r : RegAddr, r ≠ 0#5 → r.toNat ≤ n → (u (t + 1 + n)).regBanks old r = rdata (t + r.toNat) := by
  induction n with
  | zero =>
    rw [Nat.add_zero, hu, step_of_request hidle hreq]
    refine ⟨rfl, rfl, rfl, fun r hr hle => ?_⟩
    exact absurd (BitVec.eq_of_toNat_eq (by simpa using hle)) hr
  | succ n ih =>
    obtain ⟨h1, h2, h3, h4⟩ := ih (by omega)
    have hlast : (u (t + 1 + n)).regIdx ≠ 31#5 := by
      rw [h2]
      exact ofNat_ne_last hn
    rw [← Nat.add_assoc, hu, step_of_save h1 hlast]
    refine ⟨h1, ?_, h3, fun r hr hle => ?_⟩
    · dsimp only
      rw [h2, ofNat_succ]
    · dsimp only
      rw [h3, Function.update_self, savedBank, h2, h3]
      by_cases heq : r.toNat = n + 1
      · have hrn : BitVec.ofNat 5 (n + 1) = r := by rw [← heq, BitVec.ofNat_toNat, BitVec.setWidth_eq]
        rw [hrn, Function.update_self, heq, ← Nat.add_assoc, Nat.add_right_comm]
      · have hrn : r ≠ BitVec.ofNat 5 (n + 1) := by
          rintro rfl
          apply heq
          rw [BitVec.toNat_ofNat]
          omega
        rw [Function.update_of_ne hrn]
        exact h4 r hr (by omega)

theorem load_begins (hu : Runs u req rdata pc) (hidle : (u t).state = .idle) (hreq : req t = some (old, new)) :
    (u (t + 32)).state = .load ∧ (u (t + 32)).regIdx = 1 ∧
      ∀ r : RegAddr, r ≠ 0#5 → (u (t + 32)).regBanks old r = rdata (t + r.toNat) := by
  obtain ⟨h1, h2, h3, h4⟩ := save_run hu hidle hreq 30 (by omega)
  rw [show t + 32 = t + 1 + 30 + 1 by omega, hu, step_of_save_last h1 h2]
  refine ⟨rfl, rfl, fun r hr => ?_⟩
  dsimp only
  rw [h3, Function.update_self, savedBank, h2, h3]
  by_cases hlast : r = 31#5
  · rw [hlast]
    exact Function.update_self ..
  · rw [Function.update_of_ne (show r ≠ BitVec.ofNat 5 (30 + 1) from hlast)]
    refine h4 r hr ?_
    have hlt := r.isLt
    have : r.toNat ≠ 31 := fun hc => hlast (BitVec.eq_of_toNat_eq hc)
    omega

theorem load_run (hu : Runs u req rdata pc) (hidle : (u t).state = .idle) (hreq : req t = some (old, new)) (n : ℕ)
    (hn : n < 31) : (u (t + 32 + n)).state = .load ∧ (u (t + 32 + n)).regIdx = BitVec.ofNat 5 (n + 1) := by
  induction n with
  | zero =>
    obtain ⟨h1, h2, -⟩ := load_begins hu hidle hreq
    exact ⟨h1, h2⟩
  | succ n ih =>
    obtain ⟨h1, h2⟩ := ih (by omega)
    have hlast : (u (t + 32 + n)).regIdx ≠ 31#5 := by
      rw [h2]
      exact ofNat_ne_last hn
    rw [← Nat.add_assoc, hu, step_of_load h1 hlast]
    refine ⟨h1, ?_⟩
    dsimp only
    rw [h2, ofNat_succ]

/-- **The transaction is done** 63 cycles after the request. -/
theorem done_of_request (hu : Runs u req rdata pc) (hidle : (u t).state = .idle) (hreq : req t = some (old, new)) :
    (u (t + 63)).state = .done ∧ (u (t + 64)).state = .idle := by
  obtain ⟨h1, h2⟩ := load_run hu hidle hreq 30 (by omega)
  have hdone : (u (t + 63)).state = .done := by
    rw [show t + 63 = t + 32 + 30 + 1 by omega, hu]
    exact step_of_load_last h1 h2
  refine ⟨hdone, ?_⟩
  rw [show t + 64 = t + 63 + 1 by omega, hu]
  exact step_of_done hdone

/-- what the save leaves alone -/
theorem save_frame (hu : Runs u req rdata pc) (hidle : (u t).state = .idle) (hreq : req t = some (old, new)) (n : ℕ)
    (hn : n < 31) :
    (u (t + 1 + n)).newIdLatched = new ∧ (u (t + 1 + n)).savedPc = Function.update (u t).savedPc old (pc t) ∧
      (u (t + 1 + n)).restorePcReg = (u t).restorePcReg ∧
        ∀ x, x ≠ old → (u (t + 1 + n)).regBanks x = (u t).regBanks x := by
  induction n with
  | zero =>
    rw [Nat.add_zero, hu, step_of_request hidle hreq]
    exact ⟨rfl, rfl, rfl, fun _ _ => rfl⟩
  | succ n ih =>
    obtain ⟨h1, h2, h3, h4⟩ := ih (by omega)
    obtain ⟨hst, hidx, hold, -⟩ := save_run hu hidle hreq n (by omega)
    have hlast : (u (t + 1 + n)).regIdx ≠ 31#5 := by
      rw [hidx]
      exact ofNat_ne_last hn
    rw [← Nat.add_assoc, hu, step_of_save hst hlast]
    refine ⟨h1, h2, h3, fun x hx => ?_⟩
    dsimp only
    rw [hold, Function.update_of_ne hx]
    exact h4 x hx

/-- what the load works with -/
theorem load_frame (hu : Runs u req rdata pc) (hidle : (u t).state = .idle) (hreq : req t = some (old, new)) (n : ℕ)
    (hn : n < 31) :
    (u (t + 32 + n)).newIdLatched = new ∧ (u (t + 32 + n)).savedPc = Function.update (u t).savedPc old (pc t) ∧
      (u (t + 32 + n)).restorePcReg = (u t).restorePcReg ∧
        ∀ x, x ≠ old → (u (t + 32 + n)).regBanks x = (u t).regBanks x := by
  induction n with
  | zero =>
    obtain ⟨h1, h2, h3, h4⟩ := save_frame hu hidle hreq 30 (by omega)
    obtain ⟨hst, hidx, hold, -⟩ := save_run hu hidle hreq 30 (by omega)
    rw [Nat.add_zero, show t + 32 = t + 1 + 30 + 1 by omega, hu, step_of_save_last hst hidx]
    refine ⟨h1, h2, h3, fun x hx => ?_⟩
    dsimp only
    rw [hold, Function.update_of_ne hx]
    exact h4 x hx
  | succ n ih =>
    obtain ⟨h1, h2, h3, h4⟩ := ih (by omega)
    obtain ⟨hst, hidx⟩ := load_run hu hidle hreq n (by omega)
    have hlast : (u (t + 32 + n)).regIdx ≠ 31#5 := by
      rw [hidx]
      exact ofNat_ne_last hn
    rw [← Nat.add_assoc, hu, step_of_load hst hlast]
    exact ⟨h1, h2, h3, h4⟩

theorem load_banks (hu : Runs u req rdata pc) (hidle : (u t).state = .idle) (hreq : req t = some (old, new)) (n : ℕ)
    (hn : n < 31) : (u (t + 32 + n)).regBanks = (u (t + 32)).regBanks := by
  induction n with
  | zero => rfl
  | succ n ih =>
    obtain ⟨hst, hidx⟩ := load_run hu hidle hreq n (by omega)
    have hlast : (u (t + 32 + n)).regIdx ≠ 31#5 := by
      rw [hidx]
      exact ofNat_ne_last hn
    rw [← Nat.add_assoc, hu, step_of_load hst hlast]
    exact ih (by omega)

/-- what the transaction leaves when it is done -/
theorem done_frame (hu : Runs u req rdata pc) (hidle : (u t).state = .idle) (hreq : req t = some (old, new)) :
    (u (t + 63)).regBanks = (u (t + 32)).regBanks ∧
      (u (t + 63)).savedPc = Function.update (u t).savedPc old (pc t) := by
  obtain ⟨hst, hidx⟩ := load_run hu hidle hreq 30 (by omega)
  obtain ⟨-, hpc, -⟩ := load_frame hu hidle hreq 30 (by omega)
  have hbanks := load_banks hu hidle hreq 30 (by omega)
  rw [show t + 63 = t + 32 + 30 + 1 by omega, hu]
  simp only [step, hst, hidx]
  exact ⟨hbanks, hpc⟩

/-- **The load**: the write port shows entry `r` of the new bank, `r` cycles after it began. -/
theorem load_port (hu : Runs u req rdata pc) (hidle : (u t).state = .idle) (hreq : req t = some (old, new))
    (r : RegAddr) (hr : r ≠ 0#5) :
    (u (t + 31 + r.toNat)).cpuRegWe = true ∧ (u (t + 31 + r.toNat)).cpuRegAddr = r ∧
      (u (t + 31 + r.toNat)).cpuRegWdata = (u (t + 31 + r.toNat)).regBanks new r := by
  have hpos : r.toNat ≠ 0 := fun hc => hr (BitVec.eq_of_toNat_eq hc)
  have hlt := r.isLt
  obtain ⟨n, hn⟩ : ∃ n, r.toNat = n + 1 := ⟨r.toNat - 1, by omega⟩
  have hidx : BitVec.ofNat 5 (n + 1) = r := by rw [← hn, BitVec.ofNat_toNat, BitVec.setWidth_eq]
  rw [show t + 31 + r.toNat = t + 32 + n by omega]
  obtain ⟨hst, hrx⟩ := load_run hu hidle hreq n (by omega)
  obtain ⟨hnew, -⟩ := load_frame hu hidle hreq n (by omega)
  rw [hidx] at hrx
  simp [cpuRegWe, cpuRegAddr, cpuRegWdata, hst, hrx, hnew]

/-- the pc that the transaction delivers -/
theorem restore_of_request (hu : Runs u req rdata pc) (hidle : (u t).state = .idle) (hreq : req t = some (old, new))
    (hne : new ≠ old) : (u (t + 63)).restorePcReg = (u t).savedPc new := by
  obtain ⟨hst, hidx⟩ := load_run hu hidle hreq 30 (by omega)
  obtain ⟨hnew, hpc, -⟩ := load_frame hu hidle hreq 30 (by omega)
  rw [show t + 63 = t + 32 + 30 + 1 by omega, hu]
  simp only [step, hst, hidx]
  change (u (t + 32 + 30)).savedPc (u (t + 32 + 30)).newIdLatched = _
  rw [hnew, hpc, Function.update_of_ne hne]

end Transaction

end ContextSwitch

end Vsync
