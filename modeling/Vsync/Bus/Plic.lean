/-
`plic.sv` as the top level instantiates it: sixteen sources, one target, priorities of three bits.

- `Plic`, `PlicIn`: the registers, and the APB port with the interrupt lines; `claims`, `completesFor`, `rises`: a claim
  and a completion of a source, and a rising edge of its line.
- `best_eq_scan`: the arbitration is the priority scan over the candidates.
- `PlicLaw`: claims alternate with completions, each claim has an edge of its own, an edge is kept until it is claimed,
  and what a claim returns and `ext_irq` are the arbitration.
- `claim_complete`: so it is in every run.
-/
import Vsync.Machine
import Vsync.PriorityScan
import Vsync.Pkg

namespace Vsync

open Machine PriorityScan

/-- an index into `irq_sources`; the id of the source is one more -/
abbrev Source := Fin 16

/-- the registers -/
structure Plic where
  sourcePriority : Source → BitVec 3
  pending : Source → Bool
  enable : Source → Bool
  threshold : BitVec 3
  claimed : Source → Bool
  irqSourcesPrev : Source → Bool

/-- the APB port and the interrupt lines -/
structure PlicIn where
  psel : Bool
  penable : Bool
  pwrite : Bool
  paddr : BitVec 16
  pwdata : Word
  irqSources : Source → Bool

def sourceId (s : Source) : BitVec 5 := BitVec.ofNat 5 (s + 1)

namespace PlicIn

variable (i : PlicIn)

def writeEn : Bool := i.psel && i.penable && i.pwrite

def readEn : Bool := i.psel && i.penable && !i.pwrite

def prioSrcIdx : BitVec 16 := i.paddr >>> 2

def prioAddrValid : Bool := i.paddr.ult 0x40

def completeId : BitVec 5 := i.pwdata.setWidth 5

def completeValid : Bool := i.completeId != 0 && i.completeId.ule 16

def claimRead : Bool := i.readEn && i.paddr == 0x204

/-- a completion write with a valid id -/
def completes : Bool := i.writeEn && i.paddr == 0x204 && i.completeValid

/-- a completion of the source -/
def completesFor (s : Source) : Bool := i.completes && i.completeId == sourceId s

end PlicIn

namespace Plic

variable (p : Plic) (i : PlicIn)

def irqRisingEdge (s : Source) : Bool := i.irqSources s && !p.irqSourcesPrev s

/-- the loop body of the arbitration, over `best_id` and `best_prio` -/
def bestStep (best : BitVec 5 × BitVec 3) (s : Source) : BitVec 5 × BitVec 3 :=
  if p.pending s && p.enable s && !p.claimed s then
    if best.2 < p.sourcePriority s then (sourceId s, p.sourcePriority s) else best
  else best

def best : BitVec 5 × BitVec 3 := (List.finRange 16).foldl p.bestStep (0, 0)

def bestId : BitVec 5 := p.best.1

def bestPrio : BitVec 3 := p.best.2

def extIrq : Bool := p.bestId != 0 && p.threshold.ult p.bestPrio

def claimId : BitVec 5 := if i.claimRead then p.bestId else 0

def bits (mask : Source → Bool) : Word := (BitVec.ofBoolListLE (List.ofFn mask)).setWidth 32

def prdata : Word :=
  if i.readEn then
    if i.paddr = 0x204 then p.bestId.setWidth 32
    else if i.paddr = 0x200 then p.threshold.setWidth 32
    else if i.paddr = 0x100 then bits p.enable
    else if i.paddr = 0x080 then bits p.pending
    else if i.prioAddrValid then (p.sourcePriority (Fin.ofNat 16 i.prioSrcIdx.toNat)).setWidth 32
    else 0
  else 0

def step : Plic where
  sourcePriority s :=
    if i.writeEn && i.prioAddrValid && i.prioSrcIdx == BitVec.ofNat 16 s then i.pwdata.setWidth 3
      else p.sourcePriority s
  pending s :=
    if p.irqRisingEdge i s then true
    else if i.claimRead && p.claimId i == sourceId s then false
    else p.pending s
  enable := if i.writeEn && i.paddr == 0x100 then fun s => i.pwdata.getLsbD s else p.enable
  threshold := if i.writeEn && i.paddr == 0x200 then i.pwdata.setWidth 3 else p.threshold
  -- the later of the two assignments wins, though no cycle makes both
  claimed s :=
    if i.completes && (i.completeId - 1).toNat == s then false
    else if i.claimRead && p.claimId i != 0 && (p.claimId i - 1).toNat == s then true
    else p.claimed s
  irqSourcesPrev := i.irqSources

def reset : Plic where
  sourcePriority _ := 0
  pending _ := false
  enable _ := false
  threshold := 0
  claimed _ := false
  irqSourcesPrev _ := false

def claims (s : Source) : Bool := i.claimRead && p.claimId i == sourceId s

/-- enabled, pending and unclaimed -/
def Active (s : Source) : Prop := p.enable s = true ∧ p.pending s = true ∧ p.claimed s = false

/-- one with a priority that the arbitration looks at -/
def candidate (s : Source) : Bool := p.enable s && p.pending s && !p.claimed s && p.sourcePriority s != 0

/-- the key of the arbitration -/
def level (s : Source) : ℕ := (p.sourcePriority s).toNat

end Plic

def rises (ins : ℕ → PlicIn) (s : Source) : ℕ → Bool
  | 0 => (ins 0).irqSources s
  | n + 1 => (ins (n + 1)).irqSources s && !(ins n).irqSources s

/-! ## One cycle -/

theorem sourceId_ne_zero (s : Source) : sourceId s ≠ 0 := by
  revert s
  decide

theorem sourceId_inj {s t : Source} (h : sourceId s = sourceId t) : s = t := by
  revert s t
  decide

theorem index_eq_iff {x : BitVec 5} (hx : x ≠ 0) (s : Source) : (x - 1).toNat = s ↔ x = sourceId s := by
  have hs := s.isLt
  have hid : (sourceId s).toNat = s + 1 := by
    rw [sourceId, BitVec.toNat_ofNat, Nat.mod_eq_of_lt (by omega)]
  have hsub : (x - 1).toNat + 1 = x.toNat := by bv_omega
  rw [← BitVec.toNat_inj, hid, ← hsub]
  omega

namespace Plic

variable {p : Plic} {i : PlicIn} {s : Source}

theorem claims_read (h : p.claims i s = true) : i.claimRead = true := by
  rw [claims, Bool.and_eq_true] at h
  exact h.1

/-- a claim is a read, a completion a write -/
theorem not_completes_of_claims (h : p.claims i s = true) (t : Source) : i.completesFor t = false := by
  have hread := claims_read h
  simp only [PlicIn.claimRead, PlicIn.readEn, Bool.and_eq_true, Bool.not_eq_true'] at hread
  simp [PlicIn.completesFor, PlicIn.completes, PlicIn.writeEn, hread.1.2]

theorem step_pending : (p.step i).pending s =
    if p.irqRisingEdge i s then true else if p.claims i s then false else p.pending s := rfl

theorem step_claimed : (p.step i).claimed s =
    if i.completesFor s then false else if p.claims i s then true else p.claimed s := by
  have hcompletes : (i.completes && (i.completeId - 1).toNat == s) = i.completesFor s := by
    rw [PlicIn.completesFor]
    by_cases hc : i.completes = true
    · have hne : i.completeId ≠ 0 := by
        intro h0
        simp [PlicIn.completes, PlicIn.completeValid, h0] at hc
      simp only [hc, Bool.true_and, Bool.beq_eq_decide_eq, index_eq_iff hne]
    · simp [hc]
  have hclaims : (i.claimRead && p.claimId i != 0 && (p.claimId i - 1).toNat == s) = p.claims i s := by
    rw [claims]
    by_cases hne : p.claimId i = 0
    · have hid : ¬ (0#5) = sourceId s := (sourceId_ne_zero s).symm
      simp [hne, hid]
    · simp only [Bool.and_assoc, bne_iff_ne.2 hne, Bool.true_and, Bool.beq_eq_decide_eq, index_eq_iff hne]
  rw [← hcompletes, ← hclaims]
  rfl

/-- what the arbitration keeps of a candidate -/
def chosen (p : Plic) : Option Source → BitVec 5 × BitVec 3
  | none => (0, 0)
  | some s => (sourceId s, p.sourcePriority s)

theorem bestStep_chosen (b : Option Source) (s : Source) :
    p.bestStep (p.chosen b) s = p.chosen (keep p.candidate p.level b s) := by
  have hcand : p.candidate s = ((p.pending s && p.enable s && !p.claimed s) && p.sourcePriority s != 0) := by
    rw [candidate, Bool.and_comm (p.enable s)]
  unfold bestStep keep
  rw [hcand]
  by_cases hact : (p.pending s && p.enable s && !p.claimed s) = true
  · rw [if_pos hact, hact, Bool.true_and]
    cases b with
    | none =>
      by_cases h0 : p.sourcePriority s = 0#3
      · simp [chosen, h0]
      · have hpos : 0#3 < p.sourcePriority s := by bv_omega
        simp [chosen, h0, hpos]
    | some c =>
      by_cases hlt : p.sourcePriority c < p.sourcePriority s
      · have h0 : p.sourcePriority s ≠ 0#3 := by bv_omega
        have hlevel : p.level c < p.level s := hlt
        simp [chosen, hlt, h0, hlevel]
      · have hlevel : ¬ p.level c < p.level s := hlt
        by_cases h0 : p.sourcePriority s = 0#3 <;> simp [chosen, hlt, h0, hlevel]
  · simp [hact]

/-- **The arbitration is the priority scan over the candidates.** -/
theorem best_eq_scan (p : Plic) : p.best = p.chosen (scan p.candidate p.level (List.finRange 16)) := by
  have hfold : ∀ (l : List Source) (b : Option Source),
      l.foldl p.bestStep (p.chosen b) = p.chosen (l.foldl (keep p.candidate p.level) b) := by
    intro l
    induction l with
    | nil => exact fun _ => rfl
    | cons s l ih =>
      intro b
      rw [List.foldl_cons, List.foldl_cons, bestStep_chosen, ih]
  exact hfold (List.finRange 16) none

/-- `ext_irq` is up exactly if a source that the arbitration may look at is above the threshold -/
theorem extIrq_iff (p : Plic) : p.extIrq = true ↔ ∃ s, p.Active s ∧ p.threshold < p.sourcePriority s := by
  have hsorted : (List.finRange 16).Pairwise (· < ·) := by decide
  have hbest := best_eq_scan p
  rw [extIrq, bestId, bestPrio, hbest, Bool.and_eq_true, bne_iff_ne, BitVec.ult_iff_lt]
  cases hscan : scan p.candidate p.level (List.finRange 16) with
  | none =>
    refine ⟨fun h => absurd rfl h.1, ?_⟩
    rintro ⟨s, ⟨hen, hpend, hclaimed⟩, hlt⟩
    have hnone := scan_none.1 hscan s (List.mem_finRange s)
    have hprio : p.sourcePriority s ≠ 0#3 := by bv_omega
    exact absurd hnone (by simp [candidate, hen, hpend, hclaimed, hprio])
  | some b =>
    have hfirst := scan_some hsorted hscan
    constructor
    · rintro ⟨-, hlt⟩
      have hcand := hfirst.holds
      simp only [candidate, Bool.and_eq_true, Bool.not_eq_true'] at hcand
      exact ⟨b, ⟨hcand.1.1.1, hcand.1.1.2, hcand.1.2⟩, hlt⟩
    · rintro ⟨s, ⟨hen, hpend, hclaimed⟩, hlt⟩
      have hprio : p.sourcePriority s ≠ 0#3 := by bv_omega
      have hle : p.sourcePriority s ≤ p.sourcePriority b :=
        hfirst.le (List.mem_finRange s) (by simp [candidate, hen, hpend, hclaimed, hprio])
      exact ⟨sourceId_ne_zero b, by simp only [chosen]; bv_omega⟩

/-- what a claim read returns -/
theorem claim_returns (p : Plic) {i : PlicIn} (h : i.claimRead = true) :
    (p.prdata i = 0 ∧ (∀ s, p.claims i s = false) ∧ ∀ s, p.candidate s = false) ∨
      ∃ s, p.prdata i = (sourceId s).setWidth 32 ∧ p.claims i s = true ∧
        FirstBest p.candidate p.level (List.finRange 16) s := by
  have hsorted : (List.finRange 16).Pairwise (· < ·) := by decide
  have hread : i.readEn = true ∧ i.paddr = 0x204 := by simpa [PlicIn.claimRead] using h
  have hdata : p.prdata i = p.bestId.setWidth 32 := by rw [prdata, if_pos hread.1, if_pos hread.2]
  have hid : p.claimId i = p.bestId := if_pos h
  have hbest : p.bestId = (p.chosen (scan p.candidate p.level (List.finRange 16))).1 := by rw [bestId, best_eq_scan]
  cases hscan : scan p.candidate p.level (List.finRange 16) with
  | none =>
    have h0 : p.bestId = 0 := by rw [hbest, hscan, chosen]
    refine .inl ⟨by rw [hdata, h0]; rfl, fun s => ?_, fun s => scan_none.1 hscan s (List.mem_finRange s)⟩
    rw [claims, hid, h0, h, Bool.true_and, beq_eq_false_iff_ne]
    exact (sourceId_ne_zero s).symm
  | some b =>
    have hb : p.bestId = sourceId b := by rw [hbest, hscan, chosen]
    refine .inr ⟨b, by rw [hdata, hb], ?_, scan_some hsorted hscan⟩
    rw [claims, hid, hb, h, Bool.true_and, beq_self_eq_true]

/-- a claimed source was a candidate -/
theorem candidate_of_claims (h : p.claims i s = true) : p.candidate s = true := by
  rcases claim_returns p (claims_read h) with ⟨-, hnone, -⟩ | ⟨b, -, hb, hfirst⟩
  · rw [hnone s] at h
    exact absurd h (by simp)
  · have hsame : sourceId s = sourceId b := by
      rw [claims, Bool.and_eq_true, beq_iff_eq] at h hb
      rw [← h.2, hb.2]
    rw [sourceId_inj hsame]
    exact hfirst.holds

theorem active_of_claims (h : p.claims i s = true) : p.Active s := by
  have hcand := candidate_of_claims h
  simp only [candidate, Bool.and_eq_true, Bool.not_eq_true'] at hcand
  exact ⟨hcand.1.1.1, hcand.1.1.2, hcand.1.2⟩

end Plic

/-! ## Runs -/

namespace Plic

section Run

variable (ins : ℕ → PlicIn) (s : Source)

def stateAt (n : ℕ) : Plic := trace step reset ins n

/-- cycle `n` claims the source -/
def claimsAt (n : ℕ) : Bool := (stateAt ins n).claims (ins n) s

theorem stateAt_succ (n : ℕ) : stateAt ins (n + 1) = (stateAt ins n).step (ins n) := rfl

/-- the edge detector sees the edges of the line -/
theorem irqRisingEdge_eq (n : ℕ) : (stateAt ins n).irqRisingEdge (ins n) s = rises ins s n := by
  cases n with
  | zero => simp [irqRisingEdge, stateAt, reset, rises]
  | succ n => rfl

theorem pending_succ (n : ℕ) : (stateAt ins (n + 1)).pending s =
    if rises ins s n then true else if claimsAt ins s n then false else (stateAt ins n).pending s := by
  rw [stateAt_succ, step_pending, irqRisingEdge_eq, claimsAt]

theorem claimed_succ (n : ℕ) : (stateAt ins (n + 1)).claimed s =
    if (ins n).completesFor s then false else if claimsAt ins s n then true else (stateAt ins n).claimed s := by
  rw [stateAt_succ, step_claimed, claimsAt]

end Run

variable {ins : ℕ → PlicIn} {s : Source} {m n : ℕ}

/-- a claimed source stays claimed until a completion -/
theorem completes_between (hm : claimsAt ins s m = true) (hn : (stateAt ins n).claimed s = false) (hmn : m < n) :
    ∃ k, m < k ∧ k < n ∧ (ins k).completesFor s = true := by
  induction n, hmn using Nat.le_induction with
  | base =>
    rw [claimed_succ, hm, not_completes_of_claims hm s] at hn
    exact absurd hn (by simp)
  | succ n hmn ih =>
    rw [claimed_succ] at hn
    by_cases hc : (ins n).completesFor s = true
    · exact ⟨n, hmn, Nat.lt_succ_self n, hc⟩
    · rw [if_neg hc] at hn
      by_cases hclaim : claimsAt ins s n = true
      · rw [if_pos hclaim] at hn
        exact absurd hn (by simp)
      · rw [if_neg hclaim] at hn
        obtain ⟨k, hmk, hkn, hk⟩ := ih hn
        exact ⟨k, hmk, hkn.trans (Nat.lt_succ_self n), hk⟩

/-- a source that a claim has cleared gets pending by an edge, at the claim or later -/
theorem rises_between (hm : claimsAt ins s m = true) (hn : (stateAt ins n).pending s = true) (hmn : m < n) :
    ∃ k, m ≤ k ∧ k < n ∧ rises ins s k = true := by
  induction n, hmn using Nat.le_induction with
  | base =>
    rw [pending_succ, hm] at hn
    by_cases hr : rises ins s m = true
    · exact ⟨m, le_refl m, Nat.lt_succ_self m, hr⟩
    · exact absurd hn (by simp [hr])
  | succ n hmn ih =>
    rw [pending_succ] at hn
    by_cases hr : rises ins s n = true
    · exact ⟨n, Nat.le_of_succ_le hmn, Nat.lt_succ_self n, hr⟩
    · rw [if_neg hr] at hn
      by_cases hclaim : claimsAt ins s n = true
      · rw [if_pos hclaim] at hn
        exact absurd hn (by simp)
      · rw [if_neg hclaim] at hn
        obtain ⟨k, hmk, hkn, hk⟩ := ih hn
        exact ⟨k, hmk, hkn.trans (Nat.lt_succ_self n), hk⟩

/-- an edge that no later claim has taken -/
theorem pending_kept (hm : rises ins s m = true) (hmn : m < n)
    (hclaims : ∀ k, m < k → k < n → claimsAt ins s k = false) : (stateAt ins n).pending s = true := by
  induction n, hmn using Nat.le_induction with
  | base => rw [pending_succ, if_pos hm]
  | succ n hmn ih =>
    have hold := ih fun k hmk hkn => hclaims k hmk (hkn.trans (Nat.lt_succ_self n))
    rw [pending_succ, hclaims n hmn (Nat.lt_succ_self n), hold]
    simp

/-- every claim has an edge of its own, and so has a pending source -/
theorem claims_le_rises (ins : ℕ → PlicIn) (s : Source) (n : ℕ) :
    Nat.count (claimsAt ins s · = true) n + ((stateAt ins n).pending s).toNat ≤ Nat.count (rises ins s · = true) n := by
  induction n with
  | zero => simp [stateAt, reset]
  | succ n ih =>
    rw [Nat.count_succ, Nat.count_succ, pending_succ]
    by_cases hclaim : claimsAt ins s n = true
    · have hpend := (active_of_claims hclaim).2.1
      rw [hpend] at ih
      by_cases hr : rises ins s n = true
      · simp only [hclaim, hr, if_true, Bool.toNat_true] at ih ⊢
        omega
      · simp only [hclaim, hr, if_true, Bool.toNat_true] at ih ⊢
        simp
        omega
    · have hle := Bool.toNat_le ((stateAt ins n).pending s)
      by_cases hr : rises ins s n = true
      · simp only [hclaim, hr, if_true, Bool.toNat_true]
        simp
        omega
      · simpa [hclaim, hr] using ih

/-- the claim and completion protocol, for the run on the inputs `ins` -/
structure PlicLaw (ins : ℕ → PlicIn) : Prop where
  /-- the edge may fall on the cycle of the first claim -/
  between : ∀ s m n, m < n → claimsAt ins s m = true → claimsAt ins s n = true →
    (∃ k, m < k ∧ k < n ∧ (ins k).completesFor s = true) ∧ ∃ k, m ≤ k ∧ k < n ∧ rises ins s k = true
  count : ∀ s n, Nat.count (claimsAt ins s · = true) n ≤ Nat.count (rises ins s · = true) n
  kept : ∀ s m n, m < n → rises ins s m = true → (∀ k, m < k → k < n → claimsAt ins s k = false) →
    (stateAt ins n).pending s = true
  returns : ∀ n, (ins n).claimRead = true →
    ((stateAt ins n).prdata (ins n) = 0 ∧ (∀ s, claimsAt ins s n = false) ∧ ∀ s, (stateAt ins n).candidate s = false) ∨
      ∃ s, (stateAt ins n).prdata (ins n) = (sourceId s).setWidth 32 ∧ claimsAt ins s n = true ∧
        FirstBest (stateAt ins n).candidate (stateAt ins n).level (List.finRange 16) s
  irq : ∀ n, (stateAt ins n).extIrq = true ↔
    ∃ s, (stateAt ins n).Active s ∧ (stateAt ins n).threshold < (stateAt ins n).sourcePriority s

/-- **The protocol holds in every run**, for any interrupt lines and any register accesses. -/
theorem claim_complete (ins : ℕ → PlicIn) : PlicLaw ins where
  between _ _ _ hmn hm hn :=
    ⟨completes_between hm (active_of_claims hn).2.2 hmn, rises_between hm (active_of_claims hn).2.1 hmn⟩
  count s n := (Nat.le_add_right _ _).trans (claims_le_rises ins s n)
  kept _ _ _ hmn hm hclaims := pending_kept hm hmn hclaims
  returns n h := claim_returns (stateAt ins n) h
  irq n := extIrq_iff (stateAt ins n)

end Plic

end Vsync
