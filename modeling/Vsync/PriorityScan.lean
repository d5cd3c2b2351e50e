/-
Priority scans: a loop over candidates that keeps the best one so far and gives it up for a strictly better one only.
Nothing in this file is about a particular design.

- `scan cand key l`: what the loop ends with.
- `FirstBest`: a candidate of the greatest key, and the first of those.
- `scan_some`, `scan_none`: **the scan finds it**, or there is no candidate.
-/
import Mathlib.Data.List.Induction
import Mathlib.Order.Lattice

namespace Vsync.PriorityScan

variable {α K : Type*} [LinearOrder K] {cand : α → Bool} {key : α → K}

def keep (cand : α → Bool) (key : α → K) (best : Option α) (i : α) : Option α :=
  if cand i then
    match best with
    | none => some i
    | some b => if key b < key i then some i else some b
  else best

def scan (cand : α → Bool) (key : α → K) (l : List α) : Option α := l.foldl (keep cand key) none

theorem scan_snoc (l : List α) (i : α) : scan cand key (l ++ [i]) = keep cand key (scan cand key l) i := by
  rw [scan, List.foldl_append]
  rfl

theorem scan_none {l : List α} : scan cand key l = none ↔ ∀ i ∈ l, cand i = false := by
  induction l using List.reverseRecOn with
  | nil => simp [scan]
  | append_singleton l i ih =>
    rw [scan_snoc]
    cases hi : cand i with
    | false =>
      have hkeep : keep cand key (scan cand key l) i = scan cand key l := by simp [keep, hi]
      rw [hkeep, ih]
      simp [or_imp, forall_and, hi]
    | true =>
      have hne : keep cand key (scan cand key l) i ≠ none := by
        cases hs : scan cand key l with
        | none => simp [keep, hi]
        | some b => by_cases hlt : key b < key i <;> simp [keep, hi, hlt]
      refine ⟨fun h => absurd h hne, fun h => ?_⟩
      exact absurd (h i (by simp)) (by simp [hi])

section First

variable [Preorder α]

/-- a candidate of the greatest key, the first among equals -/
structure FirstBest (cand : α → Bool) (key : α → K) (l : List α) (b : α) : Prop where
  mem : b ∈ l
  holds : cand b = true
  first : ∀ j ∈ l, cand j = true → j ≠ b → key j < key b ∨ (key j = key b ∧ b < j)

theorem FirstBest.le {l : List α} {b : α} (h : FirstBest cand key l b) {j : α} (hj : j ∈ l) (hc : cand j = true) :
    key j ≤ key b := by
  by_cases hjb : j = b
  · rw [hjb]
  · rcases h.first j hj hc hjb with hlt | heq
    · exact hlt.le
    · exact heq.1.le

/-- **The scan of a sorted list finds the first of the best.** -/
theorem scan_some {l : List α} {b : α} (hl : l.Pairwise (· < ·)) (h : scan cand key l = some b) :
    FirstBest cand key l b := by
  induction l using List.reverseRecOn generalizing b with
  | nil => exact absurd h (by simp [scan])
  | append_singleton l i ih =>
    obtain ⟨hsorted, -, hbefore⟩ := List.pairwise_append.1 hl
    rw [scan_snoc] at h
    cases hi : cand i with
    | false =>
      have hold := ih hsorted (by simpa [keep, hi] using h)
      refine ⟨by simp [hold.mem], hold.holds, fun j hj hc hne => ?_⟩
      rcases List.mem_append.1 hj with hj | hj
      · exact hold.first j hj hc hne
      · rw [List.mem_singleton.1 hj, hi] at hc
        exact absurd hc (by simp)
    | true =>
      cases hs : scan cand key l with
      | none =>
        obtain rfl : i = b := by simpa [keep, hi, hs] using h
        refine ⟨by simp, hi, fun j hj hc hne => ?_⟩
        rcases List.mem_append.1 hj with hj | hj
        · exact absurd (scan_none.1 hs j hj) (by simp [hc])
        · exact absurd (List.mem_singleton.1 hj) hne
      | some c =>
        have hold := ih hsorted hs
        by_cases hlt : key c < key i
        · obtain rfl : i = b := by simpa [keep, hi, hs, hlt] using h
          refine ⟨by simp, hi, fun j hj hc hne => ?_⟩
          rcases List.mem_append.1 hj with hj | hj
          · exact .inl ((hold.le hj hc).trans_lt hlt)
          · exact absurd (List.mem_singleton.1 hj) hne
        · obtain rfl : c = b := by simpa [keep, hi, hs, hlt] using h
          refine ⟨by simp [hold.mem], hold.holds, fun j hj hc hne => ?_⟩
          rcases List.mem_append.1 hj with hj | hj
          · exact hold.first j hj hc hne
          · obtain rfl : j = i := List.mem_singleton.1 hj
            rcases (not_lt.1 hlt).lt_or_eq with hless | heq
            · exact .inl hless
            · exact .inr ⟨heq, hbefore c hold.mem j (by simp)⟩

end First

end Vsync.PriorityScan
