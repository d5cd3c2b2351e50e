/-
NUL-terminated strings in memory. Nothing in this file is about a particular program.

- `CString`: the bytes of a string, none of which is NUL.
- `StringAt m p s`: the string `s` stands at index `p` of `m`, with its NUL; `unique`: no other does.
- `StringAt.update_before`, `update_after`, `cut`: what is left of a string after a store before it, behind it or into
  it.
- `words`: the words of a line that `sep` separates; `words_gap`, `words_word`: one gap, one word at a time.
-/
import Mathlib.Tactic

namespace Vsync

/-- a byte at every index, counted from the start of a buffer -/
abbrev CMem := ℤ → BitVec 8

/-- the bytes of a string before its NUL -/
structure CString where
  bytes : List (BitVec 8)
  nonzero : ∀ b ∈ bytes, b ≠ 0

/-- `s` and a NUL behind it stand at `p` -/
def StringAt (m : CMem) : ℤ → List (BitVec 8) → Prop
  | p, [] => m p = 0
  | p, b :: s => b ≠ 0 ∧ m p = b ∧ StringAt m (p + 1) s

namespace StringAt

variable {m : CMem} {p k : ℤ} {s t : List (BitVec 8)} {b : BitVec 8}

theorem nonzero (h : StringAt m p s) : ∀ b ∈ s, b ≠ 0 := by
  induction s generalizing p with
  | nil => simp
  | cons a s ih =>
    intro b hb
    rcases List.mem_cons.1 hb with rfl | hs
    · exact h.1
    · exact ih h.2.2 b hs

theorem unique (hs : StringAt m p s) (ht : StringAt m p t) : s = t := by
  induction s generalizing p t with
  | nil =>
    cases t with
    | nil => rfl
    | cons c t => exact absurd (ht.2.1.symm.trans hs) ht.1
  | cons a s ih =>
    cases t with
    | nil => exact absurd (hs.2.1.symm.trans ht) hs.1
    | cons c t => rw [ih hs.2.2 ht.2.2, ← hs.2.1, ← ht.2.1]

theorem congr {m' : CMem} (h : StringAt m p s) (hm : ∀ k, p ≤ k → k ≤ p + s.length → m' k = m k) : StringAt m' p s := by
  induction s generalizing p with
  | nil => exact (hm p (le_refl p) (by simp)).trans h
  | cons a s ih =>
    have hlen : ((a :: s).length : ℤ) = s.length + 1 := by simp
    refine ⟨h.1, (hm p (le_refl p) (by omega)).trans h.2.1, ih h.2.2 ?_⟩
    intro k h1 h2
    exact hm k (by omega) (by omega)

theorem update_before (h : StringAt m p s) (hk : k < p) : StringAt (Function.update m k b) p s :=
  h.congr fun j hj _ => Function.update_of_ne (by omega) _ _

theorem update_after (h : StringAt m p s) (hk : p + s.length < k) : StringAt (Function.update m k b) p s :=
  h.congr fun j _ hj => Function.update_of_ne (by omega) _ _

/-- the end of a string is a string -/
theorem drop (h : StringAt m p (s ++ t)) : StringAt m (p + s.length) t := by
  induction s generalizing p with
  | nil => simpa using h
  | cons a s ih =>
    have htail := ih h.2.2
    rwa [add_assoc, add_comm (1 : ℤ), ← Nat.cast_succ] at htail

/-- a NUL into a string ends it there -/
theorem cut (h : StringAt m p (s ++ t)) : StringAt (Function.update m (p + s.length) 0) p s := by
  induction s generalizing p with
  | nil => simp [StringAt]
  | cons a s ih =>
    have htail := ih h.2.2
    rw [show p + ((a :: s).length : ℤ) = p + 1 + s.length by simp; ring]
    refine ⟨h.1, ?_, htail⟩
    rw [Function.update_of_ne (by omega)]
    exact h.2.1

/-- a byte in place of the NUL, and the NUL behind it -/
theorem snoc (h : StringAt m p s) (hb : b ≠ 0) (hend : m (p + s.length + 1) = 0) :
    StringAt (Function.update m (p + s.length) b) p (s ++ [b]) := by
  induction s generalizing p with
  | nil =>
    refine ⟨hb, by simp, ?_⟩
    have hnul : m (p + 1) = 0 := by simpa using hend
    change Function.update m (p + ((([] : List (BitVec 8)).length : ℕ) : ℤ)) b (p + 1) = 0
    rw [Function.update_of_ne (by simp)]
    exact hnul
  | cons a s ih =>
    have hlen : p + ((a :: s).length : ℤ) = p + 1 + s.length := by simp; ring
    rw [hlen] at hend ⊢
    refine ⟨h.1, ?_, ih h.2.2 hend⟩
    rw [Function.update_of_ne (by omega)]
    exact h.2.1

theorem cons (h : StringAt m p s) (hb : b ≠ 0) : StringAt (Function.update m (p - 1) b) (p - 1) (b :: s) := by
  refine ⟨hb, by simp, ?_⟩
  rw [sub_add_cancel]
  exact h.update_before (by omega)

end StringAt

/-! ## Words -/

section Words

variable {α : Type*} [DecidableEq α] (sep : α)

/-- the words of `l`: what stands between separators, without the empty ones -/
def words (l : List α) : List (List α) := (l.splitOn sep).filter (· ≠ [])

variable {sep}

theorem words_nil : words sep ([] : List α) = [] := by simp [words]

theorem words_sep (l : List α) : words sep (sep :: l) = words sep l := by
  simp [words, List.splitOn, List.splitOnP_cons_eq_if_modifyHead]

/-- separators in front do not count -/
theorem words_gap {g : List α} (hg : ∀ b ∈ g, b = sep) (l : List α) : words sep (g ++ l) = words sep l := by
  induction g with
  | nil => rfl
  | cons b g ih =>
    rw [hg b (List.mem_cons_self ..), List.cons_append, words_sep]
    exact ih fun c hc => hg c (List.mem_cons_of_mem _ hc)

/-- the separators in front, and what is behind them -/
theorem exists_gap (sep : α) (l : List α) :
    ∃ g r, l = g ++ r ∧ (∀ b ∈ g, b = sep) ∧ (r = [] ∨ ∃ b r', r = b :: r' ∧ b ≠ sep) := by
  induction l with
  | nil => exact ⟨[], [], rfl, by simp, .inl rfl⟩
  | cons a l ih =>
    by_cases ha : a = sep
    · obtain ⟨g, r, rfl, hg, hr⟩ := ih
      exact ⟨a :: g, r, rfl, List.forall_mem_cons.2 ⟨ha, hg⟩, hr⟩
    · exact ⟨[], a :: l, rfl, by simp, .inr ⟨a, l, rfl, ha⟩⟩

/-- what stands before the first separator, and what is behind it -/
theorem exists_word (sep : α) (l : List α) : ∃ w r, l = w ++ r ∧ sep ∉ w ∧ (r = [] ∨ ∃ r', r = sep :: r') := by
  induction l with
  | nil => exact ⟨[], [], rfl, by simp, .inl rfl⟩
  | cons a l ih =>
    by_cases ha : a = sep
    · exact ⟨[], a :: l, rfl, by simp, .inr ⟨l, by rw [ha]⟩⟩
    · obtain ⟨w, r, rfl, hw, hr⟩ := ih
      refine ⟨a :: w, r, rfl, ?_, hr⟩
      rw [List.mem_cons, not_or]
      exact ⟨Ne.symm ha, hw⟩

/-- **One word**: what stands before the first separator, if it is not empty, and the words behind it. -/
theorem words_word {w rest : List α} (hw : w ≠ []) (hno : sep ∉ w) :
    words sep (w ++ sep :: rest) = w :: words sep rest := by
  have hsplit : (w ++ sep :: rest).splitOn sep = w :: rest.splitOn sep := by
    refine List.splitOnP_append_cons_of_forall_mem ?_ sep (by simp) rest
    intro x hx
    rw [beq_eq_false_iff_ne]
    exact fun heq => hno (heq ▸ hx)
  rw [words, hsplit, List.filter_cons_of_pos (by simpa using hw), words]

theorem words_single {w : List α} (hw : w ≠ []) (hno : sep ∉ w) : words sep w = [w] := by
  have hsplit : w.splitOn sep = [w] := by
    apply List.splitOnP_eq_singleton
    intro x hx
    rw [beq_eq_false_iff_ne]
    exact fun heq => hno (heq ▸ hx)
  rw [words, hsplit, List.filter_cons_of_pos (by simpa using hw), List.filter_nil]

end Words

end Vsync
