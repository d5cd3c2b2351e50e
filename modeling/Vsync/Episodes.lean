/-
Machines whose events come in episodes: a language of complete episodes, and at any time at most one that is open.
Nothing in this file is about a particular design.

- `log_episodes`: **the episode rule**. If each cycle extends the open episode or completes it, the log of every run is
  a sequence of complete episodes and one open one.
- `Outstanding`: an event of a log that no later one has ended.
- `trace_waits`, `trace_leads`: a machine that stays where it is until something fires, and a chain of such waits.
-/
import Vsync.Machine
import Mathlib.Computability.Language

namespace Vsync.Machine

open scoped Computability

variable {S I E : Type*}

section Outstanding

variable {P Q : E → Prop} {l : List E}

/-- some event of `l` is a `P`, and none behind it is a `Q` -/
def Outstanding (P Q : E → Prop) (l : List E) : Prop :=
  ∃ before e after, l = before ++ e :: after ∧ P e ∧ ∀ e' ∈ after, ¬ Q e'

theorem not_outstanding_nil : ¬ Outstanding P Q [] := by
  rintro ⟨before, e, after, h, -⟩
  exact absurd h (by simp)

/-- the last event is a `P`, or it is no `Q` and there was one before -/
theorem outstanding_snoc {a : E} : Outstanding P Q (l ++ [a]) ↔ P a ∨ (¬ Q a ∧ Outstanding P Q l) := by
  constructor
  · rintro ⟨before, e, after, h, hp, hq⟩
    rcases List.eq_nil_or_concat after with rfl | ⟨init, last, rfl⟩
    · obtain ⟨-, hlast⟩ := List.append_inj' h rfl
      obtain rfl : a = e := by simpa using hlast
      exact .inl hp
    · rw [List.concat_eq_append, ← List.cons_append, ← List.append_assoc] at h
      obtain ⟨rfl, hlast⟩ := List.append_inj' h rfl
      obtain rfl : a = last := by simpa using hlast
      refine .inr ⟨hq a (by simp), before, e, init, rfl, hp, ?_⟩
      intro e' he'
      exact hq e' (by simp [he'])
  · rintro (hp | ⟨hq, before, e, after, rfl, hp, hafter⟩)
    · exact ⟨l, a, [], rfl, hp, by simp⟩
    · refine ⟨before, e, after ++ [a], by simp, hp, ?_⟩
      intro e' he'
      rcases List.mem_append.1 he' with he' | he'
      · exact hafter e' he'
      · obtain rfl : e' = a := by simpa using he'
        exact hq

end Outstanding

section Episodes

variable {emit : S → I → List E} {step : S → I → S} {s : S} {L : Language E}

/-- complete episodes, then the beginning of one that is not complete -/
def InEpisodes (L : Language E) (log : List E) : Prop :=
  ∃ done part rest, log = done ++ part ∧ done ∈ L∗ ∧ rest ≠ [] ∧ part ++ rest ∈ L

theorem append_mem_kstar {done e : List E} (hd : done ∈ L∗) (he : e ∈ L) : done ++ e ∈ L∗ := by
  have hstep : L∗ * L ≤ L∗ := kstar_mul_le_kstar
  exact Set.mem_of_mem_of_subset (Language.append_mem_mul hd he) hstep

/-- **The episode rule**, in cycles with `C`. `Open t p`: the events of the open episode are `p`, in state `t`. A cycle
that completes an episode may also begin the next. -/
theorem log_episodes_of {Open : S → List E → Prop} {C : S → I → Prop} (ins : ℕ → I) (h0 : Open s [])
    (hs : ∀ t i p, Open t p → C t i → Open (step t i) (p ++ emit t i) ∨
      ∃ last next, emit t i = last ++ next ∧ p ++ last ∈ L ∧ Open (step t i) next)
    (n : ℕ) (hC : ∀ k < n, C (trace step s ins k) (ins k)) :
    ∃ done part, log emit step s ins n = done ++ part ∧ done ∈ L∗ ∧ Open (trace step s ins n) part := by
  induction n with
  | zero => exact ⟨[], [], rfl, Language.nil_mem_kstar L, h0⟩
  | succ n ih =>
    obtain ⟨done, part, hlog, hdone, hopen⟩ := ih fun k hk => hC k (Nat.lt_succ_of_lt hk)
    rw [log_succ, trace_succ, hlog, List.append_assoc]
    rcases hs _ (ins n) part hopen (hC n (Nat.lt_succ_self n)) with hext | ⟨last, next, hemit, hcomplete, hnew⟩
    · exact ⟨done, _, rfl, hdone, hext⟩
    · refine ⟨done ++ (part ++ last), next, ?_, append_mem_kstar hdone hcomplete, hnew⟩
      rw [hemit, ← List.append_assoc, ← List.append_assoc, ← List.append_assoc]

theorem log_episodes {Open : S → List E → Prop} (ins : ℕ → I) (h0 : Open s [])
    (hs : ∀ t i p, Open t p → Open (step t i) (p ++ emit t i) ∨ (p ++ emit t i ∈ L ∧ Open (step t i) []))
    (n : ℕ) : ∃ done part, log emit step s ins n = done ++ part ∧ done ∈ L∗ ∧ Open (trace step s ins n) part := by
  refine log_episodes_of (C := fun _ _ => True) ins h0 ?_ n fun _ _ => trivial
  intro t i p hopen _
  rcases hs t i p hopen with hext | ⟨hcomplete, hnew⟩
  · exact .inl hext
  · exact .inr ⟨emit t i, [], (List.append_nil _).symm, hcomplete, hnew⟩

/-- the same, when an open episode can always be completed -/
theorem log_inEpisodes {Open : S → List E → Prop} (ins : ℕ → I) (h0 : Open s [])
    (hs : ∀ t i p, Open t p → Open (step t i) (p ++ emit t i) ∨ (p ++ emit t i ∈ L ∧ Open (step t i) []))
    (hrest : ∀ t p, Open t p → ∃ rest, rest ≠ [] ∧ p ++ rest ∈ L) (n : ℕ) :
    InEpisodes L (log emit step s ins n) := by
  obtain ⟨done, part, hlog, hdone, hopen⟩ := log_episodes ins h0 hs n
  obtain ⟨rest, hne, hmem⟩ := hrest _ _ hopen
  exact ⟨done, part, rest, hlog, hdone, hne, hmem⟩

end Episodes

section Reader

variable {P : Type*} {L : Language E} {idle : P} {next : P → E → Option P}

theorem reads_kstar (hL : ∀ w ∈ L, w.foldlM next idle = some idle) {l : List E} (hl : l ∈ L∗) :
    l.foldlM next idle = some idle := by
  obtain ⟨ws, rfl, hws⟩ := Language.mem_kstar.1 hl
  clear hl
  induction ws with
  | nil => rfl
  | cons w ws ih =>
    obtain ⟨hw, hrest⟩ := List.forall_mem_cons.1 hws
    rw [List.flatten_cons, List.foldlM_append, hL w hw]
    exact ih hrest

/-- a reader that gets through every episode is never stuck on a sequence of them -/
theorem InEpisodes.reads (hL : ∀ w ∈ L, w.foldlM next idle = some idle) {l : List E} (h : InEpisodes L l) :
    l.foldlM next idle ≠ none := by
  obtain ⟨done, part, rest, rfl, hdone, -, hmem⟩ := h
  have hpart := hL _ hmem
  rw [List.foldlM_append] at hpart
  rw [List.foldlM_append, reads_kstar hL hdone]
  intro hstuck
  have hstuck' : part.foldlM next idle = none := hstuck
  simp [hstuck'] at hpart

end Reader

section Waits

variable {step : S → I → S} {s : S} {ins : ℕ → I} {P Q R : S → Prop} {n : ℕ}

/-- a machine stays in `P` until `F` holds, and it does at some time -/
theorem trace_waits {F : S → I → Prop} (hP : P (trace step s ins n)) (hs : ∀ t i, P t → ¬ F t i → P (step t i))
    (hf : ∃ m ≥ n, F (trace step s ins m) (ins m)) :
    ∃ m ≥ n, P (trace step s ins m) ∧ F (trace step s ins m) (ins m) := by
  obtain ⟨m, hnm, hfire⟩ := hf
  have hwait : ∀ k ≥ n, P (trace step s ins k) ∨ ∃ j ≥ n, P (trace step s ins j) ∧ F (trace step s ins j) (ins j) := by
    intro k hnk
    induction k, hnk using Nat.le_induction with
    | base => exact .inl hP
    | succ k hnk ih =>
      rcases ih with hk | hfired
      · by_cases hfk : F (trace step s ins k) (ins k)
        · exact .inr ⟨k, hnk, hk, hfk⟩
        · exact .inl (hs _ _ hk hfk)
      · exact .inr hfired
  rcases hwait m hnm with hm | hfired
  · exact ⟨m, hnm, hm, hfire⟩
  · exact hfired

/-- from `n` on, `P` is met again -/
def Later (step : S → I → S) (s : S) (ins : ℕ → I) (P : S → Prop) (n : ℕ) : Prop := ∃ m ≥ n, P (trace step s ins m)

theorem later_of_wait {F : S → I → Prop} (hP : P (trace step s ins n))
    (hs : ∀ t i, P t → ¬ F t i → P (step t i)) (hf : ∃ m ≥ n, F (trace step s ins m) (ins m))
    (hnext : ∀ t i, P t → F t i → Q (step t i)) : Later step s ins Q n := by
  obtain ⟨m, hnm, hPm, hfm⟩ := trace_waits hP hs hf
  exact ⟨m + 1, by omega, hnext _ _ hPm hfm⟩

theorem Later.trans (h : Later step s ins P n) (hnext : ∀ m ≥ n, P (trace step s ins m) → Later step s ins Q m) :
    Later step s ins Q n := by
  obtain ⟨m, hnm, hm⟩ := h
  obtain ⟨k, hmk, hk⟩ := hnext m hnm hm
  exact ⟨k, le_trans hnm hmk, hk⟩

end Waits

end Vsync.Machine
