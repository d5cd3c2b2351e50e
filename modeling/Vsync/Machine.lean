/-
Clocked machines: a state, a step per clock cycle, an input per cycle. Nothing in this file is about a particular
design.

- `trace step s ins n` is the state before cycle `n`; the machine starts in `s` and cycle `k` reads `ins k`.
- `trace_inv`, `trace_inv_of`: the invariant rule, without and with a condition that every step of the run meets.
- `trace_reaches_of`: the measure rule; `trace_visits`: the visit rule.
- `trace_last`: the register rule; `trace_count`: the counter rule.
- `log emit step s ins n` is what the cycles before `n` emitted, in order.
- `Reaches`, `Avoids`: what a machine does, under all inputs, until a test succeeds; `reaches_part`: the subsystem rule.
- `check`: a test of every cycle of a concrete run in one pass, and what it says about the trace.
-/
import Mathlib.Tactic

namespace Vsync.Machine

variable {S I E T : Type*}

/-- the state before cycle `n` -/
def trace (step : S → I → S) (s : S) (ins : ℕ → I) : ℕ → S
  | 0 => s
  | n + 1 => step (trace step s ins n) (ins n)

def log (emit : S → I → List E) (step : S → I → S) (s : S) (ins : ℕ → I) : ℕ → List E
  | 0 => []
  | n + 1 => log emit step s ins n ++ emit (trace step s ins n) (ins n)

section Trace

variable (step : S → I → S) (s : S) (ins : ℕ → I)

@[simp] theorem trace_zero : trace step s ins 0 = s := rfl

theorem trace_succ (n : ℕ) : trace step s ins (n + 1) = step (trace step s ins n) (ins n) := rfl

theorem trace_add (m n : ℕ) :
    trace step s ins (m + n) = trace step (trace step s ins m) (fun k => ins (m + k)) n := by
  induction n with
  | zero => rfl
  | succ n ih => rw [← Nat.add_assoc, trace_succ, trace_succ, ih]

theorem trace_congr {ins' : ℕ → I} (n : ℕ) (h : ∀ k < n, ins k = ins' k) :
    trace step s ins n = trace step s ins' n := by
  induction n with
  | zero => rfl
  | succ n ih =>
    rw [trace_succ, trace_succ, ih fun k hk => h k (Nat.lt_succ_of_lt hk), h n (Nat.lt_succ_self n)]

@[simp] theorem log_zero (emit : S → I → List E) : log emit step s ins 0 = [] := rfl

theorem log_succ (emit : S → I → List E) (n : ℕ) :
    log emit step s ins (n + 1) = log emit step s ins n ++ emit (trace step s ins n) (ins n) := rfl

theorem log_add (emit : S → I → List E) (m n : ℕ) : log emit step s ins (m + n) =
    log emit step s ins m ++ log emit step (trace step s ins m) (fun k => ins (m + k)) n := by
  induction n with
  | zero => simp
  | succ n ih => rw [← Nat.add_assoc, log_succ, log_succ, ih, trace_add, List.append_assoc]

theorem log_extends {emit : S → I → List E} {m n : ℕ} (h : m ≤ n) :
    log emit step s ins m <+: log emit step s ins n := by
  obtain ⟨k, rfl⟩ := Nat.exists_eq_add_of_le h
  rw [log_add]
  exact List.prefix_append _ _

theorem log_congr {emit : S → I → List E} {ins' : ℕ → I} (n : ℕ) (h : ∀ k < n, ins k = ins' k) :
    log emit step s ins n = log emit step s ins' n := by
  induction n with
  | zero => rfl
  | succ n ih =>
    have hbefore : ∀ k < n, ins k = ins' k := fun k hk => h k (Nat.lt_succ_of_lt hk)
    rw [log_succ, log_succ, ih hbefore, trace_congr step s ins n hbefore, h n (Nat.lt_succ_self n)]

/-- what a machine emits, and a part of it in every cycle -/
theorem log_sublist {emit emit' : S → I → List E} (hsub : ∀ t i, (emit t i).Sublist (emit' t i)) (n : ℕ) :
    (log emit step s ins n).Sublist (log emit' step s ins n) := by
  induction n with
  | zero => exact List.Sublist.refl []
  | succ n ih =>
    rw [log_succ, log_succ]
    exact ih.append (hsub _ _)

theorem log_eq_iff {emit emit' : S → I → List E} (hsub : ∀ t i, (emit t i).Sublist (emit' t i)) (n : ℕ) :
    log emit step s ins n = log emit' step s ins n ↔
      ∀ k < n, emit (trace step s ins k) (ins k) = emit' (trace step s ins k) (ins k) := by
  induction n with
  | zero => simp
  | succ n ih =>
    rw [log_succ, log_succ]
    constructor
    · intro h
      have hlog := (log_sublist step s ins hsub n).length_le
      have hlast := (hsub (trace step s ins n) (ins n)).length_le
      have hlength := congrArg List.length h
      rw [List.length_append, List.length_append] at hlength
      obtain ⟨hbefore, hnow⟩ := List.append_inj h (by omega)
      intro k hk
      rcases Nat.lt_succ_iff_lt_or_eq.1 hk with hlt | heq
      · exact ih.1 hbefore k hlt
      · rw [heq]
        exact hnow
    · intro h
      rw [ih.2 fun k hk => h k (Nat.lt_succ_of_lt hk), h n (Nat.lt_succ_self n)]

theorem mem_log {emit : S → I → List E} {n : ℕ} {e : E} :
    e ∈ log emit step s ins n ↔ ∃ k < n, e ∈ emit (trace step s ins k) (ins k) := by
  induction n with
  | zero => simp
  | succ n ih =>
    rw [log_succ, List.mem_append, ih]
    constructor
    · rintro (⟨k, hk, he⟩ | he)
      · exact ⟨k, Nat.lt_succ_of_lt hk, he⟩
      · exact ⟨n, Nat.lt_succ_self n, he⟩
    · rintro ⟨k, hk, he⟩
      rcases Nat.lt_succ_iff_lt_or_eq.1 hk with hlt | rfl
      · exact .inl ⟨k, hlt, he⟩
      · exact .inr he

/-- **The invariant rule.** -/
theorem trace_inv {P : S → Prop} (h0 : P s) (hs : ∀ t i, P t → P (step t i)) (n : ℕ) : P (trace step s ins n) := by
  induction n with
  | zero => exact h0
  | succ n ih => exact hs _ _ ih

/-- **The invariant rule under a step condition**: every cycle before `n` meets `C`. -/
theorem trace_inv_of {P : S → Prop} {C : S → I → Prop} (h0 : P s) (hs : ∀ t i, P t → C t i → P (step t i)) (n : ℕ)
    (hC : ∀ k < n, C (trace step s ins k) (ins k)) : P (trace step s ins n) := by
  induction n with
  | zero => exact h0
  | succ n ih =>
    exact hs _ _ (ih fun k hk => hC k (Nat.lt_succ_of_lt hk)) (hC n (Nat.lt_succ_self n))

/-- **The measure rule under a step condition**: a step outside `G` keeps `P` and lowers the rank, so `G` is reached. -/
theorem trace_reaches_of {P G : S → Prop} {C : S → I → Prop} (rank : S → ℕ)
    (hs : ∀ t i, P t → C t i → G t ∨ (P (step t i) ∧ rank (step t i) < rank t)) (h0 : P s)
    (hC : ∀ k, C (trace step s ins k) (ins k)) : ∃ n, G (trace step s ins n) := by
  obtain ⟨r, hr⟩ : ∃ r, rank s = r := ⟨_, rfl⟩
  induction r using Nat.strong_induction_on generalizing s ins with
  | _ r ih =>
    rcases hs s (ins 0) h0 (hC 0) with hg | ⟨hp, hlt⟩
    · exact ⟨0, hg⟩
    · have hshift (k : ℕ) : trace step (step s (ins 0)) (fun k => ins (1 + k)) k = trace step s ins (1 + k) :=
        (trace_add step s ins 1 k).symm
      obtain ⟨n, hn⟩ := ih (rank (step s (ins 0))) (hr ▸ hlt) (step s (ins 0)) (fun k => ins (1 + k)) hp
        (fun k => by rw [hshift]; exact hC (1 + k)) rfl
      exact ⟨1 + n, by rw [← hshift]; exact hn⟩

/-- **The visit rule**: if each visit to `P` is followed by another before the next visit to `Q`, or by no visit to `Q`
at all, then `Q` is only ever met at a visit to `P`. -/
theorem trace_visits {P Q : S → Prop} (h0 : P s)
    (hs : ∀ n, P (trace step s ins n) → (∀ k, n < k → ¬ Q (trace step s ins k)) ∨
      ∃ k, n < k ∧ P (trace step s ins k) ∧ ∀ j, n < j → j < k → ¬ Q (trace step s ins j)) (n : ℕ)
    (hq : Q (trace step s ins n)) : P (trace step s ins n) := by
  -- the last visit up to `n`
  obtain ⟨m, hmn, hm, hlast⟩ : ∃ m ≤ n, P (trace step s ins m) ∧ ∀ j, m < j → j ≤ n → ¬ P (trace step s ins j) := by
    clear hq
    induction n with
    | zero => exact ⟨0, le_refl 0, h0, fun j h1 h2 => by omega⟩
    | succ n ih =>
      by_cases hn : P (trace step s ins (n + 1))
      · exact ⟨n + 1, le_refl _, hn, fun j h1 h2 => by omega⟩
      · obtain ⟨m, hmn, hm, hlast⟩ := ih
        refine ⟨m, by omega, hm, fun j h1 h2 => ?_⟩
        rcases Nat.eq_or_lt_of_le h2 with rfl | hlt
        · exact hn
        · exact hlast j h1 (by omega)
  rcases Nat.eq_or_lt_of_le hmn with rfl | hlt
  · exact hm
  · rcases hs m hm with hnever | ⟨k, hmk, hk, hbetween⟩
    · exact absurd hq (hnever n hlt)
    · rcases Nat.lt_or_ge n k with hnk | hkn
      · exact absurd hq (hbetween n hlt hnk)
      · exact absurd hk (hlast k hmk hkn)

/-- `v` is what the last event before cycle `n` gave, or `v₀` if there was none -/
def LastOf {V : Type*} (event : S → I → Option V) (v₀ : V) (n : ℕ) (v : V) : Prop :=
  (v = v₀ ∧ ∀ j < n, event (trace step s ins j) (ins j) = none) ∨
    ∃ k < n, event (trace step s ins k) (ins k) = some v ∧
      ∀ j, k < j → j < n → event (trace step s ins j) (ins j) = none

/-- **The register rule**: a register that every step loads with what an event gives, and else keeps, holds the last
event. -/
theorem trace_last {V : Type*} {event : S → I → Option V} {reg : S → V}
    (h : ∀ t i, reg (step t i) = (event t i).getD (reg t)) (n : ℕ) :
    LastOf step s ins event (reg s) n (reg (trace step s ins n)) := by
  induction n with
  | zero => exact .inl ⟨rfl, fun j hj => absurd hj (Nat.not_lt_zero j)⟩
  | succ n ih =>
    rw [trace_succ, h]
    cases he : event (trace step s ins n) (ins n) with
    | some v =>
      refine .inr ⟨n, Nat.lt_succ_self n, by rw [he]; rfl, ?_⟩
      intro j h1 h2
      omega
    | none =>
      have hnow (j : ℕ) (hj : j < n + 1) (hbefore : j < n → event (trace step s ins j) (ins j) = none) :
          event (trace step s ins j) (ins j) = none := by
        rcases Nat.lt_succ_iff_lt_or_eq.1 hj with hlt | rfl
        · exact hbefore hlt
        · exact he
      rcases ih with ⟨hv, hnone⟩ | ⟨k, hk, hv, hnone⟩
      · exact .inl ⟨hv, fun j hj => hnow j hj (hnone j)⟩
      · exact .inr ⟨k, Nat.lt_succ_of_lt hk, hv, fun j h1 h2 => hnow j h2 (hnone j h1)⟩

/-- **The counter rule**: a register that every step with `p` raises by one counts these steps. -/
theorem trace_count {w : ℕ} {count : S → BitVec w} {p : S → I → Bool} (n : ℕ)
    (h : ∀ k < n, count (step (trace step s ins k) (ins k)) =
      count (trace step s ins k) + if p (trace step s ins k) (ins k) then 1 else 0) :
    count (trace step s ins n) =
      count s + BitVec.ofNat w (Nat.count (fun k => p (trace step s ins k) (ins k) = true) n) := by
  induction n with
  | zero => simp
  | succ n ih =>
    rw [trace_succ, h n (Nat.lt_succ_self n), ih fun k hk => h k (Nat.lt_succ_of_lt hk), Nat.count_succ,
      BitVec.add_assoc]
    split_ifs with hp <;> simp [BitVec.ofNat_add]

/-- test `n` cycles from cycle `k` in state `t` on, in one pass -/
def check (p : ℕ → S → Bool) (step : S → I → S) (ins : ℕ → I) : ℕ → ℕ → S → Bool
  | 0, _, _ => true
  | n + 1, k, t => p k t && check p step ins n (k + 1) (step t (ins k))

theorem check_from (p : ℕ → S → Bool) (n k : ℕ) (h : check p step ins n k (trace step s ins k) = true) :
    ∀ j < n, p (k + j) (trace step s ins (k + j)) = true := by
  induction n generalizing k with
  | zero => simp
  | succ n ih =>
    simp only [check, Bool.and_eq_true] at h
    intro j hj
    cases j with
    | zero => exact h.1
    | succ j =>
      have := ih (k + 1) h.2 j (Nat.lt_of_succ_lt_succ hj)
      rwa [Nat.add_right_comm] at this

/-- **A test that passes holds in every cycle.** -/
theorem check_all (p : ℕ → S → Bool) (n : ℕ) (h : check p step ins n 0 s = true) :
    ∀ j < n, p j (trace step s ins j) = true := by
  simpa using check_from step s ins p n 0 h

end Trace

/-! ## What a machine does until a test succeeds -/

section Reaches

variable {emit : S → I → List E} {step : S → I → S} {p : S → Bool} {Q Q' : List E → S → Prop} {s : S}

/-- from `s`, whatever the inputs, a state passes `p`; the first one, with what was emitted before it, meets `Q` -/
def Reaches (emit : S → I → List E) (step : S → I → S) (p : S → Bool) (Q : List E → S → Prop) (s : S) : Prop :=
  ∀ ins : ℕ → I, ∃ n, (∀ k < n, p (trace step s ins k) = false) ∧ p (trace step s ins n) = true ∧
    Q (log emit step s ins n) (trace step s ins n)

theorem reaches_here (hp : p s = true) (hq : Q [] s) : Reaches emit step p Q s :=
  fun _ => ⟨0, fun k hk => absurd hk (Nat.not_lt_zero k), hp, hq⟩

theorem reaches_mono (h : Reaches emit step p Q s) (hQ : ∀ l t, p t = true → Q l t → Q' l t) :
    Reaches emit step p Q' s := by
  intro ins
  obtain ⟨n, hbefore, hn, hq⟩ := h ins
  exact ⟨n, hbefore, hn, hQ _ _ hn hq⟩

theorem trace_cons (step : S → I → S) (s : S) (ins : ℕ → I) (n : ℕ) :
    trace step s ins (n + 1) = trace step (step s (ins 0)) (fun k => ins (k + 1)) n := by
  induction n with
  | zero => rfl
  | succ n ih => rw [trace_succ, ih]; rfl

theorem log_cons (emit : S → I → List E) (step : S → I → S) (s : S) (ins : ℕ → I) (n : ℕ) :
    log emit step s ins (n + 1) = emit s (ins 0) ++ log emit step (step s (ins 0)) (fun k => ins (k + 1)) n := by
  induction n with
  | zero => simp [log]
  | succ n ih => rw [log_succ, ih, trace_cons, log_succ, List.append_assoc]

theorem reaches_later (hp : p s = false) (h : ∀ i, Reaches emit step p (fun l => Q (emit s i ++ l)) (step s i)) :
    Reaches emit step p Q s := by
  intro ins
  obtain ⟨n, hbefore, hn, hq⟩ := h (ins 0) fun k => ins (k + 1)
  refine ⟨n + 1, fun k hk => ?_, ?_, ?_⟩
  · cases k with
    | zero => exact hp
    | succ k => rw [trace_cons]; exact hbefore k (by omega)
  · rw [trace_cons]
    exact hn
  · rw [trace_cons, log_cons]
    exact hq

theorem reaches_silent (hp : p s = false) (he : ∀ i, emit s i = []) (h : ∀ i, Reaches emit step p Q (step s i)) :
    Reaches emit step p Q s :=
  reaches_later hp fun i => by
    rw [he i]
    exact h i

def Avoids (step : S → I → S) (p : S → Bool) (s : S) : Prop := ∀ (ins : ℕ → I) (n : ℕ), p (trace step s ins n) = false

theorem avoids_later (hp : p s = false) (h : ∀ i, Avoids step p (step s i)) : Avoids step p s := by
  intro ins n
  cases n with
  | zero => exact hp
  | succ n =>
    rw [trace_cons]
    exact h (ins 0) (fun k => ins (k + 1)) n

theorem avoids_of_inv {P : S → Prop} (h0 : P s) (hs : ∀ t i, P t → P (step t i)) (hp : ∀ t, P t → p t = false) :
    Avoids step p s :=
  fun ins n => hp _ (trace_inv step s ins h0 hs n)

end Reaches

/-! ## A machine that contains another -/

section Part

variable {S' I' E' : Type*} {step : S → I → S} {p : S → Bool} {step' : S' → I' → S'} {p' : S' → Bool} {t : S'}
variable (embed : S' → S) (input : I → I')

/-- as long as a test on the part fails, only the part moves -/
theorem trace_part (hpart : ∀ t i, p' t = false → step (embed t) i = embed (step' t (input i))) (ins : ℕ → I) (n : ℕ)
    (h : ∀ k < n, p' (trace step' t (fun k => input (ins k)) k) = false) :
    trace step (embed t) ins n = embed (trace step' t (fun k => input (ins k)) n) := by
  induction n with
  | zero => rfl
  | succ n ih =>
    rw [trace_succ, ih fun k hk => h k (Nat.lt_succ_of_lt hk), hpart _ _ (h n (Nat.lt_succ_self n)), trace_succ]

/-- **The subsystem rule**: as long as a test on a part fails, only the part moves, and what the whole emits is what the
part emits. Then the whole does what it does from where the part passes the test. -/
theorem reaches_part {emit : S → I → List E} {emit' : S' → I' → List E'} {Q : List E → S → Prop} (event : E' → E)
    (hpart : ∀ t i, p' t = false → p (embed t) = false ∧ step (embed t) i = embed (step' t (input i)) ∧
      emit (embed t) i = (emit' t (input i)).map event)
    (h : Reaches emit' step' p' (fun l t' => Reaches emit step p (fun l' s' => Q (l.map event ++ l') s')
      (embed t')) t) :
    Reaches emit step p Q (embed t) := by
  intro ins
  obtain ⟨n, hbefore, -, hrest⟩ := h fun k => input (ins k)
  obtain ⟨m, hwait, hm, hq⟩ := hrest fun k => ins (n + k)
  have htrace (j : ℕ) (hj : j ≤ n) : trace step (embed t) ins j = embed (trace step' t (fun k => input (ins k)) j) :=
    trace_part embed input (fun t i ht => (hpart t i ht).2.1) ins j fun k hk => hbefore k (by omega)
  have hlog : ∀ j ≤ n, log emit step (embed t) ins j = (log emit' step' t (fun k => input (ins k)) j).map event := by
    intro j
    induction j with
    | zero => exact fun _ => rfl
    | succ j ih =>
      intro hj
      rw [log_succ, ih (by omega), htrace j (by omega), (hpart _ (ins j) (hbefore j hj)).2.2, log_succ, List.map_append]
  refine ⟨n + m, fun k hk => ?_, ?_, ?_⟩
  · rcases Nat.lt_or_ge k n with hlt | hge
    · rw [htrace k hlt.le]
      exact (hpart _ (ins k) (hbefore k hlt)).1
    · rw [show k = n + (k - n) by omega, trace_add, htrace n (le_refl n)]
      exact hwait (k - n) (by omega)
  · rw [trace_add, htrace n (le_refl n)]
    exact hm
  · rw [trace_add, log_add, htrace n (le_refl n), hlog n (le_refl n)]
    exact hq

/-- a part that avoids a test -/
theorem avoids_part (hpart : ∀ t i, p' t = false → step (embed t) i = embed (step' t (input i)))
    (hp : ∀ t, p' t = false → p (embed t) = false) (h : Avoids step' p' t) : Avoids step p (embed t) := by
  intro ins n
  rw [trace_part embed input hpart ins n fun k _ => h _ k]
  exact hp _ (h _ n)

/-- a part that passes a test in a state from which the whole avoids another -/
theorem avoids_part_of_reaches {emit' : S' → I' → List E'}
    (hpart : ∀ t i, p' t = false → p (embed t) = false ∧ step (embed t) i = embed (step' t (input i)))
    (h : Reaches emit' step' p' (fun _ t' => Avoids step p (embed t')) t) : Avoids step p (embed t) := by
  intro ins n
  obtain ⟨m, hbefore, -, hrest⟩ := h fun k => input (ins k)
  have htrace (j : ℕ) (hj : j ≤ m) : trace step (embed t) ins j = embed (trace step' t (fun k => input (ins k)) j) :=
    trace_part embed input (fun t i ht => (hpart t i ht).2) ins j fun k hk => hbefore k (by omega)
  rcases Nat.lt_or_ge n m with hlt | hge
  · rw [htrace n hlt.le]
    exact (hpart _ (ins n) (hbefore n hlt)).1
  · rw [show n = m + (n - m) by omega, trace_add, htrace m (le_refl m)]
    exact hrest _ (n - m)

end Part

end Vsync.Machine
