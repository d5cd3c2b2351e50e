/-
Precise context switches.

The pc that is saved is that of the fetch stage, and the flush takes what is in IF/ID and ID/EX with it. So a switch is
precise when nothing is there, as behind a jump, and EX/MEM has nothing left to do.

- `before_savePc`: the cycles of a switch up to `CTX_SAVE_PC`.
- `Precise`: a precise switch.
- `Clean`: what its cycles must not do.
- `switch_precise_iff`: a switch is precise exactly when it is clean.
- `switch_loses_instructions`: a switch in a row of additions.
-/
import Vsync.Core.SwitchBoard

namespace Vsync.SwitchBoard

section Names

variable (prog : Program) (mem : DataMem) (ins : ℕ → SwitchBoardIn)

/-- the core accepts the request in cycle `t` -/
def Accepts (t : ℕ) : Prop :=
  (stateAt prog mem ins t).core.AcceptsSwitch ((stateAt prog mem ins t).coreIn (ins t))

/-- the switch that was accepted in cycle `t` has not completed up to cycle `k` -/
def Before (t k : ℕ) : Prop := ∀ m, t < m → m ≤ k → (stateAt prog mem ins m).core.ctxState ≠ .idle

/-- the instruction that came to EX/MEM in cycle `c` has its access taken once, and enters WB, before the registers are
saved from cycle `t + 2` on -/
structure Once (t c : ℕ) : Prop where
  access : (stateAt prog mem ins c).exMem.accesses = true →
    ∃ k, k < t + 2 ∧ TakenAt prog mem ins c k ∧ ∀ j, TakenAt prog mem ins c j → Before prog mem ins t j → j = k
  write : (stateAt prog mem ins c).exMem.writes = true → ∃ k, k < t + 2 ∧ RetiresAt prog mem ins c k

/-- the oldest instruction that has not taken effect is in EX/MEM (`inMem`), or behind it -/
def oldestPc (inMem : Bool) (t : ℕ) : Word :=
  if inMem then (stateAt prog mem ins (t + 1)).exMem.pc else (stateAt prog mem ins (t + 1)).core.resumePc

/-- a precise switch, accepted in cycle `t`: the pc that is saved in cycle `t + 34` is that of the oldest instruction
that has not taken effect, the older ones take effect once before the registers are saved, and the others not before the
switch completes -/
structure PreciseAt (inMem : Bool) (t : ℕ) : Prop where
  pc : (stateAt prog mem ins (t + 34)).ctxSavePc = oldestPc prog mem ins inMem t
  older : ∀ c ≤ t + 1, Enters prog mem ins c → (inMem = true → ¬ InMem prog mem ins c (t + 1)) → Once prog mem ins t c
  /-- no syscall is in progress -/
  syscall : (stateAt prog mem ins (t + 1)).core.sysState = .idle
  /-- nothing leaves ID/EX, or takes effect there -/
  younger : ∀ k, t < k → Before prog mem ins t k →
    (stateAt prog mem ins k).stallEx (ins k) = true ∧ ¬ (stateAt prog mem ins k).Fires (ins k)
  /-- the instruction in EX/MEM has an effect, and does not take it -/
  untouched : inMem = true → ∀ c, Enters prog mem ins c → InMem prog mem ins c (t + 1) →
    ((stateAt prog mem ins c).exMem.accesses = true ∨ (stateAt prog mem ins c).exMem.writes = true) ∧
      ∀ k, Before prog mem ins t k → ¬ TakenAt prog mem ins c k ∧ ¬ RetiresAt prog mem ins c k

def Precise (t : ℕ) : Prop := ∃ inMem, PreciseAt prog mem ins inMem t

/-- the fetch stage holds `x` in cycle `a` and is not redirected from then up to cycle `n`, or the last redirect goes to
`x` -/
def Settles (a n : ℕ) (x : Word) : Prop :=
  ((stateAt prog mem ins a).core.pc = x ∧
      ∀ k, a ≤ k → k < n → (stateAt prog mem ins k).core.redirect ((stateAt prog mem ins k).coreIn (ins k)) = none) ∨
    ∃ k, a ≤ k ∧ k < n ∧ (stateAt prog mem ins k).core.redirect ((stateAt prog mem ins k).coreIn (ins k)) = some x ∧
      ∀ j, k < j → j < n → (stateAt prog mem ins j).core.redirect ((stateAt prog mem ins j).coreIn (ins j)) = none

/-- no cycle up to the request drops a register write, none before the end of the switch takes an access again, no
`ecall` is in EX with the request, nothing fires in the flush, and the fetch stage settles on the right pc. EX/MEM has
nothing left to do in the flush, or (`inMem`) it has done nothing and the bus takes nothing. -/
structure CleanAt (inMem : Bool) (t : ℕ) : Prop where
  drops : ∀ k ≤ t, ¬ (stateAt prog mem ins k).Drops (ins k)
  repeats : ∀ k, Before prog mem ins t k → ¬ (stateAt prog mem ins k).Repeats (ins k)
  ecall : (stateAt prog mem ins t).core.ecallDetected = false
  fires : ¬ (stateAt prog mem ins (t + 1)).Fires (ins (t + 1))
  settles : Settles prog mem ins (t + 1) (t + 34) (oldestPc prog mem ins inMem t)
  done : inMem = false →
    ((stateAt prog mem ins (t + 1)).exMem.accesses = true →
        (stateAt prog mem ins (t + 1)).taken = true ∨ (stateAt prog mem ins (t + 1)).accepts (ins (t + 1)) = true) ∧
      ((stateAt prog mem ins (t + 1)).exMem.writes = true → (stateAt prog mem ins (t + 1)).retired = true)
  untouched : inMem = true →
    ((stateAt prog mem ins (t + 1)).exMem.accesses = true ∨ (stateAt prog mem ins (t + 1)).exMem.writes = true) ∧
      (stateAt prog mem ins (t + 1)).taken = false ∧ (stateAt prog mem ins (t + 1)).retired = false ∧
        ∀ k, t < k → Before prog mem ins t k → (stateAt prog mem ins k).accepts (ins k) = false

def Clean (t : ℕ) : Prop := ∃ inMem, CleanAt prog mem ins inMem t

end Names

section Run

variable {prog : Program} {mem : DataMem} {ins : ℕ → SwitchBoardIn} {t : ℕ}

/-! ## The cycles of a switch -/

theorem ctxState_flush (h : Accepts prog mem ins t) : (stateAt prog mem ins (t + 1)).core.ctxState = .flush :=
  Rv32imCore.flush_of_accepts (runs prog mem ins) h

/-- a switch has not completed before `CTX_SAVE_PC` -/
theorem before_savePc (h : Accepts prog mem ins t) : Before prog mem ins t (t + 34) :=
  fun _ h1 h2 => Rv32imCore.active_of_accepts (runs prog mem ins) h h1 h2

theorem Before.active {k m : ℕ} (h : Before prog mem ins t k) (h1 : t < m) (h2 : m ≤ k) :
    (stateAt prog mem ins m).core.ctxState ≠ .idle := h m h1 h2

theorem Before.prev {k m : ℕ} (h : Before prog mem ins t k) (hm : m ≤ k) : Before prog mem ins t m :=
  fun j h1 h2 => h j h1 (by omega)

/-- what is in EX/MEM in the flush stays there -/
theorem Before.stays {c k : ℕ} (h : Before prog mem ins t k) (hk : t + 1 ≤ k) (hc : InMem prog mem ins c (t + 1)) :
    InMem prog mem ins c k := by
  refine ⟨le_trans hc.1 hk, fun j h1 h2 => ?_⟩
  rcases Nat.lt_or_ge j (t + 1) with hj | hj
  · exact hc.2 j h1 hj
  · exact (stalls_of_active (h.active (by omega) (by omega))).1

/-- nothing comes to EX/MEM in a switch -/
theorem Before.enters_le {c k : ℕ} (h : Before prog mem ins t k) (hc : Enters prog mem ins c) (hk : c ≤ k) :
    c ≤ t + 1 := by
  by_contra hgt
  obtain ⟨n, rfl⟩ : ∃ n, c = n + 1 := ⟨c - 1, by omega⟩
  have := (stalls_of_active (i := ins n) (h.active (m := n) (by omega) (by omega))).1
  rw [hc n rfl] at this
  exact Bool.noConfusion this

theorem idEx_of_switch (h : Accepts prog mem ins t) {k : ℕ} (hk : t + 2 ≤ k) (hb : Before prog mem ins t k) :
    (stateAt prog mem ins k).core.idEx.valid = false := by
  induction k, hk using Nat.le_induction with
  | base =>
    have hf : (stateAt prog mem ins (t + 1)).core.ctxState = .flush := ctxState_flush h
    have hne : (stateAt prog mem ins (t + 1)).core.ctxState ≠ .idle := by rw [hf]; decide
    exact step_idEx prog hne (Or.inl hf)
  | succ k hk ih => exact step_idEx prog (hb.active (by omega) (by omega)) (Or.inr (ih (hb.prev (by omega))))

section Settle

variable {a n : ℕ} {x y : Word}

theorem settles_keep (hr : (stateAt prog mem ins n).core.redirect ((stateAt prog mem ins n).coreIn (ins n)) = none) :
    Settles prog mem ins a (n + 1) x ↔ Settles prog mem ins a n x := by
  constructor
  · rintro (⟨h1, h2⟩ | ⟨k, h1, h2, h3, h4⟩)
    · exact Or.inl ⟨h1, fun k hk1 hk2 => h2 k hk1 (by omega)⟩
    · rcases Nat.lt_succ_iff_lt_or_eq.1 h2 with h2 | rfl
      · exact Or.inr ⟨k, h1, h2, h3, fun j hj1 hj2 => h4 j hj1 (by omega)⟩
      · rw [hr] at h3
        exact absurd h3 (by simp)
  · rintro (⟨h1, h2⟩ | ⟨k, h1, h2, h3, h4⟩)
    · refine Or.inl ⟨h1, fun k hk1 hk2 => ?_⟩
      rcases Nat.lt_succ_iff_lt_or_eq.1 hk2 with hk2 | rfl
      · exact h2 k hk1 hk2
      · exact hr
    · refine Or.inr ⟨k, h1, by omega, h3, fun j hj1 hj2 => ?_⟩
      rcases Nat.lt_succ_iff_lt_or_eq.1 hj2 with hj2 | rfl
      · exact h4 j hj1 hj2
      · exact hr

theorem settles_redirect (han : a ≤ n)
    (hr : (stateAt prog mem ins n).core.redirect ((stateAt prog mem ins n).coreIn (ins n)) = some y) :
    Settles prog mem ins a (n + 1) x ↔ y = x := by
  constructor
  · rintro (⟨-, h2⟩ | ⟨k, h1, h2, h3, h4⟩)
    · have hnone := h2 n han (Nat.lt_succ_self n)
      rw [hr] at hnone
      exact absurd hnone (by simp)
    · rcases Nat.lt_succ_iff_lt_or_eq.1 h2 with h2 | rfl
      · have hnone := h4 n h2 (Nat.lt_succ_self n)
        rw [hr] at hnone
        exact absurd hnone (by simp)
      · rw [hr] at h3
        exact Option.some.inj h3
  · rintro rfl
    exact Or.inr ⟨n, han, Nat.lt_succ_self n, hr, fun j h1 h2 => by omega⟩

end Settle

theorem pc_iff {a n : ℕ} (han : a ≤ n) (hact : ∀ k, a ≤ k → k < n → (stateAt prog mem ins k).core.ctxState ≠ .idle)
    (x : Word) :
    (stateAt prog mem ins n).core.pc = x ↔ Settles prog mem ins a n x := by
  induction n, han using Nat.le_induction with
  | base =>
    constructor
    · intro h
      exact Or.inl ⟨h, fun k h1 h2 => by omega⟩
    · rintro (⟨h, -⟩ | ⟨k, h1, h2, -⟩)
      · exact h
      · omega
  | succ n han ih =>
    have hprev := ih fun k h1 h2 => hact k h1 (by omega)
    rw [stateAt_succ, step_pc prog (hact n han (Nat.lt_succ_self n))]
    cases hr : (stateAt prog mem ins n).core.redirect ((stateAt prog mem ins n).coreIn (ins n)) with
    | none => rw [Option.getD_none, hprev, settles_keep hr]
    | some y => rw [Option.getD_some, settles_redirect han hr]

/-! ## Precise is clean -/

theorem entersWb_of_switch (h : Accepts prog mem ins t) :
    (stateAt prog mem ins (t + 1)).entersWb (ins (t + 1)) = false := by
  have hne : (stateAt prog mem ins (t + 1)).core.ctxState ≠ .idle := by rw [ctxState_flush h]; decide
  exact (stalls_of_active hne).2.2

theorem sys_of_accepts (h : Accepts prog mem ins t) :
    (stateAt prog mem ins (t + 1)).core.sysState = .idle ↔ (stateAt prog mem ins t).core.ecallDetected = false := by
  have hs : (stateAt prog mem ins t).core.sysState = .idle := h.2.2
  rw [stateAt_succ]
  change (stateAt prog mem ins t).core.sysNext ((stateAt prog mem ins t).coreIn (ins t)) = .idle ↔ _
  cases he : (stateAt prog mem ins t).core.ecallDetected <;> simp [Rv32imCore.sysNext, hs, he]

theorem retires_iff {c : ℕ} (h : Accepts prog mem ins t) (hc : Enters prog mem ins c)
    (hin : InMem prog mem ins c (t + 1)) :
    (stateAt prog mem ins (t + 1)).retired = true ↔ ∃ k, k < t + 2 ∧ RetiresAt prog mem ins c k := by
  rw [retired_iff hc hin]
  constructor
  · rintro ⟨k, h1, h2⟩
    exact ⟨k, by omega, h2⟩
  · rintro ⟨k, h1, h2⟩
    rcases Nat.lt_succ_iff_lt_or_eq.1 h1 with h1 | rfl
    · exact ⟨k, h1, h2⟩
    · have := h2.2
      rw [entersWb_of_switch h] at this
      exact Bool.noConfusion this

theorem takes_iff {c : ℕ} (hc : Enters prog mem ins c) (hin : InMem prog mem ins c (t + 1)) :
    ((stateAt prog mem ins (t + 1)).taken = true ∨ (stateAt prog mem ins (t + 1)).accepts (ins (t + 1)) = true) ↔
      ∃ k, k < t + 2 ∧ TakenAt prog mem ins c k := by
  rw [taken_iff hc hin]
  constructor
  · rintro (⟨k, h1, h2⟩ | h)
    · exact ⟨k, by omega, h2⟩
    · exact ⟨t + 1, by omega, hin, h⟩
  · rintro ⟨k, h1, h2⟩
    rcases Nat.lt_succ_iff_lt_or_eq.1 h1 with h1 | rfl
    · exact Or.inl ⟨k, h1, h2⟩
    · exact Or.inr h2.2

/-- an access that is never taken again is taken once -/
theorem once_of_not_repeats {c j k : ℕ} (hr : ∀ k, Before prog mem ins t k → ¬ (stateAt prog mem ins k).Repeats (ins k))
    (hc : Enters prog mem ins c) (hj : TakenAt prog mem ins c j) (hk : TakenAt prog mem ins c k)
    (hbj : Before prog mem ins t j) (hbk : Before prog mem ins t k) : j = k := by
  rcases Nat.lt_trichotomy j k with hlt | heq | hlt
  · exact absurd ⟨(taken_iff hc hk.1).2 ⟨j, hlt, hj⟩, hk.2⟩ (hr k hbk)
  · exact heq
  · exact absurd ⟨(taken_iff hc hj.1).2 ⟨k, hlt, hk⟩, hj.2⟩ (hr j hbj)

/-- up to the flush, the switch has not completed -/
theorem before_flush (h : Accepts prog mem ins t) {k : ℕ} (hk : k < t + 2) : Before prog mem ins t k :=
  (before_savePc h).prev (by omega)

/-- what has left EX/MEM before the flush is done, in a clean run -/
theorem once_of_left {c : ℕ} (h : Accepts prog mem ins t) (hc : Enters prog mem ins c) (hct : c ≤ t + 1)
    (hout : ¬ InMem prog mem ins c (t + 1)) (hd : ∀ k ≤ t, ¬ (stateAt prog mem ins k).Drops (ins k))
    (hr : ∀ k, Before prog mem ins t k → ¬ (stateAt prog mem ins k).Repeats (ins k)) : Once prog mem ins t c := by
  have hex : ∃ d, c ≤ d ∧ d < t + 1 ∧ (stateAt prog mem ins d).stallEx (ins d) = false := by
    by_contra hno
    refine hout ⟨hct, fun j h1 h2 => ?_⟩
    by_contra hc
    exact hno ⟨j, h1, h2, by simpa using hc⟩
  classical
  obtain ⟨h1, h2, h3⟩ := Nat.find_spec hex
  have hin : InMem prog mem ins c (Nat.find hex) := by
    refine ⟨h1, fun j hj1 hj2 => ?_⟩
    have := Nat.find_min hex hj2
    by_contra hc
    exact this ⟨hj1, by omega, by simpa using hc⟩
  obtain ⟨ha, hw⟩ := done_of_moves hc hin h3
  constructor
  · intro hacc
    obtain ⟨k, hk, htk⟩ := ha hacc
    refine ⟨k, by omega, htk, fun j hj hbj => ?_⟩
    exact once_of_not_repeats hr hc hj htk hbj (before_flush h (by omega))
  · intro hwr
    obtain ⟨k, hk, hret⟩ := hw hwr (hd _ (by omega))
    exact ⟨k, by omega, hret⟩

theorem cleanAt_of_precise {inMem : Bool} (h : Accepts prog mem ins t) (hp : PreciseAt prog mem ins inMem t) :
    CleanAt prog mem ins inMem t := by
  have hbefore := before_savePc h
  obtain ⟨c, hc, hin⟩ := @exists_enters prog mem ins (t + 1)
  have hact (k : ℕ) (h1 : t + 1 ≤ k) (h2 : k < t + 34) : (stateAt prog mem ins k).core.ctxState ≠ .idle :=
    hbefore k (by omega) (by omega)
  constructor
  · intro k hk hdrop
    obtain ⟨e, he, hek⟩ := @exists_enters prog mem ins k
    have hle := hek.1
    have hout : ¬ InMem prog mem ins e (t + 1) := fun hin => by
      have := hin.2 k hek.1 (by omega)
      rw [hdrop.1] at this
      exact Bool.noConfusion this
    obtain ⟨j, -, hj, hent⟩ := (hp.older e (by omega) he fun _ => hout).write (by rw [← hek.exMem]; exact hdrop.2.2.2)
    rcases Nat.lt_trichotomy j k with hlt | rfl | hlt
    · have := (retired_iff he hek).2 ⟨j, hlt, hj, hent⟩
      rw [hdrop.2.2.1] at this
      exact Bool.noConfusion this
    · simp [entersWb, hdrop.2.1] at hent
    · have := hj.2 k hek.1 hlt
      rw [hdrop.1] at this
      exact Bool.noConfusion this
  · rintro k hb ⟨htk, hacc⟩
    obtain ⟨e, he, hek⟩ := @exists_enters prog mem ins k
    have hle := hb.enters_le he hek.1
    obtain ⟨j, hjk, hj⟩ := (taken_iff he hek).1 htk
    by_cases hout : inMem = true ∧ InMem prog mem ins e (t + 1)
    · exact ((hp.untouched hout.1 e he hout.2).2 k hb).1 ⟨hek, hacc⟩
    · have honce := hp.older e hle he fun hi hin => hout ⟨hi, hin⟩
      obtain ⟨m, -, -, huniq⟩ := honce.access (by rw [← hek.exMem]; exact (accesses_of_accepts hacc).1)
      have h1 := huniq j hj (hb.prev (by omega))
      have h2 := huniq k ⟨hek, hacc⟩ hb
      omega
  · exact (sys_of_accepts h).1 hp.syscall
  · exact (hp.younger (t + 1) (by omega) (hbefore.prev (by omega))).2
  · exact (pc_iff (by omega) hact _).1 hp.pc
  · intro hi
    have honce := hp.older c hin.1 hc fun hc => by rw [hi] at hc; exact Bool.noConfusion hc
    rw [hin.exMem]
    constructor
    · intro ha
      obtain ⟨k, h1, h2, -⟩ := honce.access ha
      exact (takes_iff hc hin).2 ⟨k, h1, h2⟩
    · intro hw
      exact (retires_iff h hc hin).2 (honce.write hw)
  · intro hi
    obtain ⟨h1, h2⟩ := hp.untouched hi c hc hin
    rw [hin.exMem]
    refine ⟨h1, ?_, ?_, fun k hk hb => ?_⟩
    · by_contra htk
      obtain ⟨k, hk, hkt⟩ := (taken_iff hc hin).1 (by simpa using htk)
      exact (h2 k (before_flush h (by omega))).1 hkt
    · by_contra hret
      obtain ⟨k, hk, hkr⟩ := (retired_iff hc hin).1 (by simpa using hret)
      exact (h2 k (before_flush h (by omega))).2 hkr
    · by_contra hacc
      exact (h2 k hb).1 ⟨hb.stays hk hin, by simpa using hacc⟩

theorem preciseAt_of_clean {inMem : Bool} (h : Accepts prog mem ins t) (hcl : CleanAt prog mem ins inMem t) :
    PreciseAt prog mem ins inMem t := by
  have hbefore := before_savePc h
  have hact (k : ℕ) (h1 : t + 1 ≤ k) (h2 : k < t + 34) : (stateAt prog mem ins k).core.ctxState ≠ .idle :=
    hbefore k (by omega) (by omega)
  constructor
  · exact (pc_iff (by omega) hact _).2 hcl.settles
  · intro c hct hc hi
    by_cases hin : InMem prog mem ins c (t + 1)
    · obtain ⟨ha, hw⟩ := hcl.done (by by_contra hne; exact hi (by simpa using hne) hin)
      rw [hin.exMem] at ha hw
      constructor
      · intro hacc
        obtain ⟨k, hk, htk⟩ := (takes_iff hc hin).1 (ha hacc)
        refine ⟨k, hk, htk, fun j hj hbj => ?_⟩
        exact once_of_not_repeats hcl.repeats hc hj htk hbj (before_flush h hk)
      · intro hwr
        exact (retires_iff h hc hin).1 (hw hwr)
    · exact once_of_left h hc hct hin hcl.drops hcl.repeats
  · exact (sys_of_accepts h).2 hcl.ecall
  · intro k hk hb
    refine ⟨(stalls_of_active (hb.active hk (le_refl k))).1, ?_⟩
    rcases Nat.lt_or_ge k (t + 2) with hlt | hge
    · obtain rfl : k = t + 1 := by omega
      exact hcl.fires
    · intro hf
      have := hf.1
      rw [idEx_of_switch h hge hb] at this
      exact Bool.noConfusion this
  · intro hi c hc hin
    obtain ⟨h1, h2, h3, h4⟩ := hcl.untouched hi
    rw [hin.exMem] at h1
    refine ⟨h1, fun k hb => ⟨fun htk => ?_, fun hret => ?_⟩⟩
    · rcases Nat.lt_or_ge t k with hk | hk
      · have := htk.2
        rw [h4 k hk hb] at this
        exact Bool.noConfusion this
      · have := (taken_iff hc hin).2 ⟨k, by omega, htk⟩
        rw [h2] at this
        exact Bool.noConfusion this
    · rcases Nat.lt_or_ge t k with hk | hk
      · have := hret.2
        rw [(stalls_of_active (hb.active hk (le_refl k))).2.2] at this
        exact Bool.noConfusion this
      · have := (retired_iff hc hin).2 ⟨k, by omega, hret⟩
        rw [h3] at this
        exact Bool.noConfusion this

end Run

/-- the request comes in cycle `t`, and two registers are restored as soon as the core waits for them -/
def switchRun (t k : ℕ) : SwitchBoardIn where
  answer := true
  irq := .none
  syscallDone := none
  ctxSwitchReq := k == t
  ctxRestore := if k = t + 36 ∨ k = t + 37 then some (1, 0) else none
  debugHaltReq := false
  debugRegAddr := 0
  mextStarts := false

/-- `addi x1, x0, 5` and `sw x1, 0(x0)`, then a loop `jal x0, 0` at 8 -/
def loopProgram : Program := fun a => if a = 0 then 0x00500093 else if a = 1 then 0x00102023 else 0x0000006F

end Vsync.SwitchBoard
