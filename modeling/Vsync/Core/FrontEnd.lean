/-
The front of the pipeline, for every instruction and trap: where the program stands.

- `Front`: ID/EX holds the instruction at `pc`, or the fetch stage is on its way there; behind a valid ID/EX comes the
  next word, or the `target` that the instruction has redirected to already.
- `front_of_restarts`, `step_front_of_hold`, `step_front_of_moves`: one cycle.
-/
import Vsync.Core.Ecall
import Vsync.Core.Division

namespace Vsync.Ledger

open Lockstep

/-- the program stands at `pc`; `target` is where the instruction there goes -/
structure Front (prog : Program) (w : Ledger) (pc target : Word) : Prop where
  idEx : w.core.idEx.valid = true → ∃ r1 r2, w.core.idEx = Decode.idEx ⟨pc, prog.fetch pc, true⟩ r1 r2
  next : w.core.idEx.valid = false → Follows prog w.board pc
  behind : w.core.idEx.valid = true → Follows prog w.board (pc + 4) ∨ Follows prog w.board target

/-- no trap and no `ecall` in this cycle: only a branch redirects -/
structure Runs (w : Ledger) (i : BoardIn) : Prop where
  plain : w.board.Plain
  flushAll : w.core.flushAll (w.coreIn i) = false
  ecall : w.core.ecallDetected = false

section Cycle

variable {prog : Program} {w : Ledger} {i : BoardIn} {pc target p : Word}

theorem front_of_restarts (h : w.Restarts pc) (target : Word) : Front prog w pc target := by
  obtain ⟨h1, h2, h3, h4⟩ := h
  refine ⟨fun hv => ?_, fun _ => ?_, fun hv => ?_⟩
  · simp [h4] at hv
  · have h2' : w.board.core.suppressValid = true := h2
    have h3' : w.board.core.ifId.valid = false := h3
    simp only [Follows, Fetching, h2', h3', if_true, Bool.false_eq_true, if_false]
    exact h1
  · simp [h4] at hv

theorem Runs.step_fetch (prog : Program) (h : w.Runs i) :
    (step prog w i).core.pc = (if w.core.branchFlush then w.core.branchTarget
      else if w.stallId i then w.core.pc else w.core.pc + 4) ∧
    (step prog w i).core.suppressValid = (w.core.branchFlush || (w.core.suppressValid && w.stallId i)) ∧
    (step prog w i).core.pcDelayed = (if w.stallId i then w.core.pcDelayed else w.core.pc) ∧
    (step prog w i).core.ifId = (if w.core.branchFlush then .bubble else if w.stallId i then w.core.ifId
      else ⟨w.core.pcDelayed, w.board.imemQ, !w.core.suppressValid⟩) ∧
    (step prog w i).board.imemQ = (if w.stallId i then w.board.imemQ else prog.fetch w.core.pc) := by
  have hc : w.core.ctxState = .idle := h.plain.1
  have hr : w.core.redirect (w.coreIn i) = if w.core.branchFlush then some w.core.branchTarget else none := by
    simp [Rv32imCore.redirect, h.flushAll, h.ecall]
  have hst : w.core.stallId (w.coreIn i) = w.stallId i := rfl
  refine ⟨?_, ?_, rfl, ?_, ?_⟩
  · change w.core.pcNext (w.coreIn i) = _
    rw [Rv32imCore.pcNext, hr, hst]
    cases w.core.branchFlush <;> rfl
  · change w.core.suppressNext (w.coreIn i) = _
    rw [Rv32imCore.suppressNext, hr, hst]
    cases w.core.branchFlush <;> rfl
  · change w.core.ifIdNext (w.coreIn i) = _
    have hf : w.core.flushIf (w.coreIn i) = w.core.branchFlush := by
      simp [Rv32imCore.flushIf, h.flushAll, h.ecall, hc]
    rw [Rv32imCore.ifIdNext, hf, hst]
    rfl
  · change (if w.core.imemEn (w.coreIn i) then prog.fetch w.core.pc else w.board.imemQ) = _
    rw [Rv32imCore.imemEn, hst]
    cases w.stallId i <;> rfl

theorem Runs.flushId (h : w.Runs i) : w.flushId i = (w.core.branchFlush && !w.stallEx i) := by
  have hc : w.core.ctxState = .idle := h.plain.1
  have hst : w.core.stallEx (w.coreIn i) = w.stallEx i := rfl
  have hf : w.flushId i = w.core.flushId (w.coreIn i) := rfl
  rw [hf]
  simp [Rv32imCore.flushId, h.flushAll, h.ecall, hc, hst]

theorem Runs.follows_of_branch (prog : Program) (h : w.Runs i) (hb : w.core.branchFlush = true) :
    Follows prog (step prog w i).board w.core.branchTarget := by
  obtain ⟨h1, h2, -, h4, -⟩ := h.step_fetch prog
  have h1' : (step prog w i).board.core.pc = w.core.branchTarget := by rw [hb] at h1; exact h1
  have h2' : (step prog w i).board.core.suppressValid = true := by rw [hb] at h2; exact h2
  have h4' : (step prog w i).board.core.ifId = .bubble := by rw [hb] at h4; exact h4
  simp [Follows, Fetching, h1', h2', h4', IfId.bubble]

theorem Runs.follows_of_hold (h : w.Runs i) (hb : w.core.branchFlush = false) (hs : w.stallId i = true)
    (hp : Follows prog w.board p) : Follows prog (step prog w i).board p := by
  obtain ⟨h1, h2, h3, h4, h5⟩ := h.step_fetch prog
  simp only [hb, hs, Bool.false_eq_true, if_false, if_true, Bool.false_or, Bool.and_true] at h1 h2 h3 h4 h5
  change (step prog w i).board.core.pc = w.board.core.pc at h1
  change (step prog w i).board.core.suppressValid = w.board.core.suppressValid at h2
  change (step prog w i).board.core.pcDelayed = w.board.core.pcDelayed at h3
  change (step prog w i).board.core.ifId = w.board.core.ifId at h4
  unfold Follows Fetching at hp ⊢
  rw [h4, h2, h1, h3, h5]
  exact hp

theorem Runs.follows_of_fetching (h : w.Runs i) (hb : w.core.branchFlush = false) (hs : w.stallId i = false)
    (hp : Fetching prog w.board p) : Follows prog (step prog w i).board p := by
  obtain ⟨h1, h2, h3, h4, h5⟩ := h.step_fetch prog
  simp only [hb, hs, Bool.false_eq_true, if_false, Bool.false_or, Bool.and_false] at h1 h2 h3 h4 h5
  change (step prog w i).board.core.pc = w.board.core.pc + 4 at h1
  change (step prog w i).board.core.suppressValid = false at h2
  change (step prog w i).board.core.pcDelayed = w.board.core.pc at h3
  change (step prog w i).board.core.ifId = ⟨w.board.core.pcDelayed, w.board.imemQ, !w.board.core.suppressValid⟩ at h4
  change (step prog w i).board.imemQ = prog.fetch w.board.core.pc at h5
  unfold Fetching at hp
  unfold Follows Fetching
  rw [h4, h2, h1, h3, h5]
  cases hv : w.board.core.suppressValid with
  | true =>
    have hpc : w.board.core.pc = p := by simpa [hv] using hp
    simp [hpc]
  | false =>
    obtain ⟨hd, hq, hpc⟩ := by simpa [hv] using hp
    simp [hd, hq, hpc]

/-- **A stall keeps the front**, but for the branch in EX, which may redirect already. -/
theorem step_front_of_hold (h : Front prog w pc target) (hr : w.Runs i) (hs : w.stallId i = true)
    (hkeep : w.core.branchFlush = true → w.stallEx i = true)
    (ht : w.core.branchFlush = true → w.core.branchTarget = target) :
    Front prog (step prog w i) pc target := by
  have hf : w.flushId i = false := by
    rw [hr.flushId]
    cases hb : w.core.branchFlush with
    | true => rw [hkeep hb]; rfl
    | false => rfl
  have hid : (step prog w i).core.idEx = w.core.idEx := by
    have hs' : w.core.stallId (w.coreIn i) = true := hs
    have hf' : w.core.flushId (w.coreIn i) = false := hf
    change w.core.idExNext (w.coreIn i) = _
    simp [Rv32imCore.idExNext, hs', hf']
  refine ⟨?_, ?_, ?_⟩
  · rw [hid]
    exact h.idEx
  · rw [hid]
    intro hv
    have hb : w.core.branchFlush = false := by simp [Rv32imCore.branchFlush, branchTaken_of_invalid hv]
    exact hr.follows_of_hold hb hs (h.next hv)
  · rw [hid]
    intro hv
    cases hb : w.core.branchFlush with
    | true =>
      rw [← ht hb]
      exact Or.inr (hr.follows_of_branch prog hb)
    | false => exact (h.behind hv).imp (hr.follows_of_hold hb hs) (hr.follows_of_hold hb hs)

/-- the instruction in ID/EX goes to `next`; without one, the program stays at `pc` -/
structure GoesTo (w : Ledger) (pc target next : Word) : Prop where
  valid : w.core.idEx.valid = true → next = target ∧ (w.core.branchFlush = true → w.core.branchTarget = target) ∧
    (w.core.branchFlush = false → target = pc + 4)
  invalid : w.core.idEx.valid = false → next = pc

/-- **When ID/EX moves on, it takes the next instruction.** -/
theorem step_front_of_moves {next : Word} (h : Front prog w pc target) (hr : w.Runs i) (hs : w.stallId i = false)
    (hg : w.GoesTo pc target next) (target' : Word) : Front prog (step prog w i) next target' := by
  have hst : w.stallEx i = false := by
    have hs' : w.core.stallId (w.coreIn i) = false := hs
    simp only [Rv32imCore.stallId, Bool.or_eq_false_iff] at hs'
    exact hs'.2
  cases hb : w.core.branchFlush with
  | true =>
    have hv : w.core.idEx.valid = true := by
      by_contra hv
      simp [Rv32imCore.branchFlush, branchTaken_of_invalid (Bool.eq_false_of_not_eq_true hv)] at hb
    obtain ⟨hn, htarget, -⟩ := hg.valid hv
    have hid : (step prog w i).core.idEx = .bubble := by
      have hf' : w.core.flushId (w.coreIn i) = true := by
        have hf := hr.flushId
        rw [hb, hst] at hf
        exact hf
      change w.core.idExNext (w.coreIn i) = _
      simp [Rv32imCore.idExNext, hf']
    have hfol := hr.follows_of_branch prog hb
    rw [htarget hb, ← hn] at hfol
    refine ⟨?_, fun _ => hfol, ?_⟩
    · rw [hid]
      exact fun hc => absurd hc Bool.false_ne_true
    · rw [hid]
      exact fun hc => absurd hc Bool.false_ne_true
  | false =>
    have hf : w.flushId i = false := by rw [hr.flushId, hb]; rfl
    have hid := idEx_of_latches prog hr.plain hs hf
    -- the instruction in IF/ID, or the one that the fetch stage brings, is the next one
    have hnext : Follows prog w.board next := by
      cases hv : w.core.idEx.valid with
      | false =>
        rw [hg.invalid hv]
        exact h.next hv
      | true =>
        obtain ⟨hn, -, hstay⟩ := hg.valid hv
        rcases h.behind hv with hfol | hfol
        · rwa [hn, hstay hb]
        · rwa [hn]
    have hvalid : (step prog w i).core.idEx.valid = w.board.core.ifId.valid := by rw [hid]; rfl
    unfold Follows at hnext
    refine ⟨?_, ?_, ?_⟩
    · rw [hvalid]
      intro hv
      rw [if_pos hv] at hnext
      have hifId : w.core.ifId = ⟨next, prog.fetch next, true⟩ := hnext.1
      rw [hid, hifId]
      exact ⟨_, _, rfl⟩
    · rw [hvalid]
      intro hv
      rw [hv, if_neg (by decide)] at hnext
      exact hr.follows_of_fetching hb hs hnext
    · rw [hvalid]
      intro hv
      rw [if_pos hv] at hnext
      exact Or.inl (hr.follows_of_fetching hb hs hnext.2)

end Cycle

end Vsync.Ledger
