/-
`fetch_stage.sv` with port A of `bram_imem.sv`, on its own: the PC, the delayed PC, the suppress flag and IF/ID, with
any stall and redirect inputs.

- `step_front`: the front end of `Rv32imCore` is this stage, with the stall, flush and redirect of the core.
- `Fetching prog t c s`: what the registers hold `c` unstalled cycles after a redirect to `t`.
- `fetch_stream`: the entries that IF/ID latches.

Port A is enabled by `!stall` and the flush is up exactly with `branch_taken`: `FetchUnit.step` wires both.
-/
import Vsync.Machine
import Vsync.Core.Rv32imCore
import Vsync.Core.Memory

namespace Vsync

/-- the inputs of `fetch_stage`; `branch` is `branch_target`, while `branch_taken` is up -/
structure FetchIn where
  stall : Bool
  flush : Bool
  branch : Option Word
  imemRdata : Word

structure FetchStage where
  pc : Word
  pcDelayed : Word
  suppressValid : Bool
  ifId : IfId
  deriving DecidableEq, Repr

def ADDR_IMEM_BASE : Word := 0x00000000

namespace FetchStage

def reset : FetchStage where
  pc := ADDR_IMEM_BASE
  pcDelayed := ADDR_IMEM_BASE
  suppressValid := true
  ifId := .bubble

def pcNext (s : FetchStage) (i : FetchIn) : Word :=
  match i.branch with
  | some target => target
  | none => if i.stall then s.pc else s.pc + 4

def ifIdNext (s : FetchStage) (i : FetchIn) : IfId :=
  if i.flush then .bubble
  else if i.stall then s.ifId
  else ⟨s.pcDelayed, i.imemRdata, !s.suppressValid⟩

def step (s : FetchStage) (i : FetchIn) : FetchStage where
  pc := s.pcNext i
  pcDelayed := if i.stall then s.pcDelayed else s.pc
  suppressValid := i.branch.isSome || (s.suppressValid && i.stall)
  ifId := s.ifIdNext i

end FetchStage

def Rv32imCore.front (s : Rv32imCore) : FetchStage := ⟨s.pc, s.pcDelayed, s.suppressValid, s.ifId⟩

/-- **The core's front end is `fetch_stage`.** -/
theorem Rv32imCore.step_front (s : Rv32imCore) (i : CoreIn) :
    (s.step i).front = s.front.step ⟨s.stallId i, s.flushIf i, s.redirect i, i.imemRdata⟩ := rfl

/-- what comes from outside in a cycle: `stall`, and `branch_target` while `branch_taken` is up -/
structure FrontIn where
  stall : Bool
  branch : Option Word

/-- the stage and the read register of port A -/
structure FetchUnit where
  stage : FetchStage
  aRdata : Word

/-- an entry of IF/ID -/
structure Fetched where
  pc : Word
  instruction : Word
  deriving DecidableEq, Repr

namespace FetchUnit

open Machine

def reset (aRdata : Word) : FetchUnit := ⟨.reset, aRdata⟩

/-- the stage's inputs: the flush is up exactly in the cycles of `branch_taken` -/
def stageIn (s : FetchUnit) (i : FrontIn) : FetchIn := ⟨i.stall, i.branch.isSome, i.branch, s.aRdata⟩

def step (prog : Program) (s : FetchUnit) (i : FrontIn) : FetchUnit where
  stage := s.stage.step (s.stageIn i)
  aRdata := if i.stall then s.aRdata else prog.fetch s.stage.pc

/-- the valid entry that IF/ID latches in this cycle, if any: it is neither flushed nor held -/
def latched (s : FetchUnit) (i : FrontIn) : List Fetched :=
  let next := (s.stage.step (s.stageIn i)).ifId
  if !(s.stageIn i).flush && !i.stall && next.valid then [⟨next.pc, next.instruction⟩] else []

def entry (prog : Program) (a : Word) : Fetched := ⟨a, prog.fetch a⟩

def addrAt (t : Word) (k : ℕ) : Word := t + BitVec.ofNat 32 (4 * k)

def stream (prog : Program) (t : Word) (n : ℕ) : List Fetched := (List.range n).map fun k => entry prog (addrAt t k)

theorem stream_succ (prog : Program) (t : Word) (n : ℕ) :
    stream prog t (n + 1) = stream prog t n ++ [entry prog (addrAt t n)] := by
  simp [stream, List.range_succ]

@[simp] theorem addrAt_zero (t : Word) : addrAt t 0 = t := by simp [addrAt]

theorem addrAt_succ (t : Word) (k : ℕ) : addrAt t (k + 1) = addrAt t k + 4 := by
  have h : BitVec.ofNat 32 (4 * (k + 1)) = BitVec.ofNat 32 (4 * k) + 4 := by
    rw [Nat.mul_add, BitVec.ofNat_add]
    rfl
  rw [addrAt, addrAt, h, BitVec.add_assoc]

/-! ## Between two redirects -/

/-- the registers `c` unstalled cycles after a redirect to `t`: the memory is one word ahead of IF/ID, the PC two -/
def Fetching (prog : Program) (t : Word) : ℕ → FetchUnit → Prop
  | 0, s => s.stage.suppressValid = true ∧ s.stage.pc = t
  | c + 1, s => s.stage.suppressValid = false ∧ s.stage.pcDelayed = addrAt t c ∧ s.stage.pc = addrAt t (c + 1) ∧
      s.aRdata = prog.fetch (addrAt t c)

section Cycle

variable {prog : Program} {s : FetchUnit} {i : FrontIn} {t : Word} {c : ℕ}

theorem fetching_reset (prog : Program) (aRdata : Word) : Fetching prog ADDR_IMEM_BASE 0 (reset aRdata) := ⟨rfl, rfl⟩

theorem fetching_redirect (prog : Program) (s : FetchUnit) (h : i.branch = some t) :
    Fetching prog t 0 (s.step prog i) := by
  refine ⟨?_, ?_⟩
  · simp [step, FetchStage.step, stageIn, h]
  · simp [step, FetchStage.step, FetchStage.pcNext, stageIn, h]

/-- a redirect latches nothing, nor does a stall -/
theorem latched_redirect (s : FetchUnit) (h : i.branch = some t) : s.latched i = [] := by
  simp [latched, stageIn, h]

theorem latched_stall (s : FetchUnit) (h : i.stall = true) : s.latched i = [] := by
  simp [latched, h]

theorem Fetching.stall (hf : Fetching prog t c s) (hb : i.branch = none) (hs : i.stall = true) :
    Fetching prog t c (s.step prog i) := by
  cases c with
  | zero =>
    obtain ⟨hsup, hpc⟩ := hf
    refine ⟨?_, ?_⟩
    · simp [step, FetchStage.step, stageIn, hb, hs, hsup]
    · simp [step, FetchStage.step, FetchStage.pcNext, stageIn, hb, hs, hpc]
  | succ c =>
    obtain ⟨hsup, hdel, hpc, hq⟩ := hf
    refine ⟨?_, ?_, ?_, ?_⟩
    · simp [step, FetchStage.step, stageIn, hb, hsup]
    · simp [step, FetchStage.step, stageIn, hs, hdel]
    · simp [step, FetchStage.step, FetchStage.pcNext, stageIn, hb, hs, hpc]
    · simp [step, hs, hq]

/-- an unstalled cycle moves everything on by one word -/
theorem Fetching.advance (hf : Fetching prog t c s) (hb : i.branch = none) (hs : i.stall = false) :
    Fetching prog t (c + 1) (s.step prog i) := by
  have hpc : s.stage.pc = addrAt t c := by
    cases c with
    | zero => rw [hf.2, addrAt_zero]
    | succ c => exact hf.2.2.1
  refine ⟨?_, ?_, ?_, ?_⟩
  · simp [step, FetchStage.step, stageIn, hb, hs]
  · simp [step, FetchStage.step, stageIn, hs, hpc]
  · simp [step, FetchStage.step, FetchStage.pcNext, stageIn, hb, hs, hpc, addrAt_succ]
  · simp [step, hs, hpc]

/-- the first unstalled cycle refills the memory's register; each later one latches the next entry -/
theorem Fetching.latched_first (hf : Fetching prog t 0 s) : s.latched i = [] := by
  by_cases hs : i.stall = true
  · exact latched_stall s hs
  · by_cases hb : i.branch.isSome = true
    · simp [latched, stageIn, hb]
    · simp [latched, FetchStage.step, FetchStage.ifIdNext, stageIn, hs, hb, hf.1]

theorem Fetching.latched_next (hf : Fetching prog t (c + 1) s) (hb : i.branch = none) (hs : i.stall = false) :
    s.latched i = [entry prog (addrAt t c)] := by
  obtain ⟨hsup, hdel, -, hq⟩ := hf
  simp [latched, FetchStage.step, FetchStage.ifIdNext, stageIn, hb, hs, hsup, hdel, hq, entry]

end Cycle

/-! ## Runs -/

section Run

variable (prog : Program) (ins : ℕ → FrontIn)

/-- the number of unstalled cycles among the `n` from cycle `m` on -/
def unstalled (m n : ℕ) : ℕ := Nat.count (fun k => (ins (m + k)).stall = false) n

/-- without a redirect, the entries of `n` cycles are the stream from `t` on, one for each unstalled cycle but the first
-/
theorem fetching_run {t : Word} {s : FetchUnit} (hf : Fetching prog t 0 s) (n : ℕ)
    (hb : ∀ k < n, (ins k).branch = none) :
    Fetching prog t (unstalled ins 0 n) (trace (step prog) s ins n) ∧
      log latched (step prog) s ins n = stream prog t (unstalled ins 0 n - 1) := by
  induction n with
  | zero => exact ⟨hf, rfl⟩
  | succ n ih =>
    obtain ⟨hat, hlog⟩ := ih fun k hk => hb k (Nat.lt_succ_of_lt hk)
    have hbn := hb n (Nat.lt_succ_self n)
    by_cases hs : (ins n).stall = true
    · have hcount : unstalled ins 0 (n + 1) = unstalled ins 0 n := by
        simp [unstalled, Nat.count_succ, hs]
      rw [hcount, trace_succ, log_succ, latched_stall _ hs, List.append_nil]
      exact ⟨hat.stall hbn hs, hlog⟩
    · have hs' : (ins n).stall = false := by simpa using hs
      have hcount : unstalled ins 0 (n + 1) = unstalled ins 0 n + 1 := by
        simp [unstalled, Nat.count_succ, hs']
      rw [hcount, trace_succ, log_succ]
      refine ⟨hat.advance hbn hs', ?_⟩
      rw [hlog]
      cases hc : unstalled ins 0 n with
      | zero =>
        rw [hc] at hat
        rw [hat.latched_first, List.append_nil]
      | succ c =>
        rw [hc] at hat
        rw [hat.latched_next hbn hs']
        exact (stream_succ prog t c).symm

variable (aRdata : Word)

/-- the unit before cycle `m` of the run -/
def stateAt (m : ℕ) : FetchUnit := trace (step prog) (reset aRdata) ins m

def entries (m n : ℕ) : List Fetched := log latched (step prog) (stateAt prog ins aRdata m) (fun k => ins (m + k)) n

/-- fetching begins anew at `t` with cycle `m`: at reset, or after a redirect -/
def Begins : ℕ → Word → Prop
  | 0, t => t = ADDR_IMEM_BASE
  | m + 1, t => (ins m).branch = some t

variable {prog ins aRdata}

theorem Begins.fetching {m : ℕ} {t : Word} (h : Begins ins m t) : Fetching prog t 0 (stateAt prog ins aRdata m) := by
  cases m with
  | zero =>
    rw [show t = ADDR_IMEM_BASE from h]
    exact fetching_reset prog aRdata
  | succ m => exact fetching_redirect prog _ h

/-- **The fetch stream.** From reset, and from each redirect on, the entries up to the next redirect are those of `t`,
`t + 4`, … in order, one for each unstalled cycle but the first; the cycle of a redirect latches none. -/
theorem fetch_stream (prog : Program) (ins : ℕ → FrontIn) (aRdata : Word) :
    (∀ m t n, Begins ins m t → (∀ k < n, (ins (m + k)).branch = none) →
      entries prog ins aRdata m n = stream prog t (unstalled ins m n - 1)) ∧
    ∀ m t, (ins m).branch = some t → entries prog ins aRdata m 1 = [] := by
  refine ⟨?_, ?_⟩
  · intro m t n hm hquiet
    have hrun := (fetching_run prog (fun k => ins (m + k)) (@Begins.fetching prog ins aRdata m t hm) n hquiet).2
    simpa [entries, unstalled] using hrun
  · intro m t hb
    exact latched_redirect _ hb

def redirectRun (k : ℕ) : FrontIn := ⟨k = 3 ∨ k = 5, if k = 3 then some 0x40 else none⟩

def addressWords : Program := fun a => a.setWidth 32 <<< 2

theorem fetch_stream_redirectRun :
    entries addressWords redirectRun 0 4 4 = [⟨0x40, 0x40⟩, ⟨0x44, 0x44⟩] :=
  ((fetch_stream addressWords redirectRun 0).1 4 0x40 4 rfl (by decide)).trans (by decide)

end Run

end FetchUnit

end Vsync
