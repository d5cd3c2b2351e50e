/-
`rv32im_core.sv` and `posix_hw_layer.sv` connected by the syscall lines; everything else that either of them reads is an
input of every cycle.

- `CallEvent`: a cycle of `ecall_req`, a latch, a dispatch, a completion, a writeback of the captured result.
- `CallEpisode`: the events of one assertion of `ecall_req`.
- `call_handshake`: in every run the events are such episodes one after another.
-/
import Vsync.Core.Rv32imCore
import Vsync.Posix.Layer
import Vsync.Episodes

namespace Vsync

/-- a call with its arguments -/
structure Syscall where
  num : BitVec 8
  arg0 : Word
  arg1 : Word
  arg2 : Word
  deriving DecidableEq, Repr

def Rv32imCore.ecallReq (s : Rv32imCore) : Bool := s.sysState == .wait

def Rv32imCore.presented (s : Rv32imCore) : Syscall := ⟨s.syscallNum, s.syscallArg0, s.syscallArg1, s.syscallArg2⟩

def PosixLayer.latched (s : PosixLayer) : Syscall := ⟨s.num, s.arg0, s.arg1, s.arg2⟩

structure CorePosix where
  core : Rv32imCore
  posix : PosixLayer

/-- what both read in a cycle; the fields of the syscall lines are not looked at -/
structure CorePosixIn where
  core : CoreIn
  posix : PosixIn

inductive CallEvent where
  /-- `ecall_req` is up, with the presented call -/
  | asserted (c : Syscall)
  | latch (c : Syscall)
  | dispatch (c : Syscall)
  /-- `S_COMPLETE`, with `result_r` -/
  | complete (result : Word)
  /-- `a0` is written with the captured `syscall_ret` -/
  | writeback (ret : Word)
  deriving DecidableEq, Repr

namespace CorePosix

open Machine

def reset : CorePosix := ⟨Rv32imCore.reset, PosixLayer.reset⟩

section Step

variable (s : CorePosix) (i : CorePosixIn)

def coreIn : CoreIn := { i.core with syscallDone := s.posix.syscallDone }

def posixIn : PosixIn :=
  { i.posix with
    ecallReq := s.core.ecallReq
    syscallNum := s.core.syscallNum
    syscallArg0 := s.core.syscallArg0
    syscallArg1 := s.core.syscallArg1
    syscallArg2 := s.core.syscallArg2 }

def step : CorePosix := ⟨s.core.step (s.coreIn i), s.posix.step (s.posixIn i)⟩

def events : List CallEvent :=
  (if s.core.ecallReq then [.asserted s.core.presented] else []) ++
    (if s.posix.latches (s.posixIn i) then [.latch s.core.presented] else []) ++
    (if s.posix.state = .decode then [.dispatch s.posix.latched] else []) ++
    (if s.posix.state = .complete then [.complete s.posix.result] else []) ++
    (if s.core.sysState = .writeback then [.writeback s.core.syscallRetData] else [])

end Step

/-- the assertion from its first cycle, in which the call is latched, through the dispatch and `k` cycles of waiting -/
def waiting (c : Syscall) (k : ℕ) : List CallEvent :=
  [.asserted c, .latch c, .asserted c, .dispatch c] ++ List.replicate k (.asserted c)

/-- **One assertion of `ecall_req`**: the same call in every cycle, latched in the first and dispatched in the second,
each once; in the last cycle the layer completes, and what is written back is the result of that completion. -/
def callEpisodes : Language CallEvent :=
  {l | ∃ c k r, l = waiting c k ++ [.asserted c, .complete r, .writeback r]}

/-- the events of the assertion in progress -/
def Open (s : CorePosix) (p : List CallEvent) : Prop :=
  match s.core.sysState with
  | .wait =>
    match s.posix.state with
    | .idle => p = []
    | .decode => s.posix.latched = s.core.presented ∧ p = [.asserted s.core.presented, .latch s.core.presented]
    | _ => ∃ k, p = waiting s.core.presented k
  | .writeback => s.posix.state = .idle ∧
      ∃ c k, p = waiting c k ++ [.asserted c, .complete s.core.syscallRetData]
  | _ => s.posix.state = .idle ∧ p = []

section Cycle

variable {s : CorePosix} {i : CorePosixIn} {p : List CallEvent}

theorem waiting_succ (c : Syscall) (k : ℕ) : waiting c k ++ [.asserted c] = waiting c (k + 1) := by
  simp [waiting, List.replicate_succ']

/-- without a request an idle layer stays idle -/
theorem posix_rests (hs : s.core.sysState ≠ .wait) (hp : s.posix.state = .idle) : (s.step i).posix.state = .idle := by
  have hreq : s.core.ecallReq = false := by simpa [Rv32imCore.ecallReq] using hs
  simp [step, PosixLayer.step, PosixLayer.stateNext, posixIn, hp, hreq]

/-- the presented call changes only while the registers are read -/
theorem presented_wait (hs : s.core.sysState = .wait) : (s.step i).core.presented = s.core.presented := by
  simp [step, Rv32imCore.presented, Rv32imCore.step, hs]

theorem sys_wait (hs : s.core.sysState = .wait) (hp : s.posix.state ≠ .complete) :
    (s.step i).core.sysState = .wait := by
  have hdone : s.posix.syscallDone = none := by simp [PosixLayer.syscallDone, hp]
  simp [step, Rv32imCore.step, Rv32imCore.sysNext, coreIn, hs, hdone]

def Dispatched (s : CorePosix) : Prop := s.posix.state ≠ .idle ∧ s.posix.state ≠ .decode

theorem open_dispatched (hs : s.core.sysState = .wait) (hd : s.Dispatched) :
    s.Open p ↔ ∃ k, p = waiting s.core.presented k := by
  simp only [Open, hs]
  split
  · next h => exact absurd h hd.1
  · next h => exact absurd h hd.2
  · rfl

/-- an operation state is followed by a wait or the completion -/
theorem dispatched_next (hi : s.posix.state ≠ .idle) (hc : s.posix.state ≠ .complete) : (s.step i).Dispatched := by
  unfold Dispatched
  cases hp : s.posix.state <;> simp [step, PosixLayer.step, PosixLayer.stateNext, hp] at hi hc ⊢ <;>
    (repeat' split) <;> simp

/-- between calls, and while the core reads the registers -/
theorem open_quiet (hw : s.core.sysState ≠ .wait) (hb : s.core.sysState ≠ .writeback) (h : s.Open p) :
    (s.step i).Open (p ++ s.events i) := by
  obtain ⟨hidle, hp⟩ : s.posix.state = .idle ∧ p = [] := by
    unfold Open at h
    split at h
    · next hs => exact absurd hs hw
    · next hs => exact absurd hs hb
    · exact h
  have hreq : s.core.ecallReq = false := by simpa [Rv32imCore.ecallReq] using hw
  have hevents : s.events i = [] := by
    simp [events, PosixLayer.latches, posixIn, hreq, hidle, hb]
  have hnext := posix_rests (i := i) hw hidle
  rw [hevents, hp, List.append_nil]
  unfold Open
  split
  · rw [hnext]
  · next hs =>
    -- only `SYS_WAIT` leads to `SYS_WRITEBACK`
    exfalso
    cases hsys : s.core.sysState <;> simp [step, Rv32imCore.step, Rv32imCore.sysNext, hsys] at hs hw
    split at hs <;> simp at hs
  · exact ⟨hnext, rfl⟩

theorem open_wait (hs : s.core.sysState = .wait) (h : s.Open p) : (s.step i).Open (p ++ s.events i) := by
  have hreq : s.core.ecallReq = true := by simp [Rv32imCore.ecallReq, hs]
  simp only [Open, hs] at h
  cases hp : s.posix.state with
  | idle =>
    simp only [hp] at h
    have hsys := sys_wait (i := i) hs (by simp [hp])
    have hstate : (s.step i).posix.state = .decode := by
      simp [step, PosixLayer.step, PosixLayer.stateNext, posixIn, hp, hreq]
    have hlatch : (s.step i).posix.latched = s.core.presented := by
      simp [step, PosixLayer.step, PosixLayer.latched, PosixLayer.latches, posixIn, hp, hreq, Rv32imCore.presented]
    have hevents : s.events i = [.asserted s.core.presented, .latch s.core.presented] := by
      simp [events, PosixLayer.latches, posixIn, hreq, hp, hs]
    simp only [Open, hsys, hstate, hlatch, presented_wait hs, hevents, h, List.nil_append, and_self]
  | complete =>
    simp only [hp] at h
    obtain ⟨k, hk⟩ := h
    have hsys : (s.step i).core.sysState = .writeback := by
      simp [step, Rv32imCore.step, Rv32imCore.sysNext, coreIn, PosixLayer.syscallDone, hs, hp]
    have hret : (s.step i).core.syscallRetData = s.posix.result := by
      simp [step, Rv32imCore.step, coreIn, PosixLayer.syscallDone, hs, hp]
    have hevents : s.events i = [.asserted s.core.presented, .complete s.posix.result] := by
      simp [events, PosixLayer.latches, posixIn, hreq, hp, hs]
    simp only [Open, hsys, hret, hevents, hk]
    refine ⟨?_, s.core.presented, k, rfl⟩
    simp [step, PosixLayer.step, PosixLayer.stateNext, hp]
  | decode =>
    simp only [hp] at h
    obtain ⟨hlatched, hopen⟩ := h
    have hevents : s.events i = [.asserted s.core.presented, .dispatch s.core.presented] := by
      simp [events, PosixLayer.latches, posixIn, hreq, hp, hs, hlatched]
    have hsys := sys_wait (i := i) hs (by simp [hp])
    rw [open_dispatched hsys (dispatched_next (by simp [hp]) (by simp [hp])), presented_wait hs, hevents, hopen]
    exact ⟨0, rfl⟩
  | _ =>
    simp only [hp] at h
    obtain ⟨k, hk⟩ := h
    have hevents : s.events i = [.asserted s.core.presented] := by
      simp [events, PosixLayer.latches, posixIn, hreq, hp, hs]
    have hsys := sys_wait (i := i) hs (by simp [hp])
    rw [open_dispatched hsys (dispatched_next (by simp [hp]) (by simp [hp])), presented_wait hs, hevents, hk,
      waiting_succ]
    exact ⟨k + 1, rfl⟩

theorem open_writeback (hs : s.core.sysState = .writeback) (h : s.Open p) :
    p ++ s.events i ∈ callEpisodes ∧ (s.step i).Open [] := by
  simp only [Open, hs] at h
  obtain ⟨hidle, c, k, hp⟩ := h
  have hreq : s.core.ecallReq = false := by simp [Rv32imCore.ecallReq, hs]
  have hevents : s.events i = [.writeback s.core.syscallRetData] := by
    simp [events, PosixLayer.latches, posixIn, hreq, hidle, hs]
  have hsys : (s.step i).core.sysState = .idle := by simp [step, Rv32imCore.step, Rv32imCore.sysNext, hs]
  refine ⟨⟨c, k, s.core.syscallRetData, ?_⟩, ?_⟩
  · rw [hp, hevents, List.append_assoc]
    rfl
  · simp only [Open, hsys, and_true]
    exact posix_rests (by simp [hs]) hidle

end Cycle

theorem open_step (s : CorePosix) (i : CorePosixIn) (p : List CallEvent) (h : s.Open p) :
    (s.step i).Open (p ++ s.events i) ∨ (p ++ s.events i ∈ callEpisodes ∧ (s.step i).Open []) := by
  by_cases hw : s.core.sysState = .wait
  · exact .inl (open_wait hw h)
  · by_cases hb : s.core.sysState = .writeback
    · exact .inr (open_writeback hb h)
    · exact .inl (open_quiet hw hb h)

theorem waiting_rest (c : Syscall) (k : ℕ) : ∃ rest, rest ≠ [] ∧ waiting c k ++ rest ∈ callEpisodes :=
  ⟨[.asserted c, .complete 0, .writeback 0], List.cons_ne_nil _ _, c, k, 0, rfl⟩

theorem open_rest (s : CorePosix) (p : List CallEvent) (h : s.Open p) :
    ∃ rest, rest ≠ [] ∧ p ++ rest ∈ callEpisodes := by
  have hnil : ∃ rest : List CallEvent, rest ≠ [] ∧ [] ++ rest ∈ callEpisodes :=
    ⟨_, List.cons_ne_nil _ _, s.core.presented, 0, 0, rfl⟩
  unfold Open at h
  split at h
  · split at h
    · rw [h]
      exact hnil
    · rw [h.2]
      exact ⟨_, List.cons_ne_nil _ _, s.core.presented, 0, 0, rfl⟩
    · obtain ⟨k, hk⟩ := h
      rw [hk]
      exact waiting_rest s.core.presented k
  · obtain ⟨-, c, k, hp⟩ := h
    refine ⟨[.writeback s.core.syscallRetData], List.cons_ne_nil _ _, c, k, s.core.syscallRetData, ?_⟩
    rw [hp, List.append_assoc]
    rfl
  · rw [h.2]
    exact hnil

/-! ## Runs -/

section Run

variable (ins : ℕ → CorePosixIn)

/-- both before cycle `n` of a run from reset -/
def stateAt (n : ℕ) : CorePosix := trace step reset ins n

def eventLog (n : ℕ) : List CallEvent := log events step reset ins n

/-- the RTOS and the peripherals answer in the end, however late -/
structure Answers : Prop where
  rtos : ∀ n, (stateAt ins n).posix.state = .waitRtos → ∃ m ≥ n, (stateAt ins n).posix.rtosDone (ins m).posix = true
  periph : ∀ n, (stateAt ins n).posix.state = .periphWait → ∃ m ≥ n, (ins m).posix.periphReady = true

variable {ins}

/-- the core is in `SYS_WAIT` and the layer in a state of `P` -/
def WaitsIn (P : PosixState → Prop) (s : CorePosix) : Prop := s.core.sysState = .wait ∧ P s.posix.state

abbrev LaterWriteback (ins : ℕ → CorePosixIn) (n : ℕ) : Prop :=
  Later step reset ins (fun s => s.core.sysState = .writeback) n

theorem later_of_complete {n : ℕ} (h : (stateAt ins n).WaitsIn (· = .complete)) : LaterWriteback ins n := by
  refine ⟨n + 1, Nat.le_succ n, ?_⟩
  change ((stateAt ins n).step (ins n)).core.sysState = .writeback
  simp [step, Rv32imCore.step, Rv32imCore.sysNext, coreIn, PosixLayer.syscallDone, h.1, h.2]

/-- one cycle of a wait, outside the completion -/
theorem waitsIn_succ {P : PosixState → Prop} {n : ℕ} (hw : (stateAt ins n).core.sysState = .wait)
    (hc : (stateAt ins n).posix.state ≠ .complete) (hP : P ((stateAt ins n).step (ins n)).posix.state) :
    (stateAt ins (n + 1)).WaitsIn P :=
  ⟨sys_wait hw hc, hP⟩

theorem later_succ {n : ℕ} (h : LaterWriteback ins (n + 1)) : LaterWriteback ins n := by
  obtain ⟨m, hm, hwb⟩ := h
  exact ⟨m, by omega, hwb⟩

theorem later_of_periphWait (ha : Answers ins) {n : ℕ} (h : (stateAt ins n).WaitsIn (· = .periphWait)) :
    LaterWriteback ins n := by
  have hcomplete : Later step reset ins (WaitsIn (· = .complete)) n := by
    apply later_of_wait (P := WaitsIn (· = .periphWait)) (F := fun _ i => i.posix.periphReady = true) h
    · intro t i ht hf
      refine ⟨sys_wait ht.1 (by simp [ht.2]), ?_⟩
      simp [step, PosixLayer.step, PosixLayer.stateNext, posixIn, ht.2, hf]
    · exact ha.periph n h.2
    · intro t i ht hf
      refine ⟨sys_wait ht.1 (by simp [ht.2]), ?_⟩
      simp [step, PosixLayer.step, PosixLayer.stateNext, posixIn, ht.2, hf]
  exact hcomplete.trans fun m _ hm => later_of_complete hm

/-- which answer the layer waits for depends on the call only -/
theorem rtosDone_congr {s s' : PosixLayer} (h : s.num = s'.num) (i : PosixIn) : s.rtosDone i = s'.rtosDone i := by
  unfold PosixLayer.rtosDone PosixLayer.category PosixLayer.subop
  rw [h]

theorem rtosDone_posixIn (s : CorePosix) (i : CorePosixIn) :
    s.posix.rtosDone (s.posixIn i) = s.posix.rtosDone i.posix := rfl

theorem later_of_waitRtos (ha : Answers ins) {n : ℕ} (h : (stateAt ins n).WaitsIn (· = .waitRtos)) :
    LaterWriteback ins n := by
  have hcomplete : Later step reset ins (WaitsIn (· = .complete)) n := by
    apply later_of_wait (P := fun t => t.WaitsIn (· = .waitRtos) ∧ t.posix.num = (stateAt ins n).posix.num)
      (F := fun _ i => (stateAt ins n).posix.rtosDone i.posix = true) ⟨h, rfl⟩
    · intro t i ht hf
      obtain ⟨⟨hsys, hstate⟩, hnum⟩ := ht
      have hdone : t.posix.rtosDone (t.posixIn i) = false := by
        rw [rtosDone_posixIn, rtosDone_congr hnum]
        simpa using hf
      refine ⟨⟨sys_wait hsys (by simp [hstate]), ?_⟩, ?_⟩
      · simp [step, PosixLayer.step, PosixLayer.stateNext, hstate, hdone]
      · simp [step, PosixLayer.step, PosixLayer.latches, hstate, hnum]
    · exact ha.rtos n h.2
    · intro t i ht hf
      obtain ⟨⟨hsys, hstate⟩, hnum⟩ := ht
      have hdone : t.posix.rtosDone (t.posixIn i) = true := by
        rw [rtosDone_posixIn, rtosDone_congr hnum]
        exact hf
      refine ⟨sys_wait hsys (by simp [hstate]), ?_⟩
      simp [step, PosixLayer.step, PosixLayer.stateNext, hstate, hdone]
  exact hcomplete.trans fun m _ hm => later_of_complete hm

/-- the operation states are left after one cycle -/
theorem later_of_operation (ha : Answers ins) {n : ℕ} (hw : (stateAt ins n).core.sysState = .wait)
    (hidle : (stateAt ins n).posix.state ≠ .idle) (hdecode : (stateAt ins n).posix.state ≠ .decode) :
    LaterWriteback ins n := by
  by_cases hc : (stateAt ins n).posix.state = .complete
  · exact later_of_complete ⟨hw, hc⟩
  by_cases hp : (stateAt ins n).posix.state = .periphWait
  · exact later_of_periphWait ha ⟨hw, hp⟩
  by_cases hr : (stateAt ins n).posix.state = .waitRtos
  · exact later_of_waitRtos ha ⟨hw, hr⟩
  have hnext : ((stateAt ins n).step (ins n)).posix.state = .complete ∨
      ((stateAt ins n).step (ins n)).posix.state = .periphWait ∨
      ((stateAt ins n).step (ins n)).posix.state = .waitRtos := by
    cases hs : (stateAt ins n).posix.state <;> simp [hs] at hidle hdecode hc hp hr <;>
      simp only [step, PosixLayer.step, PosixLayer.stateNext, hs] <;> (try split) <;> simp
  apply later_succ
  rcases hnext with h | h | h
  · exact later_of_complete (waitsIn_succ hw hc h)
  · exact later_of_periphWait ha (waitsIn_succ hw hc h)
  · exact later_of_waitRtos ha (waitsIn_succ hw hc h)

/-- every assertion ends with a writeback -/
theorem later_writeback (ha : Answers ins) {n : ℕ} (hw : (stateAt ins n).core.sysState = .wait) :
    LaterWriteback ins n := by
  have hdispatched (k : ℕ) (hk : (stateAt ins k).WaitsIn (· = .decode)) : LaterWriteback ins k := by
    have hne : (stateAt ins k).posix.state ≠ .complete := by simp [hk.2]
    have hnext := @dispatched_next (stateAt ins k) (ins k) (by simp [hk.2]) hne
    exact later_succ (later_of_operation ha (sys_wait hk.1 hne) hnext.1 hnext.2)
  by_cases hd : (stateAt ins n).posix.state = .decode
  · exact hdispatched n ⟨hw, hd⟩
  by_cases hi : (stateAt ins n).posix.state = .idle
  · apply later_succ
    apply hdispatched
    apply waitsIn_succ hw (by simp [hi])
    simp [step, PosixLayer.step, PosixLayer.stateNext, posixIn, Rv32imCore.ecallReq, hi, hw]
  · exact later_of_operation ha hw hi hd

/-- **The syscall handshake.** In every run the events are whole assertions of `ecall_req`, one after another, and the
beginning of at most one more: the presented call is latched once and dispatched once, and what is captured for `a0` is
the result of its own completion. If the RTOS and the peripherals answer in the end, every assertion is completed. -/
theorem call_handshake (ins : ℕ → CorePosixIn) :
    (∀ n, InEpisodes callEpisodes (eventLog ins n)) ∧
    (Answers ins → ∀ n, (stateAt ins n).core.ecallReq = true →
      ∃ m ≥ n, (stateAt ins m).core.sysState = .writeback) := by
  refine ⟨?_, ?_⟩
  · intro n
    exact log_inEpisodes ins (show Open reset [] from ⟨rfl, rfl⟩) open_step open_rest n
  · intro ha n hreq
    apply later_writeback ha
    simpa [Rv32imCore.ecallReq] using hreq

/-- `ecall` in every word, and every answer at once -/
def ecallsAnswered : ℕ → CorePosixIn := fun _ =>
  ⟨⟨0x00000073, 0, true, ⟨false, false, false⟩, false, none, none, false, 0, false⟩,
    ⟨false, 0, 0, 0, 0, some 1, true, some true, some true, some (true, 0), 0, 0, true⟩⟩

theorem ecallsAnswered_answers : Answers ecallsAnswered where
  rtos := by
    intro n _
    refine ⟨n, le_refl n, ?_⟩
    unfold PosixLayer.rtosDone
    split
    · split <;> rfl
    · rfl
    · rfl
    · rfl
    · rfl
  periph := fun n _ => ⟨n, le_refl n, rfl⟩

theorem call_handshake_ecallsAnswered : ∃ m ≥ 8, (stateAt ecallsAnswered m).core.sysState = .writeback :=
  (call_handshake ecallsAnswered).2 ecallsAnswered_answers 8 (by decide +kernel)

/-- call 0 is `pthread_create`: it waits for the RTOS, and task 1 comes back -/
example : eventLog ecallsAnswered 13 =
    waiting ⟨0, 0, 0, 0⟩ 2 ++ [.asserted ⟨0, 0, 0, 0⟩, .complete 1] := by decide +kernel

end Run

end CorePosix

end Vsync
