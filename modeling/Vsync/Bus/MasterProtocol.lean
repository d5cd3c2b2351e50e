/-
What `axi4_master` does on its five channels, for any commands and any slave.

- `MasterEvent`: a command accepted, a handshake on a channel, or a `cmd_done`; `events` are those of a cycle.
- `Transaction`: the events of one command, from its acceptance to its `cmd_done`.
- `Open`: the events of the command in progress, by the state of the master.
- `protocol_safe`: in every run the events are transactions one after another, and a raised valid stays, with its
  payload.
-/
import Vsync.Bus.Master
import Vsync.Episodes

namespace Vsync

/-- a command as the master takes it: a read goes first -/
inductive Command where
  | read (addr : Word)
  | write (addr data : Word) (strb : BitVec 4)
  deriving DecidableEq, Repr

/-- what happens on the command port and on the five channels -/
inductive MasterEvent where
  | accept (c : Command)
  | ar (addr : Word)
  | r (data : Word) (resp : BitVec 2)
  | aw (addr : Word)
  | w (data : Word) (strb : BitVec 4)
  | b (resp : BitVec 2)
  | done (rdata : Word) (error : Bool)
  deriving DecidableEq, Repr

/-- the lines into the master in a cycle -/
structure MasterIn where
  cmd : BusCmd
  resp : BusResponse

namespace AxiMaster

open Machine

section Events

variable (s : AxiMaster) (i : MasterIn)

def accepted : Option Command :=
  if s.state = .idle then
    if i.cmd.read then some (.read i.cmd.addr)
    else if i.cmd.write then some (.write i.cmd.addr i.cmd.wdata i.cmd.strobe)
    else none
  else none

def whenFires (fires : Bool) (e : MasterEvent) : List MasterEvent := if fires then [e] else []

def events : List MasterEvent :=
  ((s.accepted i).map MasterEvent.accept).toList ++ whenFires (s.arFires i.resp) (.ar s.request.araddr) ++
    whenFires (s.rFires i.resp) (.r i.resp.rdata i.resp.rresp) ++ whenFires (s.awFires i.resp) (.aw s.request.awaddr) ++
    whenFires (s.wFires i.resp) (.w s.request.wdata s.request.wstrb) ++ whenFires (s.bFires i.resp) (.b i.resp.bresp) ++
    whenFires s.cmdDone (.done s.cmdRdata s.cmdError)

def next : AxiMaster := s.step i.cmd i.resp

end Events

/-- the two handshakes of a write, in either order; both in one cycle count as address first -/
inductive WriteBeats (a d : Word) (st : BitVec 4) : List MasterEvent → Prop where
  | addrFirst : WriteBeats a d st [.aw a, .w d st]
  | dataFirst : WriteBeats a d st [.w d st, .aw a]

/-- the events of a command: one handshake on each of its channels, then `cmd_done` with the data that came and an error
iff the response was not OKAY -/
inductive Transaction : List MasterEvent → Prop where
  | read (a d : Word) (resp : BitVec 2) :
    Transaction [.accept (.read a), .ar a, .r d resp, .done d (resp != 0)]
  | write (a d : Word) (st : BitVec 4) (beats : List MasterEvent) (resp : BitVec 2) (x : Word) :
    WriteBeats a d st beats → Transaction (.accept (.write a d st) :: beats ++ [.b resp, .done x (resp != 0)])

def transactions : Language MasterEvent := {l | Transaction l}

/-- the write that the registers hold -/
def heldWrite (s : AxiMaster) : Command := .write s.addrReg s.wdataReg s.wstrbReg

/-- the events of the command in progress -/
def Open (s : AxiMaster) (p : List MasterEvent) : Prop :=
  match s.state with
  | .idle => p = []
  | .rdAddr => p = [.accept (.read s.addrReg)]
  | .rdData => p = [.accept (.read s.addrReg), .ar s.addrReg]
  | .wrAddr => s.awDone = false ∧ p = .accept s.heldWrite :: whenFires s.wDone (.w s.wdataReg s.wstrbReg)
  | .wrData => p = [.accept s.heldWrite, .aw s.addrReg]
  | .wrResp => ∃ beats, WriteBeats s.addrReg s.wdataReg s.wstrbReg beats ∧ p = .accept s.heldWrite :: beats
  | .done => Transaction (p ++ [.done s.cmdRdata s.cmdError])

section Cycle

variable {s : AxiMaster} {i : MasterIn} {p : List MasterEvent}

theorem open_idle (hs : s.state = .idle) (h : s.Open p) : (s.next i).Open (p ++ s.events i) := by
  have hp : p = [] := by simpa [Open, hs] using h
  by_cases hr : i.cmd.read = true
  · simp [hp, next, step_read hs hr, Open, events, accepted, whenFires, arFires, rFires, awFires, wFires, bFires,
      request, cmdDone, hs, hr]
  · have hr' : i.cmd.read = false := by simpa using hr
    by_cases hw : i.cmd.write = true
    · simp [hp, next, step_write hs hr' hw, Open, events, accepted, whenFires, arFires, rFires, awFires, wFires, bFires,
        request, cmdDone, hs, hr', hw, heldWrite]
    · have hw' : i.cmd.write = false := by simpa using hw
      simp [hp, next, step_none hs hr' hw', Open, events, accepted, whenFires, arFires, rFires, awFires, wFires, bFires,
        request, cmdDone, hs, hr', hw']

theorem open_rdAddr (hs : s.state = .rdAddr) (h : s.Open p) : (s.next i).Open (p ++ s.events i) := by
  have hp : p = [.accept (.read s.addrReg)] := by simpa [Open, hs] using h
  cases hr : i.resp.arready <;>
    simp [hp, next, step, stateNext, Open, events, accepted, whenFires, arFires, rFires, awFires, wFires, bFires,
      request, cmdDone, hs, hr]

theorem open_rdData (hs : s.state = .rdData) (h : s.Open p) : (s.next i).Open (p ++ s.events i) := by
  have hp : p = [.accept (.read s.addrReg), .ar s.addrReg] := by simpa [Open, hs] using h
  cases hr : i.resp.rvalid
  · simp [hp, next, step, stateNext, Open, events, accepted, whenFires, arFires, rFires, awFires, wFires, bFires,
      request, cmdDone, hs, hr]
  · simpa [hp, next, step, stateNext, Open, events, accepted, whenFires, arFires, rFires, awFires, wFires, bFires,
      request, cmdDone, cmdRdata, cmdError, hs, hr] using Transaction.read s.addrReg i.resp.rdata i.resp.rresp

theorem open_wrAddr (hs : s.state = .wrAddr) (h : s.Open p) : (s.next i).Open (p ++ s.events i) := by
  obtain ⟨hd, hp⟩ : s.awDone = false ∧ p = .accept s.heldWrite :: whenFires s.wDone (.w s.wdataReg s.wstrbReg) := by
    simpa [Open, hs] using h
  cases ha : i.resp.awready <;> cases hw : i.resp.wready <;> cases hwd : s.wDone <;>
    simp [hp, next, step, stateNext, Open, events, accepted, whenFires, arFires, rFires, awFires, wFires, bFires,
      request, cmdDone, heldWrite, hs, hd, ha, hw, hwd, WriteBeats.addrFirst, WriteBeats.dataFirst]

theorem open_wrData (hs : s.state = .wrData) (h : s.Open p) : (s.next i).Open (p ++ s.events i) := by
  have hp : p = [.accept s.heldWrite, .aw s.addrReg] := by simpa [Open, hs] using h
  cases hw : i.resp.wready <;>
    simp [hp, next, step, stateNext, Open, events, accepted, whenFires, arFires, rFires, awFires, wFires, bFires,
      request, cmdDone, heldWrite, hs, hw, WriteBeats.addrFirst]

theorem open_wrResp (hs : s.state = .wrResp) (h : s.Open p) : (s.next i).Open (p ++ s.events i) := by
  obtain ⟨beats, hbeats, hp⟩ : ∃ beats, WriteBeats s.addrReg s.wdataReg s.wstrbReg beats ∧
      p = .accept s.heldWrite :: beats := by simpa [Open, hs] using h
  cases hb : i.resp.bvalid
  · simpa [hp, next, step, stateNext, Open, events, accepted, whenFires, arFires, rFires, awFires, wFires, bFires,
      request, cmdDone, heldWrite, hs, hb] using hbeats
  · simpa [hp, next, step, stateNext, Open, events, accepted, whenFires, arFires, rFires, awFires, wFires, bFires,
      request, cmdDone, cmdRdata, cmdError, heldWrite, hs, hb] using
      Transaction.write s.addrReg s.wdataReg s.wstrbReg beats i.resp.bresp s.rdataReg hbeats

theorem open_done (hs : s.state = .done) (h : s.Open p) : p ++ [.done s.cmdRdata s.cmdError] ∈ transactions := by
  simp only [Open, hs] at h
  exact h

theorem open_step (s : AxiMaster) (i : MasterIn) (p : List MasterEvent) (h : s.Open p) :
    (s.next i).Open (p ++ s.events i) ∨ (p ++ s.events i ∈ transactions ∧ (s.next i).Open []) := by
  cases hs : s.state with
  | idle => exact .inl (open_idle hs h)
  | rdAddr => exact .inl (open_rdAddr hs h)
  | rdData => exact .inl (open_rdData hs h)
  | wrAddr => exact .inl (open_wrAddr hs h)
  | wrData => exact .inl (open_wrData hs h)
  | wrResp => exact .inl (open_wrResp hs h)
  | done =>
    refine .inr ⟨?_, ?_⟩
    · have hev : s.events i = [.done s.cmdRdata s.cmdError] := by
        simp [events, accepted, whenFires, arFires, rFires, awFires, wFires, bFires, request, cmdDone, hs]
      rw [hev]
      exact open_done hs h
    · simp [next, step, stateNext, Open, hs]

theorem open_rest (s : AxiMaster) (p : List MasterEvent) (h : s.Open p) :
    ∃ rest, rest ≠ [] ∧ p ++ rest ∈ transactions := by
  cases hs : s.state with
  | idle =>
    have hp : p = [] := by simpa [Open, hs] using h
    refine ⟨[.accept (.read 0), .ar 0, .r 0 0, .done 0 ((0 : BitVec 2) != 0)], List.cons_ne_nil _ _, ?_⟩
    rw [hp]
    exact Transaction.read 0 0 0
  | rdAddr =>
    have hp : p = [.accept (.read s.addrReg)] := by simpa [Open, hs] using h
    refine ⟨[.ar s.addrReg, .r 0 0, .done 0 ((0 : BitVec 2) != 0)], List.cons_ne_nil _ _, ?_⟩
    rw [hp]
    exact Transaction.read s.addrReg 0 0
  | rdData =>
    have hp : p = [.accept (.read s.addrReg), .ar s.addrReg] := by simpa [Open, hs] using h
    refine ⟨[.r 0 0, .done 0 ((0 : BitVec 2) != 0)], List.cons_ne_nil _ _, ?_⟩
    rw [hp]
    exact Transaction.read s.addrReg 0 0
  | wrAddr =>
    obtain ⟨-, hp⟩ : s.awDone = false ∧ p = .accept s.heldWrite :: whenFires s.wDone (.w s.wdataReg s.wstrbReg) := by
      simpa [Open, hs] using h
    rw [hp]
    cases s.wDone with
    | false =>
      refine ⟨[.aw s.addrReg, .w s.wdataReg s.wstrbReg, .b 0, .done 0 ((0 : BitVec 2) != 0)], List.cons_ne_nil _ _, ?_⟩
      exact Transaction.write s.addrReg s.wdataReg s.wstrbReg _ 0 0 .addrFirst
    | true =>
      refine ⟨[.aw s.addrReg, .b 0, .done 0 ((0 : BitVec 2) != 0)], List.cons_ne_nil _ _, ?_⟩
      exact Transaction.write s.addrReg s.wdataReg s.wstrbReg _ 0 0 .dataFirst
  | wrData =>
    have hp : p = [.accept s.heldWrite, .aw s.addrReg] := by simpa [Open, hs] using h
    refine ⟨[.w s.wdataReg s.wstrbReg, .b 0, .done 0 ((0 : BitVec 2) != 0)], List.cons_ne_nil _ _, ?_⟩
    rw [hp]
    exact Transaction.write s.addrReg s.wdataReg s.wstrbReg _ 0 0 .addrFirst
  | wrResp =>
    obtain ⟨beats, hbeats, hp⟩ : ∃ beats, WriteBeats s.addrReg s.wdataReg s.wstrbReg beats ∧
        p = .accept s.heldWrite :: beats := by simpa [Open, hs] using h
    refine ⟨[.b 0, .done 0 ((0 : BitVec 2) != 0)], List.cons_ne_nil _ _, ?_⟩
    rw [hp]
    exact Transaction.write s.addrReg s.wdataReg s.wstrbReg beats 0 0 hbeats
  | done => exact ⟨[.done s.cmdRdata s.cmdError], List.cons_ne_nil _ _, open_done hs h⟩

end Cycle

/-! ## A raised valid stays -/

/-- from one cycle to the next: a channel that is valid and not accepted stays valid, with the same payload -/
structure Stable (s s' : AxiMaster) (r : BusResponse) : Prop where
  ar : s.request.arvalid = true → r.arready = false →
    s'.request.arvalid = true ∧ s'.request.araddr = s.request.araddr
  aw : s.request.awvalid = true → r.awready = false →
    s'.request.awvalid = true ∧ s'.request.awaddr = s.request.awaddr
  w : s.request.wvalid = true → r.wready = false →
    s'.request.wvalid = true ∧ s'.request.wdata = s.request.wdata ∧ s'.request.wstrb = s.request.wstrb

theorem step_stable (s : AxiMaster) (i : MasterIn) : Stable s (s.next i) i.resp where
  ar := by
    intro hv hr
    have hs : s.state = .rdAddr := by simpa [request] using hv
    simp [next, step, stateNext, arFires, request, hs, hr]
  aw := by
    intro hv hr
    obtain ⟨hs, hd⟩ : s.state = .wrAddr ∧ s.awDone = false := by simpa [request] using hv
    simp [next, step, stateNext, awFires, request, hs, hd, hr]
  w := by
    intro hv hr
    rcases (by simpa [request] using hv : (s.state = .wrAddr ∧ s.wDone = false) ∨ s.state = .wrData) with ⟨hs, hd⟩ | hs
    · cases ha : s.awFires i.resp <;> simp [next, step, stateNext, wFires, request, hs, hd, hr, ha]
    · simp [next, step, stateNext, wFires, request, hs, hr]

/-! ## Runs -/

section Run

variable (ins : ℕ → MasterIn)

def stateAt (n : ℕ) : AxiMaster := trace next reset ins n

def eventLog (n : ℕ) : List MasterEvent := log events next reset ins n

/-- the slave answers in the end: each channel that the master waits for, however late -/
structure Answers : Prop where
  ar : ∀ n, (stateAt ins n).request.arvalid = true → ∃ m ≥ n, (ins m).resp.arready = true
  r : ∀ n, (stateAt ins n).request.rready = true → ∃ m ≥ n, (ins m).resp.rvalid = true
  aw : ∀ n, (stateAt ins n).request.awvalid = true → ∃ m ≥ n, (ins m).resp.awready = true
  w : ∀ n, (stateAt ins n).request.wvalid = true → ∃ m ≥ n, (ins m).resp.wready = true
  b : ∀ n, (stateAt ins n).request.bready = true → ∃ m ≥ n, (ins m).resp.bvalid = true

variable {ins}

/-- the master is between commands again at some time from `n` on -/
abbrev LaterIdle (ins : ℕ → MasterIn) (n : ℕ) : Prop := Later next reset ins (fun s => s.state = .idle) n

theorem later_of_done {n : ℕ} (h : (stateAt ins n).state = .done) : LaterIdle ins n := by
  refine ⟨n + 1, Nat.le_succ n, ?_⟩
  change ((stateAt ins n).next (ins n)).state = .idle
  simp [next, step, stateNext, h]

theorem later_of_rdData (ha : Answers ins) {n : ℕ} (h : (stateAt ins n).state = .rdData) : LaterIdle ins n := by
  have hdone : Later next reset ins (fun s => s.state = .done) n := by
    apply later_of_wait (P := fun s => s.state = .rdData) (F := fun _ i => i.resp.rvalid = true) h
    · intro t i ht hf
      simp [next, step, stateNext, rFires, request, ht, hf]
    · exact ha.r n (by simp [request, h])
    · intro t i ht hf
      simp [next, step, stateNext, rFires, request, ht, hf]
  exact hdone.trans fun m _ hm => later_of_done hm

theorem later_of_rdAddr (ha : Answers ins) {n : ℕ} (h : (stateAt ins n).state = .rdAddr) : LaterIdle ins n := by
  have hdata : Later next reset ins (fun s => s.state = .rdData) n := by
    apply later_of_wait (P := fun s => s.state = .rdAddr) (F := fun _ i => i.resp.arready = true) h
    · intro t i ht hf
      simp [next, step, stateNext, arFires, request, ht, hf]
    · exact ha.ar n (by simp [request, h])
    · intro t i ht hf
      simp [next, step, stateNext, arFires, request, ht, hf]
  exact hdata.trans fun m _ hm => later_of_rdData ha hm

theorem later_of_wrResp (ha : Answers ins) {n : ℕ} (h : (stateAt ins n).state = .wrResp) : LaterIdle ins n := by
  have hdone : Later next reset ins (fun s => s.state = .done) n := by
    apply later_of_wait (P := fun s => s.state = .wrResp) (F := fun _ i => i.resp.bvalid = true) h
    · intro t i ht hf
      simp [next, step, stateNext, bFires, request, ht, hf]
    · exact ha.b n (by simp [request, h])
    · intro t i ht hf
      simp [next, step, stateNext, bFires, request, ht, hf]
  exact hdone.trans fun m _ hm => later_of_done hm

theorem later_of_wrData (ha : Answers ins) {n : ℕ} (h : (stateAt ins n).state = .wrData) : LaterIdle ins n := by
  have hresp : Later next reset ins (fun s => s.state = .wrResp) n := by
    apply later_of_wait (P := fun s => s.state = .wrData) (F := fun _ i => i.resp.wready = true) h
    · intro t i ht hf
      simp [next, step, stateNext, wFires, request, ht, hf]
    · exact ha.w n (by simp [request, h])
    · intro t i ht hf
      simp [next, step, stateNext, wFires, request, ht, hf]
  exact hresp.trans fun m _ hm => later_of_wrResp ha hm

/-- with the address goes the data, unless it has gone before: then the response comes next -/
theorem later_of_wrAddr (ha : Answers ins) {n : ℕ} (h : (stateAt ins n).state = .wrAddr)
    (hd : (stateAt ins n).awDone = false) : LaterIdle ins n := by
  have hnext : Later next reset ins (fun s => s.state = .wrData ∨ s.state = .wrResp) n := by
    apply later_of_wait (P := fun s => s.state = .wrAddr ∧ s.awDone = false)
      (F := fun _ i => i.resp.awready = true) ⟨h, hd⟩
    · intro t i ht hf
      simp [next, step, stateNext, awFires, request, ht.1, ht.2, hf]
    · exact ha.aw n (by simp [request, h, hd])
    · intro t i ht hf
      cases hw : t.wDone <;> cases hf' : i.resp.wready <;>
        simp [next, step, stateNext, awFires, wFires, request, ht.1, ht.2, hf, hw, hf']
  apply hnext.trans
  intro m _ hm
  rcases hm with hm | hm
  · exact later_of_wrData ha hm
  · exact later_of_wrResp ha hm

theorem run_open (ins : ℕ → MasterIn) (n : ℕ) : ∃ p, (stateAt ins n).Open p := by
  obtain ⟨-, p, -, -, hopen⟩ := log_episodes (L := transactions) ins (show Open reset [] from rfl) open_step n
  exact ⟨p, hopen⟩

theorem later_idle (ha : Answers ins) (n : ℕ) : LaterIdle ins n := by
  cases hs : (stateAt ins n).state with
  | idle => exact ⟨n, le_refl n, hs⟩
  | rdAddr => exact later_of_rdAddr ha hs
  | rdData => exact later_of_rdData ha hs
  | wrAddr =>
    obtain ⟨p, hp⟩ := run_open ins n
    simp only [Open, hs] at hp
    exact later_of_wrAddr ha hs hp.1
  | wrData => exact later_of_wrData ha hs
  | wrResp => exact later_of_wrResp ha hs
  | done => exact later_of_done hs

/-- **The protocol of the master.** Under any commands and any answers, the events are transactions one after another
and the beginning of at most one more; a valid that is not accepted stays, with its payload; and if the slave answers in
the end, every command is completed. -/
theorem protocol_safe (ins : ℕ → MasterIn) :
    (∀ n, InEpisodes transactions (eventLog ins n)) ∧
    (∀ n, Stable (stateAt ins n) (stateAt ins (n + 1)) (ins n).resp) ∧
    (Answers ins → ∀ n, ∃ m ≥ n, (stateAt ins m).state = .idle) := by
  refine ⟨?_, ?_, ?_⟩
  · intro n
    exact log_inEpisodes ins (show Open reset [] from rfl) open_step open_rest n
  · intro n
    exact step_stable (stateAt ins n) (ins n)
  · intro ha n
    exact later_idle ha n

/-- a read command in every cycle, and a slave that accepts and answers everything at once -/
def readsAnswered : ℕ → MasterIn := fun _ => ⟨⟨true, false, 0x00010000, 0, 0⟩,
  ⟨true, true, 0x2A, 0, true, true, true, 0⟩⟩

theorem protocol_safe_readsAnswered : ∃ m ≥ 2, (stateAt readsAnswered m).state = .idle :=
  (protocol_safe readsAnswered).2.2
    ⟨fun n _ => ⟨n, le_refl n, rfl⟩, fun n _ => ⟨n, le_refl n, rfl⟩, fun n _ => ⟨n, le_refl n, rfl⟩,
      fun n _ => ⟨n, le_refl n, rfl⟩, fun n _ => ⟨n, le_refl n, rfl⟩⟩ 2

end Run

end AxiMaster

end Vsync
