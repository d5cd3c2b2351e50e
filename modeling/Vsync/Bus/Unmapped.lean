/-
Commands to addresses that no slave has, among commands to slaves that serve everything.

- `Bus.Alike`: two runs of one command, equal but for registers that the command does not use; `alike_step`: they stay
  so.
- `read_fails`, `write_fails`: an unmapped command ends after three or four cycles, with an error, and leaves no trace.
- `Session`: commands carried through one after another, each with what came back and what the ports saw of it.
- `unmapped_clean`: a session gives the other commands what it gives them without the unmapped ones.
-/
import Vsync.Bus.Completion
import Vsync.Bus.Fabric
import Vsync.Bus.MasterProtocol

namespace Vsync

open Interconnect (decode)

/-! ## Two runs of one command -/

namespace Interconnect

/-- in `ST_IDLE` the other registers are left over from the last transaction -/
structure Alike (x x' : Interconnect) : Prop where
  state : x.state = x'.state
  active : x.state ≠ .idle → x.activeSlave = x'.activeSlave ∧ x.awAccepted = x'.awAccepted

/-- the requests of two masters in the same transaction -/
structure SameRequest (m m' : BusRequest) : Prop extends m.Agrees m' where
  araddr_eq : m.araddr = m'.araddr
  awaddr_eq : m.awaddr = m'.awaddr

section TwoRuns

variable {x x' : Interconnect} {m m' : BusRequest}

theorem request_agrees (hx : Alike x x') (hm : SameRequest m m') (k : Port) :
    (x.request m k).Agrees (x'.request m' k) := by
  by_cases hidle : x.state = .idle
  · have hidle' : x'.state = .idle := hx.state ▸ hidle
    rcases x with ⟨_, a, c⟩
    rcases x' with ⟨_, a', c'⟩
    simp only at hidle hidle'
    subst hidle hidle'
    refine ⟨?_, rfl, rfl, rfl, rfl, fun _ => hm.araddr_eq, fun _ => hm.awaddr_eq, fun hw => Bool.noConfusion hw⟩
    simp [request, hm.arvalid, hm.araddr_eq]
  · obtain ⟨hactive, hacc⟩ := hx.active hidle
    refine ⟨?_, ?_, ?_, ?_, ?_, fun _ => hm.araddr_eq, fun _ => hm.awaddr_eq, ?_⟩
    · simp [request, hx.state, hm.arvalid, hm.araddr_eq]
    · simp [request, hx.state, hactive, hm.rready]
    · simp [request, hx.state, hactive, hacc]
    · simp [request, hx.state, hactive, hm.wvalid]
    · simp [request, hx.state, hactive, hm.bready]
    · intro hw
      apply hm.wdata
      simp only [request, Bool.and_eq_true] at hw
      exact hw.2

theorem response_alike (hx : Alike x x') (hm : SameRequest m m') (rs : Port → BusResponse) :
    x.response m rs = x'.response m' rs := by
  by_cases hidle : x.state = .idle
  · have hidle' : x'.state = .idle := hx.state ▸ hidle
    simp [response, hidle, hidle', hm.arvalid, hm.araddr_eq, hm.awvalid, hm.awaddr_eq, hm.wvalid]
  · obtain ⟨hactive, hacc⟩ := hx.active hidle
    simp [response, hx.state, hactive, hacc, hm.arvalid, hm.araddr_eq, hm.awvalid, hm.awaddr_eq, hm.wvalid]

theorem alike_step (hx : Alike x x') (hm : SameRequest m m') (rs : Port → BusResponse) :
    Alike (x.step m rs) (x'.step m' rs) := by
  by_cases hidle : x.state = .idle
  · have hidle' : x'.state = .idle := hx.state ▸ hidle
    refine ⟨?_, ?_⟩
    · simp [step, stateNext, hidle, hidle', hm.arvalid, hm.araddr_eq, hm.awvalid, hm.awaddr_eq]
    · intro hne
      cases har : m.arvalid <;> cases haw : m.awvalid <;>
        simp [step, stateNext, hidle, hidle', har, haw, ← hm.arvalid, ← hm.awvalid, hm.araddr_eq, hm.awaddr_eq] at hne ⊢
  · obtain ⟨hactive, hacc⟩ := hx.active hidle
    have hidle' : x'.state ≠ .idle := fun h => hidle (hx.state.trans h)
    obtain rfl : x = x' := by
      rcases x with ⟨s, a, c⟩
      rcases x' with ⟨s', a', c'⟩
      simp only [Interconnect.mk.injEq]
      exact ⟨hx.state, hactive, hacc⟩
    have hreq := request_agrees hx hm x.activeSlave
    have haw : x.awFires m rs = x.awFires m' rs := by simp only [awFires, hreq.awvalid]
    refine ⟨?_, fun _ => ⟨?_, ?_⟩⟩
    · simp only [step, stateNext, haw, hm.arvalid, hm.araddr_eq, hm.awvalid, hm.awaddr_eq, hm.rready, hm.bready,
        hreq.wvalid]
    · cases hs : x.state <;> simp [step, hs] at hidle ⊢
    · simp only [step, haw]

end TwoRuns

end Interconnect

namespace AxiMaster

/-- two masters in the same command: a read does not use the write registers, and sets the read data at its end -/
structure Alike (isRead : Bool) (s s' : AxiMaster) : Prop where
  state : s.state = s'.state
  addr : s.addrReg = s'.addrReg
  awDone : s.awDone = s'.awDone
  wDone : s.wDone = s'.wDone
  error : s.errorReg = s'.errorReg
  phase : if isRead then s.state = .rdAddr ∨ s.state = .rdData ∨ s.state = .done
    else s.state = .wrAddr ∨ s.state = .wrData ∨ s.state = .wrResp ∨ s.state = .done
  wdata : isRead = false → s.wdataReg = s'.wdataReg ∧ s.wstrbReg = s'.wstrbReg
  rdata : isRead = true → s.state = .done → s.rdataReg = s'.rdataReg

section TwoRuns

variable {isRead : Bool} {s s' : AxiMaster}

theorem Alike.request (h : Alike isRead s s') : Interconnect.SameRequest s.request s'.request := by
  refine ⟨⟨?_, ?_, ?_, ?_, ?_, fun _ => h.addr, fun _ => h.addr, ?_⟩, h.addr, h.addr⟩
  · simp [AxiMaster.request, h.state]
  · simp [AxiMaster.request, h.state]
  · simp [AxiMaster.request, h.state, h.awDone]
  · simp [AxiMaster.request, h.state, h.wDone]
  · simp [AxiMaster.request, h.state]
  · intro hw
    cases isRead with
    | false => exact h.wdata rfl
    | true =>
      -- a read never offers data
      exfalso
      rcases h.phase with hs | hs | hs <;> simp [AxiMaster.request, hs] at hw

/-- a command goes through its own phases -/
theorem Alike.phase_step (h : Alike isRead s s') (hdone : s.state ≠ .done) (c : BusCmd) (r : BusResponse) :
    if isRead then s.stateNext c r = .rdAddr ∨ s.stateNext c r = .rdData ∨ s.stateNext c r = .done
    else s.stateNext c r = .wrAddr ∨ s.stateNext c r = .wrData ∨ s.stateNext c r = .wrResp ∨
      s.stateNext c r = .done := by
  cases isRead with
  | true =>
    rw [if_pos rfl]
    rcases h.phase with hs | hs | hs
    · cases hf : s.arFires r <;> simp [stateNext, hs, hf]
    · cases hf : s.rFires r <;> simp [stateNext, hs, hf]
    · exact absurd hs hdone
  | false =>
    rw [if_neg Bool.false_ne_true]
    rcases h.phase with hs | hs | hs | hs
    · simp only [stateNext, hs]
      split
      · simp
      · split <;> simp
    · cases hf : s.wFires r <;> simp [stateNext, hs, hf]
    · cases hf : s.bFires r <;> simp [stateNext, hs, hf]
    · exact absurd hs hdone

/-- a read is done with the response that both have taken -/
theorem Alike.rdata_step (h : Alike true s s') (hdone : s.state ≠ .done) (c c' : BusCmd) (r : BusResponse)
    (hs : s.stateNext c r = .done) : (s.step c r).rdataReg = (s'.step c' r).rdataReg := by
  have hr : s.rFires r = s'.rFires r := by simp only [rFires, h.request.rready]
  rcases h.phase with hp | hp | hp
  · simp only [stateNext, hp] at hs
    split at hs <;> simp at hs
  · have hf : s.rFires r = true := by
      by_contra hf
      simp [stateNext, hp, hf] at hs
    have hp' : s'.state = .rdData := h.state ▸ hp
    simp [step, hp, hp', hf, ← hr]
  · exact absurd hp hdone

theorem alike_step (h : Alike isRead s s') (hdone : s.state ≠ .done) (c c' : BusCmd) (r : BusResponse) :
    Alike isRead (s.step c r) (s'.step c' r) := by
  have hne : s'.state ≠ .done := fun hs => hdone (h.state.trans hs)
  have har : s.arFires r = s'.arFires r := by simp only [arFires, h.request.arvalid]
  have hr : s.rFires r = s'.rFires r := by simp only [rFires, h.request.rready]
  have haw : s.awFires r = s'.awFires r := by simp only [awFires, h.request.awvalid]
  have hw : s.wFires r = s'.wFires r := by simp only [wFires, h.request.wvalid]
  have hb : s.bFires r = s'.bFires r := by simp only [bFires, h.request.bready]
  have hbusy : s.state ≠ .idle := by
    intro hs
    cases isRead <;> simpa [hs] using h.phase
  have hbusy' : s'.state ≠ .idle := fun hs => hbusy (h.state.trans hs)
  have hstate : s.stateNext c r = s'.stateNext c' r := by
    cases hs' : s'.state <;> simp [stateNext, h.state, hs', har, hr, haw, hw, hb, h.awDone, h.wDone] at hbusy' ⊢
  refine ⟨hstate, ?_, ?_, ?_, ?_, h.phase_step hdone c r, ?_, ?_⟩
  · simp [step, hbusy, hbusy', h.addr]
  · simp only [step, h.state, h.awDone, haw]
  · simp only [step, h.state, h.wDone, hw]
  · simp only [step, h.state, h.error, hr, hb]
  · intro hread
    simp [step, hbusy, hbusy', h.wdata hread]
  · intro hread hs
    obtain rfl : isRead = true := hread
    exact h.rdata_step hdone c c' r hs

end TwoRuns

end AxiMaster

namespace Bus

/-- two buses in the same command -/
structure Alike {sl : BusSlave} (isRead : Bool) (b b' : Bus sl) : Prop where
  master : b.master.Alike isRead b'.master
  xbar : b.xbar.Alike b'.xbar
  slave : b.slave = b'.slave

section TwoRuns

variable {sl : BusSlave} {k : Port} {isRead : Bool} {b b' : Bus sl} {Rest : sl.State → Prop}

theorem slaveIn_agrees (h : Alike isRead b b') : (b.slaveIn k).Agrees (b'.slaveIn k) :=
  Interconnect.request_agrees h.xbar h.master.request k

theorem ports_alike (hP : sl.PayloadValid) (h : Alike isRead b b') : b.ports k = b'.ports k := by
  have hout : sl.out b.slave (b.slaveIn k) = sl.out b'.slave (b'.slaveIn k) := by
    rw [h.slave, hP.out _ _ _ (slaveIn_agrees h)]
  funext j
  simp only [ports, hout]

/-- **Two runs of one command stay alike** until it is done, under the same inputs. -/
theorem alike_step (hP : sl.PayloadValid) (h : Alike isRead b b') (hdone : b.master.state ≠ .done) (i : BusIn sl) :
    Alike isRead (b.step k i) (b'.step k i) := by
  have hports := ports_alike (k := k) hP h
  have hin : b.masterIn k = b'.masterIn k := by
    rw [masterIn, masterIn, hports]
    exact Interconnect.response_alike h.xbar h.master.request _
  refine ⟨?_, ?_, ?_⟩
  · change (b.master.step i.cmd (b.masterIn k)).Alike isRead (b'.master.step i.cmd (b'.masterIn k))
    rw [hin]
    exact AxiMaster.alike_step h.master hdone i.cmd i.cmd _
  · change (b.xbar.step b.master.request (b.ports k)).Alike (b'.xbar.step b'.master.request (b'.ports k))
    rw [hports]
    exact Interconnect.alike_step h.xbar h.master.request _
  · change sl.step b.slave (b.slaveIn k) i.env = sl.step b'.slave (b'.slaveIn k) i.env
    rw [h.slave, hP.step _ _ _ _ (slaveIn_agrees h)]

/-- a command accepted by both -/
theorem alike_accept (hP : Fabric.Prompt sl k Rest) (hb : Ready Rest b) (hb' : Ready Rest b') (hs : b.slave = b'.slave)
    (i : BusIn sl) (hc : i.cmd.read = true ∨ i.cmd.write = true) : Alike i.cmd.read (b.step k i) (b'.step k i) := by
  rw [step_idle i hb.master hb.xbar, step_idle i hb'.master hb'.xbar, hP.still _ _ _ hb.slave, hP.still _ _ _ hb'.slave]
  refine ⟨?_, ⟨?_, ?_⟩, hs⟩
  · cases hr : i.cmd.read with
    | true =>
      rw [AxiMaster.step_read hb.master hr, AxiMaster.step_read hb'.master hr]
      exact ⟨rfl, rfl, rfl, rfl, rfl, .inl rfl, fun h => Bool.noConfusion h, fun _ h => MasterState.noConfusion h⟩
    | false =>
      have hw : i.cmd.write = true := hc.resolve_left (by simp [hr])
      rw [AxiMaster.step_write hb.master hr hw, AxiMaster.step_write hb'.master hr hw]
      exact ⟨rfl, rfl, rfl, rfl, rfl, .inl rfl, fun _ => ⟨rfl, rfl⟩, fun h => Bool.noConfusion h⟩
  · exact hb.xbar.trans hb'.xbar.symm
  · exact fun h => absurd hb.xbar h

theorem alike_run (hP : Fabric.Prompt sl k Rest) (hb : Ready Rest b) (hb' : Ready Rest b') (hs : b.slave = b'.slave)
    (ins : ℕ → BusIn sl) (hc : (ins 0).cmd.read = true ∨ (ins 0).cmd.write = true) (n : ℕ)
    (hfirst : ∀ j ≤ n, (b.after k ins j).master.cmdDone = false) :
    Alike (ins 0).cmd.read (b.after k ins (n + 1)) (b'.after k ins (n + 1)) := by
  induction n with
  | zero => exact alike_accept hP hb hb' hs (ins 0) hc
  | succ n ih =>
    have halike := ih fun j hj => hfirst j (Nat.le_succ_of_le hj)
    refine alike_step hP.payload halike ?_ (ins (n + 1))
    simpa [AxiMaster.cmdDone] using hfirst (n + 1) (le_refl _)

theorem busy_of_first (hb : b.master.state = .idle) (ins : ℕ → BusIn sl)
    (hc : (ins 0).cmd.read = true ∨ (ins 0).cmd.write = true) (n : ℕ)
    (hfirst : ∀ j ≤ n, (b.after k ins j).master.cmdDone = false) : (b.after k ins (n + 1)).master.state ≠ .idle := by
  change (b.after k ins n).master.stateNext (ins n).cmd _ ≠ .idle
  induction n with
  | zero =>
    change b.master.stateNext (ins 0).cmd _ ≠ .idle
    rcases hc with hr | hw
    · simp [AxiMaster.stateNext, hb, hr]
    · cases hr : (ins 0).cmd.read <;> simp [AxiMaster.stateNext, hb, hr, hw]
  | succ n ih =>
    have hbusy : (b.after k ins (n + 1)).master.state ≠ .idle := ih fun j hj => hfirst j (Nat.le_succ_of_le hj)
    have hnot : (b.after k ins (n + 1)).master.state ≠ .done := by
      simpa [AxiMaster.cmdDone] using hfirst (n + 1) (le_refl _)
    cases hs : (b.after k ins (n + 1)).master.state <;> simp [AxiMaster.stateNext, hs] at hbusy hnot ⊢ <;>
      (repeat' split) <;> simp

end TwoRuns

end Bus

/-! ## Commands on the fabric -/

/-- the handshakes at a port -/
def portEvents (q : BusRequest) (p : BusResponse) : List MasterEvent :=
  AxiMaster.whenFires (q.arvalid && p.arready) (.ar q.araddr) ++
    AxiMaster.whenFires (p.rvalid && q.rready) (.r p.rdata p.rresp) ++
    AxiMaster.whenFires (q.awvalid && p.awready) (.aw q.awaddr) ++
      AxiMaster.whenFires (q.wvalid && p.wready) (.w q.wdata q.wstrb) ++
    AxiMaster.whenFires (p.bvalid && q.bready) (.b p.bresp)

theorem portEvents_agrees {q q' : BusRequest} (h : q.Agrees q') (p : BusResponse) :
    portEvents q p = portEvents q' p := by
  have har : AxiMaster.whenFires (q.arvalid && p.arready) (.ar q.araddr) =
      AxiMaster.whenFires (q'.arvalid && p.arready) (.ar q'.araddr) := by
    cases hv : q.arvalid
    · simp [AxiMaster.whenFires, ← h.arvalid, hv]
    · rw [← h.arvalid, h.araddr hv, hv]
  have haw : AxiMaster.whenFires (q.awvalid && p.awready) (.aw q.awaddr) =
      AxiMaster.whenFires (q'.awvalid && p.awready) (.aw q'.awaddr) := by
    cases hv : q.awvalid
    · simp [AxiMaster.whenFires, ← h.awvalid, hv]
    · rw [← h.awvalid, h.awaddr hv, hv]
  have hw : AxiMaster.whenFires (q.wvalid && p.wready) (.w q.wdata q.wstrb) =
      AxiMaster.whenFires (q'.wvalid && p.wready) (.w q'.wdata q'.wstrb) := by
    cases hv : q.wvalid
    · simp [AxiMaster.whenFires, ← h.wvalid, hv]
    · rw [← h.wvalid, (h.wdata hv).1, (h.wdata hv).2, hv]
  rw [portEvents, portEvents, har, haw, hw, h.rready, h.bready]

theorem portEvents_quiet (l : BusLines) (p : BusResponse) : portEvents l.quiet p = [] := by
  simp [portEvents, AxiMaster.whenFires, Axi.Lines.quiet]

namespace Fabric

variable {sl : Port → BusSlave}

/-- what the ports see of a cycle -/
def routes (f : Fabric sl) : List (Port × MasterEvent) :=
  (List.finRange 6).flatMap fun k => (portEvents (f.slaveIn k) (f.ports k)).map (Prod.mk k)

/-- the inputs from the cycle on in which the master looks at a command -/
abbrev Job (sl : Port → BusSlave) := ℕ → FabricIn sl

/-- what comes back on a command: the error flag, the data of a read, and what the ports have seen -/
structure Outcome where
  error : Bool
  data : Option Word
  routes : List (Port × MasterEvent)

def outcome (f : Fabric sl) (job : Job sl) (n : ℕ) : Outcome where
  error := (f.after job n).master.cmdError
  data := if (job 0).cmd.read then some (f.after job n).master.cmdRdata else none
  routes := Machine.log (fun f _ => f.routes) step f job n

/-- `cmd_done` comes for the first time in cycle `n` -/
def DoneAt (f : Fabric sl) (job : Job sl) (n : ℕ) : Prop :=
  (∀ j < n, (f.after job j).master.cmdDone = false) ∧ (f.after job n).master.cmdDone = true

theorem doneAt_unique {f : Fabric sl} {job : Job sl} {n n' : ℕ} (h : f.DoneAt job n) (h' : f.DoneAt job n') :
    n = n' := by
  rcases Nat.lt_trichotomy n n' with hlt | heq | hgt
  · exact absurd (h.2.symm.trans (h'.1 n hlt)) (by decide)
  · exact heq
  · exact absurd (h'.2.symm.trans (h.1 n' hgt)) (by decide)

variable (good : Port → Prop) (Rest : ∀ k, (sl k).State → Prop)

/-- no transaction is in progress, and the slaves at the good ports rest -/
structure Ready (f : Fabric sl) : Prop where
  master : f.master.state = .idle
  xbar : f.xbar.state = .idle
  slave : ∀ k, good k → Rest k (f.slave k)

/-- the same slaves at the good ports -/
def Same (f g : Fabric sl) : Prop := ∀ k, good k → f.slave k = g.slave k

/-- a run of a command at port `k`, up to the cycle of its `cmd_done` -/
structure Served (f : Fabric sl) (job : Job sl) (k : Port) (n : ℕ) : Prop where
  pos : 0 < n
  busy : ∀ j, 0 < j → j ≤ n → (f.after job j).master.state ≠ .idle
  done : f.DoneAt job n
  view : ∀ j ≤ n, Aimed k (f.after job j) ∧ (f.after job j).view k = (f.view k).after k (fun j => viewIn k (job j)) j
  finished : Bus.Finished (Rest k) ((f.after job n).view k)

/-- the cycle looks at a command -/
def IsCommand (c : BusCmd) : Prop := c.read = true ∨ c.write = true

section Mapped

variable {good Rest} {f g : Fabric sl} {job : Job sl} {k : Port}

/-- between transactions the slaves at the good ports stay as they are -/
theorem slave_still {j : Port} (hP : Prompt (sl j) j (Rest j)) (hrest : Rest j (f.slave j))
    (hin : f.slaveIn j = f.lines.quiet) (i : FabricIn sl) : (f.step i).slave j = f.slave j := by
  change (sl j).step (f.slave j) (f.slaveIn j) (i.env j) = f.slave j
  rw [hin]
  exact hP.still _ _ _ hrest

theorem ready_step (hgood : ∀ k, good k → Prompt (sl k) k (Rest k)) (hf : Ready good Rest f) (i : FabricIn sl)
    (hc : ¬ IsCommand i.cmd) : Ready good Rest (f.step i) ∧ Same good (f.step i) f := by
  have hnone : i.cmd.read = false ∧ i.cmd.write = false := by simpa [IsCommand] using hc
  have hsame : Same good (f.step i) f := fun j hj =>
    slave_still (hgood j hj) (hf.slave j hj) (slaveIn_idle hf.master hf.xbar j) i
  refine ⟨⟨?_, ?_, fun j hj => ?_⟩, hsame⟩
  · simp [step, AxiMaster.step_none hf.master hnone.1 hnone.2]
  · change f.xbar.stateNext f.master.request f.ports = .idle
    simp [Interconnect.stateNext, AxiMaster.request, hf.master, hf.xbar]
  · rw [hsame j hj]
    exact hf.slave j hj

/-- a command, on the bus of its port -/
theorem bus_done (hP : Prompt (sl k) k (Rest k)) {b : Bus (sl k)} (hb : Bus.Ready (Rest k) b) (ins : ℕ → BusIn (sl k))
    (hc : IsCommand (ins 0).cmd) (ha : decode (ins 0).cmd.addr = some k) :
    ∃ n, (∀ j < n, (b.after k ins j).master.cmdDone = false) ∧ Bus.Finished (Rest k) (b.after k ins n) := by
  cases hr : (ins 0).cmd.read with
  | true =>
    obtain ⟨n, hdone, hfinished⟩ := Bus.read_done hP.contract hP.reads hb ins hr ha
    exact ⟨n, hdone.first, hfinished⟩
  | false =>
    have hw : (ins 0).cmd.write = true := hc.resolve_left (by simp [hr])
    obtain ⟨n, hdone, hfinished⟩ := Bus.write_done hP.contract hP.writes hb ins hr hw ha
    exact ⟨n, hdone.first, hfinished⟩

theorem served (hP : Prompt (sl k) k (Rest k)) (hf : Ready good Rest f) (hk : good k) (hc : IsCommand (job 0).cmd)
    (ha : decode (job 0).cmd.addr = some k) : ∃ n, Served Rest f job k n := by
  have hb : Bus.Ready (Rest k) (f.view k) := ⟨hf.master, hf.xbar, hf.slave k hk⟩
  obtain ⟨n, hfirst, hfinished⟩ := bus_done hP hb (fun j => viewIn k (job j)) hc ha
  have hbusy : ∀ j, 0 < j → j ≤ n → ((f.view k).after k (fun j => viewIn k (job j)) j).master.state ≠ .idle := by
    intro j h0 hj
    obtain ⟨m, rfl⟩ := Nat.exists_eq_succ_of_ne_zero (Nat.pos_iff_ne_zero.1 h0)
    exact Bus.busy_of_first hb.master (fun j => viewIn k (job j)) hc m fun i hi => hfirst i (by omega)
  have hview : ∀ j ≤ n, Aimed k (f.after job j) ∧
      (f.after job j).view k = (f.view k).after k (fun j => viewIn k (job j)) j := by
    intro j hj
    exact run_view hf.master hf.xbar job (.inl ha) j fun i h0 hi => hbusy i h0 (by omega)
  have hmaster : ∀ j ≤ n, (f.after job j).master = ((f.view k).after k (fun j => viewIn k (job j)) j).master := by
    intro j hj
    exact congrArg Bus.master (hview j hj).2
  refine ⟨n, ?_, fun j h0 hj => hmaster j hj ▸ hbusy j h0 hj, ⟨?_, ?_⟩, hview, ?_⟩
  · apply Nat.pos_of_ne_zero
    rintro rfl
    have hdone := hfinished.master
    rw [show ((f.view k).after k (fun j => viewIn k (job j)) 0).master.state = .idle from hf.master] at hdone
    exact MasterState.noConfusion hdone
  · intro j hj
    rw [hmaster j hj.le]
    exact hfirst j hj
  · rw [hmaster n (le_refl n)]
    simp [AxiMaster.cmdDone, hfinished.master]
  · rw [(hview n (le_refl n)).2]
    exact hfinished

/-- the other ports see nothing of the command -/
theorem Served.quiet {n : ℕ} (hs : Served Rest f job k n) (hf : Ready good Rest f) {m : ℕ} (hm : m ≤ n) {j : Port}
    (hj : j ≠ k) : (f.after job m).slaveIn j = (f.after job m).lines.quiet := by
  cases m with
  | zero => exact slaveIn_idle hf.master hf.xbar j
  | succ m => exact slaveIn_quiet (hs.view _ hm).1 (hs.busy _ (Nat.succ_pos m) hm) hj

theorem Served.others {n : ℕ} (hs : Served Rest f job k n) (hgood : ∀ k, good k → Prompt (sl k) k (Rest k))
    (hf : Ready good Rest f) {j : Port} (hj : good j) (hjk : j ≠ k) (m : ℕ) (hm : m ≤ n + 1) :
    (f.after job m).slave j = f.slave j := by
  induction m with
  | zero => rfl
  | succ m ih =>
    have hslave := ih (Nat.le_of_succ_le hm)
    have hrest : Rest j ((f.after job m).slave j) := by
      rw [hslave]
      exact hf.slave j hj
    calc (f.after job (m + 1)).slave j = ((f.after job m).step (job m)).slave j := rfl
      _ = (f.after job m).slave j := slave_still (hgood j hj) hrest (hs.quiet hf (Nat.le_of_succ_le_succ hm) hjk) _
      _ = f.slave j := hslave

theorem Served.ready {n : ℕ} (hs : Served Rest f job k n) (hgood : ∀ k, good k → Prompt (sl k) k (Rest k))
    (hf : Ready good Rest f) (hk : good k) :
    Ready good Rest (f.after job (n + 1)) ∧ (f.after job (n + 1)).slave k = (f.after job n).slave k := by
  have hview : (f.after job (n + 1)).view k = ((f.after job n).view k).step k (viewIn k (job n)) :=
    step_view (hs.view n (le_refl n)).1 (job n)
  have hb := Bus.ready_of_finished (k := k) (hgood k hk).contract.rests hs.finished (viewIn k (job n))
  rw [← hview] at hb
  refine ⟨⟨hb.master, hb.xbar, fun j hj => ?_⟩, ?_⟩
  · by_cases hjk : j = k
    · subst hjk
      exact hb.slave
    · rw [hs.others hgood hf hj hjk (n + 1) (le_refl _)]
      exact hf.slave j hj
  · apply slave_still (hgood k hk) hs.finished.slave
    exact Bus.slaveIn_quiet hs.finished.xbar (by simp [hs.finished.master])

/-- two runs of a command from the same slave are alike, from the acceptance to the end of the shorter one -/
theorem Served.alike {n n' : ℕ} (hs : Served Rest f job k n) (hs' : Served Rest g job k n')
    (hP : Prompt (sl k) k (Rest k))
    (hf : Ready good Rest f) (hg : Ready good Rest g) (hsame : Same good f g) (hk : good k) (hc : IsCommand (job 0).cmd)
    (j : ℕ) (h0 : 0 < j) (hj : j ≤ n) (hj' : j ≤ n') :
    Bus.Alike (job 0).cmd.read ((f.after job j).view k) ((g.after job j).view k) := by
  have hb : Bus.Ready (Rest k) (f.view k) := ⟨hf.master, hf.xbar, hf.slave k hk⟩
  have hb' : Bus.Ready (Rest k) (g.view k) := ⟨hg.master, hg.xbar, hg.slave k hk⟩
  obtain ⟨m, rfl⟩ := Nat.exists_eq_succ_of_ne_zero (Nat.pos_iff_ne_zero.1 h0)
  rw [(hs.view _ hj).2, (hs'.view _ hj').2]
  apply Bus.alike_run hP hb hb' (hsame k hk) (fun j => viewIn k (job j)) hc m
  intro i hi
  rw [← (hs.view i (by omega)).2]
  exact hs.done.1 i (by omega)

section Two

variable {n n' : ℕ}

/-- they end in the same cycle -/
theorem Served.same_end (hs : Served Rest f job k n) (hs' : Served Rest g job k n')
    (halike : ∀ j, 0 < j → j ≤ n → j ≤ n' → Bus.Alike (job 0).cmd.read ((f.after job j).view k)
      ((g.after job j).view k)) :
    n = n' := by
  have hdone (j : ℕ) (h0 : 0 < j) (hj : j ≤ n) (hj' : j ≤ n') :
      (f.after job j).master.cmdDone = (g.after job j).master.cmdDone := by
    have hstate := (halike j h0 hj hj').master.state
    change ((f.after job j).master.state == .done) = ((g.after job j).master.state == .done)
    rw [show (f.after job j).master.state = (g.after job j).master.state from hstate]
  rcases Nat.lt_trichotomy n n' with hlt | heq | hgt
  · have h := hdone n hs.pos (le_refl n) hlt.le
    rw [hs.done.2, hs'.done.1 n hlt] at h
    exact Bool.noConfusion h
  · exact heq
  · have h := hdone n' hs'.pos hgt.le (le_refl n')
    rw [hs'.done.2, hs.done.1 n' hgt] at h
    exact Bool.noConfusion h

/-- a cycle of both routes the same to every port: to the port of the command what it asks for, to the others nothing -/
theorem Served.same_routes (hs : Served Rest f job k n) (hs' : Served Rest g job k n) (hP : Prompt (sl k) k (Rest k))
    (hf : Ready good Rest f) (hg : Ready good Rest g)
    (halike : ∀ j, 0 < j → j ≤ n → j ≤ n → Bus.Alike (job 0).cmd.read ((f.after job j).view k) ((g.after job j).view k))
    (m : ℕ) (hm : m ≤ n) : (f.after job m).routes = (g.after job m).routes := by
  apply List.flatMap_congr
  intro j _
  by_cases hjk : j = k
  · subst hjk
    cases m with
    | zero =>
      rw [slaveIn_idle (f := f.after job 0) hf.master hf.xbar, slaveIn_idle (f := g.after job 0) hg.master hg.xbar,
        portEvents_quiet, portEvents_quiet]
    | succ m =>
      have hm' := halike (m + 1) (Nat.succ_pos m) hm hm
      have hports : (f.after job (m + 1)).ports j = (g.after job (m + 1)).ports j := by
        have h := congrFun (Bus.ports_alike (k := j) hP.payload hm') j
        rwa [Bus.ports_self, Bus.ports_self] at h
      rw [hports]
      exact congrArg (List.map (Prod.mk j)) (portEvents_agrees (Bus.slaveIn_agrees hm') _)
  · rw [hs.quiet hf hm hjk, hs'.quiet hg hm hjk, portEvents_quiet, portEvents_quiet]

end Two

/-- **A command of a good slave, from two states with the same good slaves**: it is done in the same cycle, the same
comes back, and the good slaves are the same afterwards. -/
theorem mapped_same (hgood : ∀ k, good k → Prompt (sl k) k (Rest k)) (hf : Ready good Rest f) (hg : Ready good Rest g)
    (hsame : Same good f g) (hc : IsCommand (job 0).cmd) (hk : good k) (ha : decode (job 0).cmd.addr = some k) :
    ∃ n, f.DoneAt job n ∧ g.DoneAt job n ∧ Ready good Rest (f.after job (n + 1)) ∧
      Ready good Rest (g.after job (n + 1)) ∧
      Same good (f.after job (n + 1)) (g.after job (n + 1)) ∧ f.outcome job n = g.outcome job n := by
  obtain ⟨n, hs⟩ := served (hgood k hk) hf hk hc ha
  obtain ⟨n', hs'⟩ := served (hgood k hk) hg hk hc ha
  have halike := hs.alike hs' (hgood k hk) hf hg hsame hk hc
  obtain rfl := hs.same_end hs' halike
  have hend := halike n hs.pos (le_refl n) (le_refl n)
  obtain ⟨hready, hslave⟩ := hs.ready hgood hf hk
  obtain ⟨hready', hslave'⟩ := hs'.ready hgood hg hk
  refine ⟨n, hs.done, hs'.done, hready, hready', ?_, ?_⟩
  · intro j hj
    by_cases hjk : j = k
    · subst hjk
      rw [hslave, hslave']
      exact hend.slave
    · rw [hs.others hgood hf hj hjk _ (le_refl _), hs'.others hgood hg hj hjk _ (le_refl _)]
      exact hsame j hj
  · have hroutes : ∀ m ≤ n, Machine.log (fun f _ => f.routes) step f job m = Machine.log
        (fun f _ => f.routes) step g job m := by
      intro m
      induction m with
      | zero => exact fun _ => rfl
      | succ m ih =>
        intro hm
        rw [Machine.log_succ, Machine.log_succ, ih (Nat.le_of_succ_le hm)]
        exact congrArg _ (hs.same_routes hs' (hgood k hk) hf hg halike m (Nat.le_of_succ_le hm))
    have herror : (f.after job n).master.cmdError = (g.after job n).master.cmdError := by
      change ((f.after job n).master.state == .done && (f.after job n).master.errorReg) =
        ((g.after job n).master.state == .done && (g.after job n).master.errorReg)
      rw [show (f.after job n).master.state = (g.after job n).master.state from hend.master.state,
        show (f.after job n).master.errorReg = (g.after job n).master.errorReg from hend.master.error]
    have hdata : (if (job 0).cmd.read then some (f.after job n).master.cmdRdata else none) =
        if (job 0).cmd.read then some (g.after job n).master.cmdRdata else none := by
      cases hr : (job 0).cmd.read with
      | false => rfl
      | true => exact congrArg some (hend.master.rdata hr hs.finished.master)
    rw [outcome, outcome, herror, hdata, hroutes n (le_refl n)]

end Mapped

/-! ## Unmapped commands -/

section Unmapped

variable {f : Fabric sl} {i : FabricIn sl}

/-- what happens at the master in a cycle -/
def masterEvents (f : Fabric sl) (i : FabricIn sl) : List MasterEvent := f.master.events ⟨i.cmd, f.masterIn⟩

/-- the interconnect passes nothing on: it is idle without a mapped read address, or answers itself -/
def Aside (f : Fabric sl) : Prop :=
  (f.xbar.state = .idle ∧ (f.master.state = .rdAddr → decode f.master.addrReg = none)) ∨ f.xbar.state = .decerrR ∨
    f.xbar.state = .decerrB

theorem slaveIn_aside (h : f.Aside) (k : Port) : f.slaveIn k = f.lines.quiet := by
  rcases f with ⟨⟨mstate, addr, _, _, _, _, _, _⟩, ⟨xstate, active, acc⟩, slave⟩
  simp only [Aside] at h
  rcases h with ⟨rfl, hr⟩ | rfl | rfl
  · by_cases hm : mstate = .rdAddr
    · simp [slaveIn, Interconnect.request, AxiMaster.request, lines, Axi.Lines.quiet, hr hm]
    · simp [slaveIn, Interconnect.request, AxiMaster.request, lines, Axi.Lines.quiet, hm]
  · simp [slaveIn, Interconnect.request, AxiMaster.request, lines, Axi.Lines.quiet]
  · simp [slaveIn, Interconnect.request, AxiMaster.request, lines, Axi.Lines.quiet]

/-- the next master and interconnect, and what happens at the master -/
structure Cycle (f : Fabric sl) (i : FabricIn sl) (m : AxiMaster) (x : XbarState) (es : List MasterEvent) : Prop where
  master : (f.step i).master = m
  xbar : (f.step i).xbar.state = x
  events : f.masterEvents i = es

theorem cycle_read (hm : f.master.state = .idle) (hx : f.xbar.state = .idle) (hr : i.cmd.read = true) :
    f.Cycle i ⟨.rdAddr, i.cmd.addr, f.master.wdataReg, f.master.wstrbReg, f.master.rdataReg, false, false, false⟩ .idle
      [.accept (.read i.cmd.addr)] := by
  refine ⟨AxiMaster.step_read hm hr _, ?_, ?_⟩
  · simp [step, Interconnect.step, Interconnect.stateNext, AxiMaster.request, hm, hx]
  · simp [masterEvents, AxiMaster.events, AxiMaster.accepted, AxiMaster.whenFires, AxiMaster.arFires, AxiMaster.rFires,
      AxiMaster.awFires, AxiMaster.wFires, AxiMaster.bFires, AxiMaster.cmdDone, AxiMaster.request, hm, hr]

theorem cycle_write (hm : f.master.state = .idle) (hx : f.xbar.state = .idle) (hr : i.cmd.read = false)
    (hw : i.cmd.write = true) :
    f.Cycle i ⟨.wrAddr, i.cmd.addr, i.cmd.wdata, i.cmd.strobe, f.master.rdataReg, false, false, false⟩ .idle
      [.accept (.write i.cmd.addr i.cmd.wdata i.cmd.strobe)] := by
  refine ⟨AxiMaster.step_write hm hr hw _, ?_, ?_⟩
  · simp [step, Interconnect.step, Interconnect.stateNext, AxiMaster.request, hm, hx]
  · simp [masterEvents, AxiMaster.events, AxiMaster.accepted, AxiMaster.whenFires, AxiMaster.arFires, AxiMaster.rFires,
      AxiMaster.awFires, AxiMaster.wFires, AxiMaster.bFires, AxiMaster.cmdDone, AxiMaster.request, hm, hr, hw]

/-- the address is taken by the interconnect itself -/
theorem cycle_ar {a d q : Word} {st : BitVec 4} (hm : f.master = ⟨.rdAddr, a, d, st, q, false, false, false⟩)
    (hx : f.xbar.state = .idle) (ha : decode a = none) :
    f.Cycle i ⟨.rdData, a, d, st, q, false, false, false⟩ .decerrR [.ar a] := by
  refine ⟨?_, ?_, ?_⟩
  · simp [step, masterIn, AxiMaster.step, AxiMaster.stateNext, AxiMaster.arFires, AxiMaster.request,
      Interconnect.response, hm, hx, ha]
  · simp [step, Interconnect.step, Interconnect.stateNext, AxiMaster.request, hm, hx, ha]
  · simp [masterEvents, masterIn, AxiMaster.events, AxiMaster.accepted, AxiMaster.whenFires, AxiMaster.arFires,
      AxiMaster.rFires, AxiMaster.awFires, AxiMaster.wFires, AxiMaster.bFires, AxiMaster.cmdDone, AxiMaster.request,
      Interconnect.response, hm, hx, ha]

theorem cycle_decerrR {a d q : Word} {st : BitVec 4} (hm : f.master = ⟨.rdData, a, d, st, q, false, false, false⟩)
    (hx : f.xbar.state = .decerrR) :
    f.Cycle i ⟨.done, a, d, st, 0, true, false, false⟩ .idle [.r 0 AXI_RESP_DECERR] := by
  refine ⟨?_, ?_, ?_⟩
  · simp [step, masterIn, AxiMaster.step, AxiMaster.stateNext, AxiMaster.rFires, AxiMaster.request,
      Interconnect.response, AXI_RESP_DECERR, hm, hx]
  · simp [step, Interconnect.step, Interconnect.stateNext, AxiMaster.request, hm, hx]
  · simp [masterEvents, masterIn, AxiMaster.events, AxiMaster.accepted, AxiMaster.whenFires, AxiMaster.arFires,
      AxiMaster.rFires, AxiMaster.awFires, AxiMaster.wFires, AxiMaster.bFires, AxiMaster.cmdDone, AxiMaster.request,
      Interconnect.response, hm, hx]

theorem cycle_aw {a d q : Word} {st : BitVec 4} (hm : f.master = ⟨.wrAddr, a, d, st, q, false, false, false⟩)
    (hx : f.xbar.state = .idle) (ha : decode a = none) :
    f.Cycle i ⟨.wrData, a, d, st, q, false, true, false⟩ .decerrB [.aw a] := by
  refine ⟨?_, ?_, ?_⟩
  · simp [step, masterIn, AxiMaster.step, AxiMaster.stateNext, AxiMaster.awFires, AxiMaster.wFires, AxiMaster.request,
      Interconnect.response, hm, hx, ha]
  · simp [step, Interconnect.step, Interconnect.stateNext, AxiMaster.request, hm, hx, ha]
  · simp [masterEvents, masterIn, AxiMaster.events, AxiMaster.accepted, AxiMaster.whenFires, AxiMaster.arFires,
      AxiMaster.rFires, AxiMaster.awFires, AxiMaster.wFires, AxiMaster.bFires, AxiMaster.cmdDone, AxiMaster.request,
      Interconnect.response, hm, hx, ha]

/-- the data beat is swallowed while the response is already offered -/
theorem cycle_w {a d q : Word} {st : BitVec 4} (hm : f.master = ⟨.wrData, a, d, st, q, false, true, false⟩)
    (hx : f.xbar.state = .decerrB) :
    f.Cycle i ⟨.wrResp, a, d, st, q, false, true, false⟩ .decerrB [.w d st] := by
  refine ⟨?_, ?_, ?_⟩
  · simp [step, masterIn, AxiMaster.step, AxiMaster.stateNext, AxiMaster.wFires, AxiMaster.request,
      Interconnect.response, hm, hx]
  · simp [step, Interconnect.step, Interconnect.stateNext, AxiMaster.request, hm, hx]
  · simp [masterEvents, masterIn, AxiMaster.events, AxiMaster.accepted, AxiMaster.whenFires, AxiMaster.arFires,
      AxiMaster.rFires, AxiMaster.awFires, AxiMaster.wFires, AxiMaster.bFires, AxiMaster.cmdDone, AxiMaster.request,
      Interconnect.response, hm, hx]

theorem cycle_decerrB {a d q : Word} {st : BitVec 4} (hm : f.master = ⟨.wrResp, a, d, st, q, false, true, false⟩)
    (hx : f.xbar.state = .decerrB) :
    f.Cycle i ⟨.done, a, d, st, q, true, true, false⟩ .idle [.b AXI_RESP_DECERR] := by
  refine ⟨?_, ?_, ?_⟩
  · simp [step, masterIn, AxiMaster.step, AxiMaster.stateNext, AxiMaster.bFires, AxiMaster.request,
      Interconnect.response, AXI_RESP_DECERR, hm, hx]
  · simp [step, Interconnect.step, Interconnect.stateNext, AxiMaster.request, hm, hx]
  · simp [masterEvents, masterIn, AxiMaster.events, AxiMaster.accepted, AxiMaster.whenFires, AxiMaster.arFires,
      AxiMaster.rFires, AxiMaster.awFires, AxiMaster.wFires, AxiMaster.bFires, AxiMaster.cmdDone, AxiMaster.request,
      Interconnect.response, hm, hx]

theorem cycle_done (hm : f.master.state = .done) (hx : f.xbar.state = .idle) :
    f.Cycle i { f.master with state := .idle, awDone := false, wDone := false } .idle
      [.done f.master.rdataReg f.master.errorReg] := by
  refine ⟨?_, ?_, ?_⟩
  · simp [step, AxiMaster.step, AxiMaster.stateNext, hm]
  · simp [step, Interconnect.step, Interconnect.stateNext, AxiMaster.request, hm, hx]
  · simp [masterEvents, AxiMaster.events, AxiMaster.accepted, AxiMaster.whenFires, AxiMaster.arFires, AxiMaster.rFires,
      AxiMaster.awFires, AxiMaster.wFires, AxiMaster.bFires, AxiMaster.cmdDone, AxiMaster.cmdRdata, AxiMaster.cmdError,
      AxiMaster.request, hm]

/-- the handshakes of an unmapped command at the master; `old` is the read data of the last read -/
def failedEvents (c : BusCmd) (old : Word) : List MasterEvent :=
  if c.read then [.accept (.read c.addr), .ar c.addr, .r 0 AXI_RESP_DECERR, .done 0 true]
  else [.accept (.write c.addr c.wdata c.strobe), .aw c.addr, .w c.wdata c.strobe, .b AXI_RESP_DECERR, .done old true]

/-- a command that ends in cycle `n` with an error, with a data beat of its own for a write, and that no slave has seen
-/
structure FailsClean (f : Fabric sl) (job : Job sl) (n : ℕ) : Prop where
  done : f.DoneAt job n
  error : (f.after job n).master.cmdError = true
  quiet : ∀ j ≤ n, ∀ k, (f.after job j).slaveIn k = (f.after job j).lines.quiet
  events : Machine.log masterEvents step f job (n + 1) = failedEvents (job 0).cmd f.master.rdataReg
  master : (f.after job (n + 1)).master.state = .idle
  xbar : (f.after job (n + 1)).xbar.state = .idle

variable {job : Job sl}

/-- four cycles: the command, the address, the error response, `cmd_done` -/
theorem read_fails (hm : f.master.state = .idle) (hx : f.xbar.state = .idle) (hr : (job 0).cmd.read = true)
    (ha : decode (job 0).cmd.addr = none) : f.FailsClean job 3 := by
  have c0 : f.Cycle (job 0) _ _ _ := cycle_read hm hx hr
  have c1 : (f.after job 1).Cycle (job 1) _ _ _ := cycle_ar c0.master c0.xbar ha
  have c2 : (f.after job 2).Cycle (job 2) _ _ _ := cycle_decerrR c1.master c1.xbar
  have hm1 : (f.after job 1).master.state = .rdAddr := congrArg AxiMaster.state c0.master
  have hm2 : (f.after job 2).master.state = .rdData := congrArg AxiMaster.state c1.master
  have hm3 : (f.after job 3).master.state = .done := congrArg AxiMaster.state c2.master
  have c3 : (f.after job 3).Cycle (job 3) _ _ _ := cycle_done hm3 c2.xbar
  have herror : (f.after job 3).master.errorReg = true := congrArg AxiMaster.errorReg c2.master
  have hdata : (f.after job 3).master.rdataReg = 0 := congrArg AxiMaster.rdataReg c2.master
  refine ⟨⟨?_, ?_⟩, ?_, ?_, ?_, ?_, c3.xbar⟩
  · intro j hj
    obtain rfl | rfl | rfl : j = 0 ∨ j = 1 ∨ j = 2 := by omega
    · simp [AxiMaster.cmdDone, after, hm]
    · simp [AxiMaster.cmdDone, hm1]
    · simp [AxiMaster.cmdDone, hm2]
  · simp [AxiMaster.cmdDone, hm3]
  · simp [AxiMaster.cmdError, hm3, herror]
  · intro j hj k
    apply slaveIn_aside
    obtain rfl | rfl | rfl | rfl : j = 0 ∨ j = 1 ∨ j = 2 ∨ j = 3 := by omega
    · exact .inl ⟨hx, fun h => MasterState.noConfusion (hm.symm.trans h)⟩
    · exact .inl ⟨c0.xbar, fun _ => (congrArg (fun m => decode m.addrReg) c0.master).trans ha⟩
    · exact .inr (.inl c1.xbar)
    · exact .inl ⟨c2.xbar, fun h => MasterState.noConfusion (hm3.symm.trans h)⟩
  · change [] ++ f.masterEvents (job 0) ++ (f.after job 1).masterEvents (job 1) ++
      (f.after job 2).masterEvents (job 2) ++
      (f.after job 3).masterEvents (job 3) = _
    rw [c0.events, c1.events, c2.events, c3.events, herror, hdata, failedEvents, if_pos hr]
    rfl
  · exact congrArg AxiMaster.state c3.master

/-- five cycles: the command, the address, the data beat, the error response, `cmd_done` -/
theorem write_fails (hm : f.master.state = .idle) (hx : f.xbar.state = .idle) (hr : (job 0).cmd.read = false)
    (hw : (job 0).cmd.write = true) (ha : decode (job 0).cmd.addr = none) : f.FailsClean job 4 := by
  have c0 : f.Cycle (job 0) _ _ _ := cycle_write hm hx hr hw
  have c1 : (f.after job 1).Cycle (job 1) _ _ _ := cycle_aw c0.master c0.xbar ha
  have c2 : (f.after job 2).Cycle (job 2) _ _ _ := cycle_w c1.master c1.xbar
  have c3 : (f.after job 3).Cycle (job 3) _ _ _ := cycle_decerrB c2.master c2.xbar
  have hm1 : (f.after job 1).master.state = .wrAddr := congrArg AxiMaster.state c0.master
  have hm2 : (f.after job 2).master.state = .wrData := congrArg AxiMaster.state c1.master
  have hm3 : (f.after job 3).master.state = .wrResp := congrArg AxiMaster.state c2.master
  have hm4 : (f.after job 4).master.state = .done := congrArg AxiMaster.state c3.master
  have c4 : (f.after job 4).Cycle (job 4) _ _ _ := cycle_done hm4 c3.xbar
  have herror : (f.after job 4).master.errorReg = true := congrArg AxiMaster.errorReg c3.master
  have hdata : (f.after job 4).master.rdataReg = f.master.rdataReg := (congrArg AxiMaster.rdataReg c3.master :)
  refine ⟨⟨?_, ?_⟩, ?_, ?_, ?_, ?_, c4.xbar⟩
  · intro j hj
    obtain rfl | rfl | rfl | rfl : j = 0 ∨ j = 1 ∨ j = 2 ∨ j = 3 := by omega
    · simp [AxiMaster.cmdDone, after, hm]
    · simp [AxiMaster.cmdDone, hm1]
    · simp [AxiMaster.cmdDone, hm2]
    · simp [AxiMaster.cmdDone, hm3]
  · simp [AxiMaster.cmdDone, hm4]
  · simp [AxiMaster.cmdError, hm4, herror]
  · intro j hj k
    apply slaveIn_aside
    obtain rfl | rfl | rfl | rfl | rfl : j = 0 ∨ j = 1 ∨ j = 2 ∨ j = 3 ∨ j = 4 := by omega
    · exact .inl ⟨hx, fun h => MasterState.noConfusion (hm.symm.trans h)⟩
    · exact .inl ⟨c0.xbar, fun h => MasterState.noConfusion (hm1.symm.trans h)⟩
    · exact .inr (.inr c1.xbar)
    · exact .inr (.inr c2.xbar)
    · exact .inl ⟨c3.xbar, fun h => MasterState.noConfusion (hm4.symm.trans h)⟩
  · change [] ++ f.masterEvents (job 0) ++ (f.after job 1).masterEvents (job 1) ++
      (f.after job 2).masterEvents (job 2) ++
      (f.after job 3).masterEvents (job 3) ++ (f.after job 4).masterEvents (job 4) = _
    rw [c0.events, c1.events, c2.events, c3.events, c4.events, herror, hdata, failedEvents, if_neg (by simp [hr])]
    rfl
  · exact congrArg AxiMaster.state c4.master

theorem unmapped_fails (hm : f.master.state = .idle) (hx : f.xbar.state = .idle) (hc : IsCommand (job 0).cmd)
    (ha : decode (job 0).cmd.addr = none) : ∃ n ≤ 4, f.FailsClean job n := by
  cases hr : (job 0).cmd.read with
  | true => exact ⟨3, by decide, read_fails hm hx hr ha⟩
  | false => exact ⟨4, le_refl 4, write_fails hm hx hr (hc.resolve_left (by simp [hr])) ha⟩

/-- the good slaves have not moved -/
theorem FailsClean.still {good : Port → Prop} {Rest : ∀ k, (sl k).State → Prop} {n : ℕ} (h : f.FailsClean job n)
    (hgood : ∀ k, good k → Prompt (sl k) k (Rest k)) (hf : Ready good Rest f) (m : ℕ) (hm : m ≤ n + 1) :
    Same good (f.after job m) f := by
  induction m with
  | zero => exact fun _ _ => rfl
  | succ m ih =>
    intro j hj
    have hslave : (f.after job m).slave j = f.slave j := ih (Nat.le_of_succ_le hm) j hj
    have hrest : Rest j ((f.after job m).slave j) := by
      rw [hslave]
      exact hf.slave j hj
    calc (f.after job (m + 1)).slave j = ((f.after job m).step (job m)).slave j := rfl
      _ = (f.after job m).slave j := slave_still (hgood j hj) hrest (h.quiet m (Nat.le_of_succ_le_succ hm) j) _
      _ = f.slave j := hslave

theorem FailsClean.ready {good : Port → Prop} {Rest : ∀ k, (sl k).State → Prop} {n : ℕ} (h : f.FailsClean job n)
    (hgood : ∀ k, good k → Prompt (sl k) k (Rest k)) (hf : Ready good Rest f) :
    Ready good Rest (f.after job (n + 1)) := by
  refine ⟨h.master, h.xbar, ?_⟩
  intro j hj
  rw [h.still hgood hf (n + 1) (le_refl _) j hj]
  exact hf.slave j hj

end Unmapped

/-! ## Sessions -/

/-- a cycle without a command, or a command with the inputs from its first cycle on -/
inductive Turn (sl : Port → BusSlave) where
  | wait (i : FabricIn sl)
  | job (ins : Job sl)

namespace Turn

/-- every command is unmapped or goes to a good slave -/
def Allowed (good : Port → Prop) : Turn sl → Prop
  | wait i => ¬ IsCommand i.cmd
  | job ins => IsCommand (ins 0).cmd ∧ (decode (ins 0).cmd.addr = none ∨ ∃ k, good k ∧ decode (ins 0).cmd.addr = some k)

/-- all but the unmapped commands -/
def mapped : Turn sl → Bool
  | wait _ => true
  | job ins => (decode (ins 0).cmd.addr).isSome

end Turn

/-- turns carried through one after another, each command up to its `cmd_done` and with what came back on it -/
inductive Session : Fabric sl → List (Turn sl) → Fabric sl → List (BusCmd × Outcome) → Prop
  | nil {f} : Session f [] f []
  | wait {f f' i turns outs} (h : Session (f.step i) turns f' outs) : Session f (.wait i :: turns) f' outs
  | job {f f' job turns outs n} (hdone : f.DoneAt job n) (h : Session (f.after job (n + 1)) turns f' outs) :
      Session f (.job job :: turns) f' (((job 0).cmd, f.outcome job n) :: outs)

/-- the answers to all but the unmapped commands -/
def mappedAnswers (outs : List (BusCmd × Outcome)) : List (BusCmd × Outcome) :=
  outs.filter fun o => (decode o.1.addr).isSome

section Sessions

variable {good : Port → Prop} {Rest : ∀ k, (sl k).State → Prop} {f g : Fabric sl}

/-- **A session is carried through, and the fabric is ready for the next one.** -/
theorem session_exists (hgood : ∀ k, good k → Prompt (sl k) k (Rest k)) (turns : List (Turn sl))
    (hf : Ready good Rest f) (hturns : ∀ t ∈ turns, t.Allowed good) : ∃ f' outs, Session f turns f' outs := by
  induction turns generalizing f with
  | nil => exact ⟨f, [], .nil⟩
  | cons t turns ih =>
    obtain ⟨hturn, hrest⟩ := List.forall_mem_cons.1 hturns
    cases t with
    | wait i =>
      obtain ⟨f', outs, h⟩ := ih (ready_step hgood hf i hturn).1 hrest
      exact ⟨f', outs, .wait h⟩
    | job job =>
      obtain ⟨hc, ha | ⟨k, hk, ha⟩⟩ := hturn
      · obtain ⟨n, -, hfails⟩ := unmapped_fails hf.master hf.xbar hc ha
        obtain ⟨f', outs, h⟩ := ih (hfails.ready hgood hf) hrest
        exact ⟨f', _, .job hfails.done h⟩
      · obtain ⟨n, hs⟩ := served (hgood k hk) hf hk hc ha
        obtain ⟨f', outs, h⟩ := ih (hs.ready hgood hf hk).1 hrest
        exact ⟨f', _, .job hs.done h⟩

/-- **A session without its unmapped commands**, from a state with the same good slaves -/
theorem session_mapped (hgood : ∀ k, good k → Prompt (sl k) k (Rest k)) {turns : List (Turn sl)} {f' : Fabric sl}
    {outs : List (BusCmd × Outcome)} (h : Session f turns f' outs) (hf : Ready good Rest f) (hg : Ready good Rest g)
    (hsame : Same good f g) (hturns : ∀ t ∈ turns, t.Allowed good) :
    Ready good Rest f' ∧ ∃ g', Session g (turns.filter Turn.mapped) g' (mappedAnswers outs) ∧ Same good f' g' := by
  induction h generalizing g with
  | nil => exact ⟨hf, g, .nil, hsame⟩
  | @wait f f' i turns outs h ih =>
    obtain ⟨hturn, hrest⟩ := List.forall_mem_cons.1 hturns
    obtain ⟨hf', hff'⟩ := ready_step hgood hf i hturn
    obtain ⟨hg', hgg'⟩ := ready_step hgood hg i hturn
    have hsame' : Same good (f.step i) (g.step i) := fun k hk => (hff' k hk).trans ((hsame k hk).trans (hgg' k hk).symm)
    obtain ⟨hend, g', hsession, hsame''⟩ := ih hf' hg' hsame' hrest
    exact ⟨hend, g', .wait hsession, hsame''⟩
  | @job f f' job turns outs n hdone h ih =>
    obtain ⟨⟨hc, ha⟩, hrest⟩ := List.forall_mem_cons.1 hturns
    rcases ha with ha | ⟨k, hk, ha⟩
    · -- the other run does not issue the command
      obtain ⟨n', -, hfails⟩ := unmapped_fails hf.master hf.xbar hc ha
      obtain rfl := doneAt_unique hdone hfails.done
      have hsame' : Same good (f.after job (n + 1)) g := fun k hk =>
        (hfails.still hgood hf (n + 1) (le_refl _) k hk).trans (hsame k hk)
      obtain ⟨hend, g', hsession, hsame''⟩ := ih (hfails.ready hgood hf) hg hsame' hrest
      refine ⟨hend, g', ?_, hsame''⟩
      simpa [Turn.mapped, mappedAnswers, ha] using hsession
    · obtain ⟨n', hdone', hdoneg, hf', hg', hsame', hout⟩ := mapped_same hgood hf hg hsame hc hk ha
      obtain rfl := doneAt_unique hdone hdone'
      obtain ⟨hend, g', hsession, hsame''⟩ := ih hf' hg' hsame' hrest
      refine ⟨hend, g', ?_, hsame''⟩
      have hsession' := Session.job hdoneg hsession
      rw [← hout] at hsession'
      simpa [Turn.mapped, mappedAnswers, ha] using hsession'

theorem ready_reset (hgood : ∀ k, good k → Prompt (sl k) k (Rest k)) : Ready good Rest (reset : Fabric sl) :=
  ⟨rfl, rfl, fun k hk => (hgood k hk).contract.rests.reset⟩

/-- **Unmapped accesses fail cleanly.** In every session of commands that are unmapped or go to a slave that serves them
at once, each command is done in the end; an unmapped one with an error, with its own data beat taken and with nothing
valid at any slave; and the other commands are routed and answered as in the session without the unmapped ones. -/
theorem unmapped_clean (hgood : ∀ k, good k → Prompt (sl k) k (Rest k)) (turns : List (Turn sl))
    (hturns : ∀ t ∈ turns, t.Allowed good) :
    (∃ f outs, Session reset turns f outs) ∧ ∀ f outs, Session reset turns f outs →
      (∀ job : Job sl, IsCommand (job 0).cmd → decode (job 0).cmd.addr = none → ∃ n ≤ 4, f.FailsClean job n) ∧
      ∃ g, Session reset (turns.filter Turn.mapped) g (mappedAnswers outs) ∧ Same good f g := by
  refine ⟨session_exists hgood turns (ready_reset hgood) hturns, ?_⟩
  intro f outs h
  obtain ⟨hf, hmapped⟩ := session_mapped hgood h (ready_reset hgood) (ready_reset hgood) (fun _ _ => rfl) hturns
  refine ⟨?_, hmapped⟩
  intro job hc ha
  exact unmapped_fails hf.master hf.xbar hc ha

end Sessions

end Fabric

/-! ## The slaves of the interconnect -/

namespace SlaveKind

/-- the slave at a port -/
def atPort : Port → SlaveKind := ![dmem, hyperram, apb, hwRtos, posix, imem]

/-- the three bridges serve everything at once -/
def Bridge (kd : SlaveKind) : Prop := kd = dmem ∨ kd = apb ∨ kd = imem

theorem prompt_bridge (c : Contents) {k : Port} (h : (atPort k).Bridge) :
    Fabric.Prompt ((atPort k).slave c) k ((atPort k).Rest c) := by
  fin_cases k
  · exact Fabric.prompt_bram false c.dmem 0
  · exact absurd h (by simp [atPort, Bridge])
  · exact Fabric.prompt_apb
  · exact absurd h (by simp [atPort, Bridge])
  · exact absurd h (by simp [atPort, Bridge])
  · exact Fabric.prompt_bram true c.imem 5

/-- the environment of a slave with nothing going on -/
def stillEnv : (kd : SlaveKind) → (kd.slave blank).Env
  | dmem => ()
  | hyperram => false
  | apb => ⟨fun _ => 0, fun _ => false⟩
  | hwRtos => ⟨true, 0, 0, 0, false, 0, 0, 0, false, false⟩
  | posix => ⟨0, 0, fun _ => 0, fun _ => 0, fun _ => false, 0, 0⟩
  | imem => ()

def held (c : BusCmd) : Fabric.Job (fun k => (atPort k).slave blank) := fun _ => ⟨c, fun k => (atPort k).stillEnv⟩

/-- an unmapped write between a write and a read of the data memory -/
def strayWrite : List (Fabric.Turn fun k => (atPort k).slave blank) :=
  [.job (held ⟨false, true, 0x00010000, 0xCAFE, 0b1111⟩), .job (held ⟨false, true, 0x90000000, 0xBAD, 0b1111⟩),
    .wait (held ⟨false, false, 0, 0, 0⟩ 0), .job (held ⟨true, false, 0x00010000, 0, 0⟩)]

theorem unmapped_clean_strayWrite :
    (∃ f outs, Fabric.Session Fabric.reset strayWrite f outs) ∧
      ∀ f outs, Fabric.Session Fabric.reset strayWrite f outs →
      (∀ job : Fabric.Job (fun k => (atPort k).slave blank), Fabric.IsCommand (job 0).cmd →
        decode (job 0).cmd.addr = none →
        ∃ n ≤ 4, f.FailsClean job n) ∧
      ∃ g, Fabric.Session Fabric.reset (strayWrite.filter Fabric.Turn.mapped) g (Fabric.mappedAnswers outs) ∧
        Fabric.Same (fun k => (atPort k).Bridge) f g :=
  @Fabric.unmapped_clean _ _ (fun k => (atPort k).Rest blank) (fun _ => prompt_bridge blank) strayWrite (by
    intro t ht
    simp only [strayWrite, List.mem_cons, List.not_mem_nil, or_false] at ht
    rcases ht with rfl | rfl | rfl | rfl
    · exact ⟨.inr rfl, .inr ⟨0, .inl rfl, by decide⟩⟩
    · exact ⟨.inr rfl, .inl (by decide)⟩
    · exact fun h => by rcases h with h | h <;> exact Bool.noConfusion h
    · exact ⟨.inl rfl, .inr ⟨0, .inl rfl, by decide⟩⟩)

end SlaveKind

end Vsync
