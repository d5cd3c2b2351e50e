/-
The master, the interconnect and a slave at each of the six ports.

A transaction involves one port: seen from that port the fabric is the `Bus` of its slave (`step_view`), and at the
other ports nothing is valid (`slaveIn_quiet`). A transaction of an address that no slave has involves none.

- `Aimed`: the transaction in progress, if any, goes to port `k` or to no port.
- `run_view`: a command, seen from its port.
- `Prompt`: what a slave has to do for the results about commands: it serves both kinds of transactions, and between
  them nothing but a valid channel moves it.
-/
import Vsync.Bus.ApbBridge
import Vsync.Bus.Bram

namespace Vsync

open Interconnect (decode)

structure Fabric (sl : Port → BusSlave) where
  master : AxiMaster
  xbar : Interconnect
  slave : ∀ k, (sl k).State

structure FabricIn (sl : Port → BusSlave) where
  cmd : BusCmd
  env : ∀ k, (sl k).Env

namespace Fabric

variable {sl : Port → BusSlave}

def reset : Fabric sl := ⟨AxiMaster.reset, Interconnect.reset, fun k => (sl k).reset⟩

section Step

variable (f : Fabric sl)

def slaveIn (k : Port) : BusRequest := f.xbar.request f.master.request k

def ports (k : Port) : BusResponse := (sl k).out (f.slave k) (f.slaveIn k)

def masterIn : BusResponse := f.xbar.response f.master.request f.ports

def step (i : FabricIn sl) : Fabric sl where
  master := f.master.step i.cmd f.masterIn
  xbar := f.xbar.step f.master.request f.ports
  slave := fun k => (sl k).step (f.slave k) (f.slaveIn k) (i.env k)

def after (ins : ℕ → FabricIn sl) (n : ℕ) : Fabric sl := Machine.trace step f ins n

def view (k : Port) : Bus (sl k) := ⟨f.master, f.xbar, f.slave k⟩

def lines : BusLines := ⟨f.master.addrReg, f.master.wdataReg, f.master.wstrbReg⟩

end Step

def viewIn (k : Port) (i : FabricIn sl) : BusIn (sl k) := ⟨i.cmd, i.env k⟩

/-- the transaction in progress, if any, goes to port `k` or to no port -/
structure Aimed (k : Port) (f : Fabric sl) : Prop where
  addr : f.master.state = .idle ∨ decode f.master.addrReg = some k ∨ decode f.master.addrReg = none
  port : f.xbar.state = .idle ∨ f.xbar.state = .decerrR ∨ f.xbar.state = .decerrB ∨ f.xbar.activeSlave = k

section View

variable {f : Fabric sl} {k : Port}

/-- in a transaction only the port that it goes to answers -/
theorem masterIn_view (h : Aimed k f) : f.masterIn = (f.view k).masterIn k := by
  obtain ⟨haddr, hport⟩ := h
  rcases f with ⟨⟨mstate, addr, _, _, _, _, _, _⟩, ⟨xstate, active, acc⟩, slave⟩
  simp only at haddr hport
  cases xstate with
  | idle =>
    rcases haddr with rfl | ha | ha
    · simp [masterIn, Bus.masterIn, view, Interconnect.response, AxiMaster.request]
    · simp [masterIn, Bus.masterIn, view, ports, Bus.ports, slaveIn, Bus.slaveIn, Interconnect.response,
        AxiMaster.request, ha]
    · simp [masterIn, Bus.masterIn, view, Interconnect.response, AxiMaster.request, ha]
  | decerrR => simp [masterIn, Bus.masterIn, view, Interconnect.response, AxiMaster.request]
  | decerrB => simp [masterIn, Bus.masterIn, view, Interconnect.response, AxiMaster.request]
  | _ =>
    obtain rfl : active = k := by simpa using hport
    simp [masterIn, Bus.masterIn, view, ports, Bus.ports, slaveIn, Bus.slaveIn, Interconnect.response,
      AxiMaster.request]

theorem xbar_view (h : Aimed k f) : f.xbar.step f.master.request f.ports =
    (f.view k).xbar.step (f.view k).master.request ((f.view k).ports k) := by
  obtain ⟨-, hport⟩ := h
  rcases f with ⟨m, ⟨xstate, active, acc⟩, slave⟩
  simp only at hport
  cases xstate with
  | idle => rfl
  | decerrR => rfl
  | decerrB => rfl
  | _ =>
    obtain rfl : active = k := by simpa using hport
    simp [view, ports, Bus.ports, slaveIn, Bus.slaveIn, Interconnect.step, Interconnect.stateNext, Interconnect.awFires]

/-- **Seen from the port that a transaction goes to, the fabric is the bus of that slave.** -/
theorem step_view (h : Aimed k f) (i : FabricIn sl) : (f.step i).view k = (f.view k).step k (viewIn k i) := by
  have hmaster : (f.step i).master = ((f.view k).step k (viewIn k i)).master := by
    change f.master.step i.cmd f.masterIn = f.master.step i.cmd ((f.view k).masterIn k)
    rw [masterIn_view h]
  have hxbar : (f.step i).xbar = ((f.view k).step k (viewIn k i)).xbar := xbar_view h
  change (⟨(f.step i).master, (f.step i).xbar, (f.step i).slave k⟩ : Bus (sl k)) = _
  rw [hmaster, hxbar]
  rfl

/-- at the other ports nothing is valid -/
theorem slaveIn_quiet (h : Aimed k f) (hm : f.master.state ≠ .idle) {j : Port} (hj : j ≠ k) :
    f.slaveIn j = f.lines.quiet := by
  obtain ⟨haddr, hport⟩ := h
  rcases f with ⟨⟨mstate, addr, _, _, _, _, _, _⟩, ⟨xstate, active, acc⟩, slave⟩
  simp only at haddr hport hm
  have hj' : ¬ k = j := fun heq => hj heq.symm
  cases xstate with
  | idle =>
    rcases haddr with rfl | ha | ha
    · exact absurd rfl hm
    · simp [slaveIn, Interconnect.request, AxiMaster.request, lines, Axi.Lines.quiet, ha, hj']
    · simp [slaveIn, Interconnect.request, AxiMaster.request, lines, Axi.Lines.quiet, ha]
  | decerrR => simp [slaveIn, Interconnect.request, AxiMaster.request, lines, Axi.Lines.quiet]
  | decerrB => simp [slaveIn, Interconnect.request, AxiMaster.request, lines, Axi.Lines.quiet]
  | _ =>
    obtain rfl : active = k := by simpa using hport
    simp [slaveIn, Interconnect.request, AxiMaster.request, lines, Axi.Lines.quiet, hj']

/-- between transactions nothing is valid at any port -/
theorem slaveIn_idle (hm : f.master.state = .idle) (hx : f.xbar.state = .idle) (j : Port) :
    f.slaveIn j = f.lines.quiet := by
  simp [slaveIn, Interconnect.request, AxiMaster.request, lines, Axi.Lines.quiet, hm, hx]

theorem Aimed.step (h : Aimed k f) (i : FabricIn sl)
    (hcmd : f.master.state = .idle → decode i.cmd.addr = some k ∨ decode i.cmd.addr = none) : Aimed k (f.step i) := by
  obtain ⟨haddr, hport⟩ := h
  refine ⟨?_, ?_⟩
  · by_cases hm : f.master.state = .idle
    · by_cases hc : i.cmd.read = true ∨ i.cmd.write = true
      · have hreg : (f.step i).master.addrReg = i.cmd.addr := by simp [Fabric.step, AxiMaster.step, hm, hc]
        rw [hreg]
        exact .inr (hcmd hm)
      · have hnone : i.cmd.read = false ∧ i.cmd.write = false := by simpa using hc
        left
        simp [Fabric.step, AxiMaster.step, AxiMaster.stateNext, hm, hnone.1, hnone.2]
    · have hreg : (f.step i).master.addrReg = f.master.addrReg := by simp [Fabric.step, AxiMaster.step, hm]
      rw [hreg]
      exact .inr (haddr.resolve_left hm)
  · change (f.xbar.stateNext f.master.request f.ports) = _ ∨ (f.xbar.stateNext f.master.request f.ports) = _ ∨
      (f.xbar.stateNext f.master.request f.ports) = _ ∨ (f.xbar.step f.master.request f.ports).activeSlave = k
    cases hx : f.xbar.state with
    | idle =>
      -- the port of the address that leaves `ST_IDLE`
      by_cases hm : f.master.state = .idle
      · left
        simp [Interconnect.stateNext, AxiMaster.request, hx, hm]
      · have hara : f.master.request.araddr = f.master.addrReg := rfl
        have hawa : f.master.request.awaddr = f.master.addrReg := rfl
        cases har : f.master.request.arvalid <;> cases haw : f.master.request.awvalid <;>
          rcases haddr.resolve_left hm with ha | ha <;>
          simp [Interconnect.stateNext, Interconnect.step, hx, har, haw, hara, hawa, ha]
    | decerrR =>
      cases hr : f.master.request.rready <;> simp [Interconnect.stateNext, hx, hr]
    | decerrB =>
      cases hb : f.master.request.bready <;> simp [Interconnect.stateNext, hx, hb]
    | _ =>
      have hactive : f.xbar.activeSlave = k := by simpa [hx] using hport
      right
      right
      right
      simp [Interconnect.step, hx, hactive]

/-- a cycle that starts in no transaction aims at every port -/
theorem aimed_idle (hm : f.master.state = .idle) (hx : f.xbar.state = .idle) (k : Port) : Aimed k f :=
  ⟨.inl hm, .inl hx⟩

/-- **A command, seen from its port**, up to the cycle in which the master is idle again -/
theorem run_view (hm : f.master.state = .idle) (hx : f.xbar.state = .idle) (ins : ℕ → FabricIn sl)
    (hcmd : decode (ins 0).cmd.addr = some k ∨ decode (ins 0).cmd.addr = none) (n : ℕ)
    (hbusy : ∀ j, 0 < j → j < n → ((f.view k).after k (fun j => viewIn k (ins j)) j).master.state ≠ .idle) :
    Aimed k (f.after ins n) ∧ (f.after ins n).view k = (f.view k).after k (fun j => viewIn k (ins j)) n := by
  induction n with
  | zero => exact ⟨aimed_idle hm hx k, rfl⟩
  | succ n ih =>
    obtain ⟨haimed, hview⟩ := ih fun j h0 hj => hbusy j h0 (Nat.lt_succ_of_lt hj)
    refine ⟨?_, ?_⟩
    · apply haimed.step
      intro hidle
      cases n with
      | zero => exact hcmd
      | succ n =>
        apply absurd _ (hbusy (n + 1) (Nat.succ_pos n) (Nat.lt_succ_self _))
        rw [← hview]
        exact hidle
    · calc (f.after ins (n + 1)).view k = ((f.after ins n).step (ins n)).view k := rfl
        _ = ((f.after ins n).view k).step k (viewIn k (ins n)) := step_view haimed (ins n)
        _ = (f.view k).after k (fun j => viewIn k (ins j)) (n + 1) := by rw [hview]; rfl

end View

/-! ## Slaves that serve everything -/

/-- the slave at port `k` accepts what it is offered while it rests, serves both kinds of transactions, and is moved by
nothing but a valid channel -/
structure Prompt (sl : BusSlave) (k : Port) (Rest : sl.State → Prop) : Prop where
  contract : Bus.Contract sl k Rest
  reads : sl.ServesReads Rest
  writes : sl.ServesWrites Rest (fun a => decode a = some k)
  still : ∀ s (l : BusLines) e, Rest s → sl.step s l.quiet e = s
  payload : sl.PayloadValid

theorem prompt_bram {w : ℕ} (enWrite : Bool) (mem : BitVec w → Word) (k : Port) :
    Prompt (BramBridge.slave enWrite mem) k BramBridge.Idle where
  contract := BramBridge.contract enWrite mem k
  reads := BramBridge.servesReads enWrite mem
  writes := BramBridge.servesWrites enWrite mem _
  still _ l _ hs := BramBridge.step_quiet l enWrite hs
  payload := by
    refine ⟨?_, ?_⟩
    · intro s q q' h
      change BramBridge.response s q = BramBridge.response s q'
      simp only [BramBridge.response, h.arvalid, h.awvalid]
    · intro s q q' _ h
      change BramBridge.step s q enWrite = BramBridge.step s q' enWrite
      rcases s with ⟨state, a, m, d⟩
      cases state with
      | idle =>
        cases haw : q.awvalid <;> cases har : q.arvalid <;>
          simp [BramBridge.step, BramBridge.stateNext, BramBridge.we, haw, har, ← h.awvalid, ← h.arvalid, h.awaddr,
            h.araddr]
      | writeData =>
        cases hw : q.wvalid with
        | false => simp [BramBridge.step, BramBridge.stateNext, BramBridge.we, hw, ← h.wvalid]
        | true =>
          obtain ⟨hdata, hstrb⟩ := h.wdata hw
          simp [BramBridge.step, BramBridge.stateNext, BramBridge.we, hw, ← h.wvalid, hdata, hstrb]
      | writeResp => simp [BramBridge.step, BramBridge.stateNext, BramBridge.we, h.bready]
      | readWait => simp [BramBridge.step, BramBridge.stateNext, BramBridge.we]
      | readData => simp [BramBridge.step, BramBridge.stateNext, BramBridge.we, h.rready]

theorem prompt_apb : Prompt ApbBridge.slave 2 ApbBridge.Idle where
  contract :=
    { held := ApbBridge.readsHeld
      rests := ApbBridge.rests
      reads := .inl ApbBridge.servesReads
      writes := .inl (ApbBridge.servesWrites _) }
  reads := ApbBridge.servesReads
  writes := ApbBridge.servesWrites _
  still _ l _ hs := ApbBridge.step_quiet l _ hs
  payload := by
    refine ⟨?_, ?_⟩
    · intro s q q' h
      change ApbBridge.response s q = ApbBridge.response s q'
      simp only [ApbBridge.response, h.arvalid, h.awvalid, h.wvalid]
    · intro s q q' e h
      change ApbBridge.step s q _ = ApbBridge.step s q' _
      rcases s with ⟨state, a, d, w, r, er⟩
      cases state with
      | idle =>
        cases har : q.arvalid <;> cases haw : q.awvalid <;> cases hw : q.wvalid <;>
          simp [ApbBridge.step, ApbBridge.stateNext, har, haw, hw, ← h.arvalid, ← h.awvalid, ← h.wvalid, h.araddr,
            h.awaddr, (h.wdata · |>.1)]
      | wrWait =>
        cases hw : q.wvalid with
        | false => simp [ApbBridge.step, ApbBridge.stateNext, hw, ← h.wvalid]
        | true => simp [ApbBridge.step, ApbBridge.stateNext, hw, ← h.wvalid, (h.wdata hw).1]
      | wrResp => simp [ApbBridge.step, ApbBridge.stateNext, h.bready]
      | rdResp => simp [ApbBridge.step, ApbBridge.stateNext, h.rready]
      | setup => rfl
      | access => rfl

end Fabric

end Vsync
