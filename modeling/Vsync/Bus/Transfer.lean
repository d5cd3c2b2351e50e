/-
Transactions of one master with one slave through the interconnect.

The interconnect leaves `ST_IDLE` with the first read address that it sees, and lets a read address through in `ST_IDLE`
only: a slave has one cycle to accept one. It passes a write address on before it passes the write data on.

- `step_idle`, …, `step_done`: what a cycle does, by the states of the master and the interconnect.
- `read_served`, `write_served`: the transactions of a slave that serves them; `read_dropped`, `write_dropped`: of one
  that does not.
- `idle_ready`: in every run, a master in `ST_IDLE` finds the bus ready.
- `read_done`, `write_done`, `read_hangs`, `write_hangs`: the commands, from their acceptance to `cmd_done`.
-/
import Vsync.Bus.Composition

namespace Vsync

/-- the master with the read response -/
def AxiMaster.readDone (m : AxiMaster) (r : BusResponse) : AxiMaster :=
  { m with state := .done, rdataReg := r.rdata, errorReg := r.rresp != 0 }

/-- the master with the write response -/
def AxiMaster.writeDone (m : AxiMaster) (r : BusResponse) : AxiMaster :=
  { m with state := .done, errorReg := r.bresp != 0 }

namespace Bus

open Interconnect (decode)

variable {sl : BusSlave} {k : Port} {b : Bus sl}

/-! ## Cycles -/


section Cycles

variable (i : BusIn sl)

/-- no transaction: the master looks at the command lines -/
theorem step_idle (hm : b.master.state = .idle) (hx : b.xbar.state = .idle) :
    b.step k i = ⟨b.master.step i.cmd openPort, { b.xbar with awAccepted := false },
      sl.step b.slave b.lines.quiet i.env⟩ := by
  have h : b.slaveIn k = b.lines.quiet := slaveIn_quiet hx (by simp [hm])
  simp [step, h, hm, hx, masterIn, AxiMaster.step, AxiMaster.stateNext, AxiMaster.request, Interconnect.step,
    Interconnect.stateNext]

/-- a read address for the slave: the interconnect goes on, whether or not the slave accepts it -/
theorem step_ar (hm : b.master.state = .rdAddr) (hx : b.xbar.state = .idle) (ha : decode b.master.addrReg = some k) :
    b.step k i = ⟨{ b.master with state := if (sl.out b.slave b.lines.ar).arready then .rdData else .rdAddr },
      ⟨.read, k, false⟩, sl.step b.slave b.lines.ar i.env⟩ := by
  have h : b.slaveIn k = b.lines.ar := slaveIn_ar hx hm ha
  simp [step, h, hm, hx, ha, masterIn, AxiMaster.step, AxiMaster.stateNext, AxiMaster.request, AxiMaster.arFires,
    Interconnect.step, Interconnect.stateNext, Interconnect.response]

/-- waiting for the read data -/
theorem step_r_wait (hm : b.master.state = .rdData) (hx : b.xbar.state = .read) (hk : b.xbar.activeSlave = k)
    (hr : (sl.out b.slave b.lines.r).rvalid = false) :
    b.step k i = { b with slave := sl.step b.slave b.lines.r i.env } := by
  have h : b.slaveIn k = b.lines.r := slaveIn_r hx hk hm
  rcases b with ⟨⟨_, _, _, _, _, _, _, _⟩, ⟨_, _, _⟩, s⟩
  simp only at hm hx hk
  subst hm hx hk
  simp [step, h, hr, masterIn, AxiMaster.step, AxiMaster.stateNext, AxiMaster.request, AxiMaster.rFires,
    Interconnect.step, Interconnect.stateNext, Interconnect.response]

theorem step_r (hm : b.master.state = .rdData) (hx : b.xbar.state = .read) (hk : b.xbar.activeSlave = k)
    (hr : (sl.out b.slave b.lines.r).rvalid = true) :
    b.step k i = ⟨b.master.readDone (sl.out b.slave b.lines.r), { b.xbar with state := .idle },
      sl.step b.slave b.lines.r i.env⟩ := by
  have h : b.slaveIn k = b.lines.r := slaveIn_r hx hk hm
  simp [step, h, hm, hx, hk, hr, masterIn, AxiMaster.readDone, AxiMaster.step, AxiMaster.stateNext, AxiMaster.request,
    AxiMaster.rFires, Interconnect.step, Interconnect.stateNext, Interconnect.response]

/-- a write address: the interconnect takes a cycle before it passes it on -/
theorem step_wr (hm : b.master.state = .wrAddr) (hx : b.xbar.state = .idle) (ha : decode b.master.addrReg = some k)
    (hd : b.master.awDone = false) (hw : b.master.wDone = false) :
    b.step k i = ⟨b.master, ⟨.writeAw, k, false⟩, sl.step b.slave b.lines.quiet i.env⟩ := by
  have h : b.slaveIn k = b.lines.quiet := slaveIn_quiet hx (by simp [hm])
  rcases b with ⟨⟨_, _, _, _, _, _, _, _⟩, ⟨_, _, _⟩, s⟩
  simp only at hm hx ha hd hw
  subst hm hx hd hw
  simp [step, h, ha, masterIn, AxiMaster.step, AxiMaster.stateNext, AxiMaster.request, AxiMaster.awFires,
    AxiMaster.wFires, Interconnect.step, Interconnect.stateNext, Interconnect.response]

/-- waiting for the address to be accepted -/
theorem step_aw_wait (hm : b.master.state = .wrAddr) (hd : b.master.awDone = false) (hw : b.master.wDone = false)
    (hx : b.xbar.state = .writeAw) (hk : b.xbar.activeSlave = k) (hc : b.xbar.awAccepted = false)
    (hr : (sl.out b.slave b.lines.aw).awready = false) :
    b.step k i = { b with slave := sl.step b.slave b.lines.aw i.env } := by
  have h : b.slaveIn k = b.lines.aw := slaveIn_aw hx hk hc
  rcases b with ⟨⟨_, _, _, _, _, _, _, _⟩, ⟨_, _, _⟩, s⟩
  simp only at hm hd hw hx hk hc
  subst hm hd hw hx hk hc
  simp [step, h, hr, masterIn, AxiMaster.step, AxiMaster.stateNext, AxiMaster.request, AxiMaster.awFires,
    AxiMaster.wFires, Interconnect.step, Interconnect.stateNext, Interconnect.response, Interconnect.request,
      Interconnect.awFires]

theorem step_aw (hm : b.master.state = .wrAddr) (hd : b.master.awDone = false) (hw : b.master.wDone = false)
    (hx : b.xbar.state = .writeAw) (hk : b.xbar.activeSlave = k) (hc : b.xbar.awAccepted = false)
    (hr : (sl.out b.slave b.lines.aw).awready = true) :
    b.step k i = ⟨{ b.master with state := .wrData, awDone := true }, ⟨.writeW, k, true⟩,
      sl.step b.slave b.lines.aw i.env⟩ := by
  have h : b.slaveIn k = b.lines.aw := slaveIn_aw hx hk hc
  simp [step, h, hm, hd, hw, hx, hk, hc, hr, masterIn, AxiMaster.step, AxiMaster.stateNext, AxiMaster.request,
    AxiMaster.awFires, AxiMaster.wFires, Interconnect.step, Interconnect.stateNext, Interconnect.response,
    Interconnect.request, Interconnect.awFires]

/-- waiting for the data to be accepted -/
theorem step_w_wait (hm : b.master.state = .wrData) (hx : b.xbar.state = .writeW) (hk : b.xbar.activeSlave = k)
    (hr : (sl.out b.slave b.lines.w).wready = false) :
    b.step k i = { b with slave := sl.step b.slave b.lines.w i.env } := by
  have h : b.slaveIn k = b.lines.w := slaveIn_w hx hk hm
  rcases b with ⟨⟨_, _, _, _, _, _, _, _⟩, ⟨_, _, _⟩, s⟩
  simp only at hm hx hk
  subst hm hx hk
  simp [step, h, hr, masterIn, AxiMaster.step, AxiMaster.stateNext, AxiMaster.request, AxiMaster.wFires,
    Interconnect.step, Interconnect.stateNext, Interconnect.response, Interconnect.request]

theorem step_w (hm : b.master.state = .wrData) (hx : b.xbar.state = .writeW) (hk : b.xbar.activeSlave = k)
    (hr : (sl.out b.slave b.lines.w).wready = true) :
    b.step k i = ⟨{ b.master with state := .wrResp }, { b.xbar with state := .writeB },
      sl.step b.slave b.lines.w i.env⟩ := by
  have h : b.slaveIn k = b.lines.w := slaveIn_w hx hk hm
  simp [step, h, hm, hx, hk, hr, masterIn, AxiMaster.step, AxiMaster.stateNext, AxiMaster.request, AxiMaster.wFires,
    Interconnect.step, Interconnect.stateNext, Interconnect.response, Interconnect.request]

theorem step_b_wait (hm : b.master.state = .wrResp) (hx : b.xbar.state = .writeB) (hk : b.xbar.activeSlave = k)
    (hr : (sl.out b.slave b.lines.b).bvalid = false) :
    b.step k i = { b with slave := sl.step b.slave b.lines.b i.env } := by
  have h : b.slaveIn k = b.lines.b := slaveIn_b hx hk hm
  rcases b with ⟨⟨_, _, _, _, _, _, _, _⟩, ⟨_, _, _⟩, s⟩
  simp only at hm hx hk
  subst hm hx hk
  simp [step, h, hr, masterIn, AxiMaster.step, AxiMaster.stateNext, AxiMaster.request, AxiMaster.bFires,
    Interconnect.step, Interconnect.stateNext, Interconnect.response]

theorem step_b (hm : b.master.state = .wrResp) (hx : b.xbar.state = .writeB) (hk : b.xbar.activeSlave = k)
    (hr : (sl.out b.slave b.lines.b).bvalid = true) :
    b.step k i = ⟨b.master.writeDone (sl.out b.slave b.lines.b), { b.xbar with state := .idle },
      sl.step b.slave b.lines.b i.env⟩ := by
  have h : b.slaveIn k = b.lines.b := slaveIn_b hx hk hm
  simp [step, h, hm, hx, hk, hr, masterIn, AxiMaster.writeDone, AxiMaster.step, AxiMaster.stateNext, AxiMaster.request,
    AxiMaster.bFires, Interconnect.step, Interconnect.stateNext, Interconnect.response]

theorem step_done (hm : b.master.state = .done) (hx : b.xbar.state = .idle) :
    b.step k i = ⟨{ b.master with state := .idle, awDone := false, wDone := false },
      { b.xbar with awAccepted := false }, sl.step b.slave b.lines.quiet i.env⟩ := by
  have h : b.slaveIn k = b.lines.quiet := slaveIn_quiet hx (by simp [hm])
  simp [step, h, hm, hx, masterIn, AxiMaster.step, AxiMaster.stateNext, AxiMaster.request, Interconnect.step,
    Interconnect.stateNext]

/-- an address that no slave has -/
theorem step_ar_none (hm : b.master.state = .rdAddr) (hx : b.xbar.state = .idle) (ha : decode b.master.addrReg = none) :
    b.step k i = ⟨{ b.master with state := .rdData }, ⟨.decerrR, 0, false⟩, sl.step b.slave b.lines.quiet i.env⟩ := by
  have h : b.slaveIn k = b.lines.quiet := slaveIn_elsewhere hx (by simp [ha])
  simp [step, h, hm, hx, ha, masterIn, AxiMaster.step, AxiMaster.stateNext, AxiMaster.request, AxiMaster.arFires,
    Interconnect.step, Interconnect.stateNext, Interconnect.response]

theorem step_decerrR (hm : b.master.state = .rdData) (hx : b.xbar.state = .decerrR) :
    b.step k i = ⟨{ b.master with state := .done, rdataReg := 0, errorReg := true }, { b.xbar with state := .idle },
      sl.step b.slave b.lines.quiet i.env⟩ := by
  have h : b.slaveIn k = b.lines.quiet := by
    simp [slaveIn, Interconnect.request, hx, lines, Axi.Lines.quiet, AxiMaster.request]
  simp [step, h, hm, hx, masterIn, AxiMaster.step, AxiMaster.stateNext, AxiMaster.request, AxiMaster.rFires,
    Interconnect.step, Interconnect.stateNext, Interconnect.response, AXI_RESP_DECERR]

theorem step_aw_none (hm : b.master.state = .wrAddr) (hd : b.master.awDone = false) (hw : b.master.wDone = false)
    (hx : b.xbar.state = .idle) (ha : decode b.master.addrReg = none) :
    b.step k i = ⟨{ b.master with state := .wrData, awDone := true }, ⟨.decerrB, 0, false⟩,
      sl.step b.slave b.lines.quiet i.env⟩ := by
  have h : b.slaveIn k = b.lines.quiet := slaveIn_elsewhere hx (by simp [ha])
  simp [step, h, hm, hd, hw, hx, ha, masterIn, AxiMaster.step, AxiMaster.stateNext, AxiMaster.request,
    AxiMaster.awFires, AxiMaster.wFires, Interconnect.step, Interconnect.stateNext, Interconnect.response]

theorem step_w_none (hm : b.master.state = .wrData) (hx : b.xbar.state = .decerrB) :
    b.step k i = ⟨{ b.master with state := .wrResp }, b.xbar, sl.step b.slave b.lines.quiet i.env⟩ := by
  have h : b.slaveIn k = b.lines.quiet := by
    simp [slaveIn, Interconnect.request, hx, lines, Axi.Lines.quiet, AxiMaster.request]
  rcases b with ⟨_, ⟨_, _, _⟩, s⟩
  simp only at hm hx
  subst hx
  simp [step, h, hm, masterIn, AxiMaster.step, AxiMaster.stateNext, AxiMaster.request, AxiMaster.wFires,
    Interconnect.step, Interconnect.stateNext, Interconnect.response]

theorem step_decerrB (hm : b.master.state = .wrResp) (hx : b.xbar.state = .decerrB) :
    b.step k i = ⟨{ b.master with state := .done, errorReg := true }, { b.xbar with state := .idle },
      sl.step b.slave b.lines.quiet i.env⟩ := by
  have h : b.slaveIn k = b.lines.quiet := by
    simp [slaveIn, Interconnect.request, hx, lines, Axi.Lines.quiet, AxiMaster.request]
  simp [step, h, hm, hx, masterIn, AxiMaster.step, AxiMaster.stateNext, AxiMaster.request, AxiMaster.bFires,
    Interconnect.step, Interconnect.stateNext, Interconnect.response, AXI_RESP_DECERR]

end Cycles

/-! ## Transactions -/

/-- the end of a transaction: the master is done, the interconnect idle, the slave rests -/
structure Finished (Rest : sl.State → Prop) (b : Bus sl) : Prop where
  master : b.master.state = .done
  xbar : b.xbar.state = .idle
  slave : Rest b.slave

section Transactions

variable {Q : List SlaveEvent → Bus sl → Prop} {Rest : sl.State → Prop} {i : BusIn sl}

theorem ends_step (hb : b.settled = false) {req : BusRequest} (hreq : b.slaveIn k = req)
    (hquiet : ∀ e, sl.access b.slave req e = []) (hr : req.rready = false)
    (h : ∀ i, Ends k Q (b.step k i)) : Ends k Q b := by
  refine Machine.reaches_silent hb (fun i => ?_) h
  simp [events_of hreq, hquiet, hr]

theorem ends_here (hb : Finished Rest b) (hq : Q [] b) : Ends k Q b :=
  Machine.reaches_here (by simp [settled, hb.master]) hq

theorem ends_read (hm : b.master.state = .rdData) (hx : b.xbar.state = .read) (hk : b.xbar.activeSlave = k)
    (hU : sl.Until b.lines.r (·.rvalid) (fun acc s => acc = [.read b.lines.addr (sl.out s b.lines.r).rdata] ∧
      ∀ e, sl.access s b.lines.r e = [] ∧ Rest (sl.step s b.lines.r e)) b.slave) :
    Ends k (fun l b' => Finished Rest b' ∧
      l = [.access (.read b.master.addrReg b'.master.cmdRdata), .reply b'.master.cmdRdata]) b := by
  have hb : b.settled = false := by simp [settled, hm]
  refine phase hb (fun s => slaveIn_r hx hk hm) (fun s i h => step_r_wait i hm hx hk h) (fun s h => ?_) ?_
  · simp [h]
  · refine Machine.reaches_mono hU fun acc s hv hacc => ?_
    obtain ⟨rfl, hlast⟩ := hacc
    refine Machine.reaches_later hb fun i => ?_
    obtain ⟨hnone, hrest⟩ := hlast i.env
    have hin : slaveIn k ({ b with slave := s } : Bus sl) = b.lines.r := slaveIn_r hx hk hm
    have hstep : step k ({ b with slave := s } : Bus sl) i =
        ⟨b.master.readDone (sl.out s b.lines.r), { b.xbar with state := .idle }, sl.step s b.lines.r i.env⟩ :=
      step_r i hm hx hk hv
    rw [hstep, events_of hin, hnone, hv]
    exact ends_here ⟨rfl, rfl, hrest⟩ ⟨⟨rfl, rfl, hrest⟩, rfl⟩

/-- **A read of a slave that serves reads**: one access, one response, and the master gets what was read. -/
theorem read_served (hS : sl.ServesReads Rest) (hm : b.master.state = .rdAddr) (hx : b.xbar.state = .idle)
    (hs : Rest b.slave) (ha : decode b.master.addrReg = some k) : Ends k (fun l b' => Finished Rest b' ∧
      l = [.access (.read b.master.addrReg b'.master.cmdRdata), .reply b'.master.cmdRdata]) b := by
  have hb : b.settled = false := by simp [settled, hm]
  refine ends_step hb (slaveIn_ar hx hm ha) (fun e => (hS b.slave b.lines e hs).2.1) rfl fun i => ?_
  obtain ⟨hready, -, huntil⟩ := hS b.slave b.lines i.env hs
  rw [step_ar i hm hx ha, hready]
  exact ends_read rfl rfl rfl huntil

theorem ends_b {pre W : List BusAccess} (hm : b.master.state = .wrResp) (hx : b.xbar.state = .writeB)
    (hk : b.xbar.activeSlave = k)
    (hU : sl.Until b.lines.b (·.bvalid) (fun acc s => ∀ e, pre ++ acc = W ∧ sl.access s b.lines.b e = [] ∧
      Rest (sl.step s b.lines.b e)) b.slave) :
    Ends k (fun l b' => Finished Rest b' ∧ pre.map .access ++ l = W.map .access) b := by
  have hb : b.settled = false := by simp [settled, hm]
  refine phase hb (fun s => slaveIn_b hx hk hm) (fun s i h => step_b_wait i hm hx hk h) (fun s h => ?_) ?_
  · simp
  · refine Machine.reaches_mono hU fun acc s hv hlast => ?_
    refine Machine.reaches_later hb fun i => ?_
    obtain ⟨hacc, hnone, hrest⟩ := hlast i.env
    have hin : slaveIn k ({ b with slave := s } : Bus sl) = b.lines.b := slaveIn_b hx hk hm
    have hstep : step k ({ b with slave := s } : Bus sl) i =
        ⟨b.master.writeDone (sl.out s b.lines.b), { b.xbar with state := .idle }, sl.step s b.lines.b i.env⟩ :=
      step_b i hm hx hk hv
    rw [hstep, events_of hin, hnone]
    refine ends_here ⟨rfl, rfl, hrest⟩ ⟨⟨rfl, rfl, hrest⟩, ?_⟩
    simp [← hacc]

theorem ends_w {W : List BusAccess} (hm : b.master.state = .wrData) (hx : b.xbar.state = .writeW)
    (hk : b.xbar.activeSlave = k)
    (hU : sl.Until b.lines.w (·.wready) (fun acc₂ s₂ => ∀ e₂,
      sl.Until b.lines.b (·.bvalid) (fun acc₃ s₃ => ∀ e₃, acc₂ ++ sl.access s₂ b.lines.w e₂ ++ acc₃ = W ∧
        sl.access s₃ b.lines.b e₃ = [] ∧ Rest (sl.step s₃ b.lines.b e₃)) (sl.step s₂ b.lines.w e₂)) b.slave) :
    Ends k (fun l b' => Finished Rest b' ∧ l = W.map .access) b := by
  have hb : b.settled = false := by simp [settled, hm]
  refine phase hb (fun s => slaveIn_w hx hk hm) (fun s i h => step_w_wait i hm hx hk h) (fun s h => ?_) ?_
  · simp
  · refine Machine.reaches_mono hU fun acc s hv hlast => ?_
    refine Machine.reaches_later hb fun i => ?_
    have hin : slaveIn k ({ b with slave := s } : Bus sl) = b.lines.w := slaveIn_w hx hk hm
    have hstep : step k ({ b with slave := s } : Bus sl) i =
        ⟨{ b.master with state := .wrResp }, { b.xbar with state := .writeB }, sl.step s b.lines.w i.env⟩ :=
      step_w i hm hx hk hv
    rw [hstep, events_of hin]
    refine Machine.reaches_mono (ends_b rfl rfl hk (hlast i.env)) fun l b' _ hend => ?_
    refine ⟨hend.1, ?_⟩
    simpa using hend.2

theorem ends_aw {W : List BusAccess} (hm : b.master.state = .wrAddr) (hd : b.master.awDone = false)
    (hw : b.master.wDone = false) (hx : b.xbar.state = .writeAw) (hk : b.xbar.activeSlave = k)
    (hc : b.xbar.awAccepted = false)
    (hU : sl.Until b.lines.aw (·.awready) (fun acc₁ s₁ => ∀ e₁, acc₁ = [] ∧ sl.access s₁ b.lines.aw e₁ = [] ∧
      sl.Until b.lines.w (·.wready) (fun acc₂ s₂ => ∀ e₂,
        sl.Until b.lines.b (·.bvalid) (fun acc₃ s₃ => ∀ e₃, acc₂ ++ sl.access s₂ b.lines.w e₂ ++ acc₃ = W ∧
          sl.access s₃ b.lines.b e₃ = [] ∧ Rest (sl.step s₃ b.lines.b e₃)) (sl.step s₂ b.lines.w e₂))
      (sl.step s₁ b.lines.aw e₁)) b.slave) :
    Ends k (fun l b' => Finished Rest b' ∧ l = W.map .access) b := by
  have hb : b.settled = false := by simp [settled, hm]
  refine phase hb (fun s => slaveIn_aw hx hk hc) (fun s i h => step_aw_wait i hm hd hw hx hk hc h) (fun s h => ?_) ?_
  · simp
  · refine Machine.reaches_mono hU fun acc s hv hlast => ?_
    refine Machine.reaches_later hb fun i => ?_
    obtain ⟨rfl, hnone, huntil⟩ := hlast i.env
    have hin : slaveIn k ({ b with slave := s } : Bus sl) = b.lines.aw := slaveIn_aw hx hk hc
    have hstep : step k ({ b with slave := s } : Bus sl) i =
        ⟨{ b.master with state := .wrData, awDone := true }, ⟨.writeW, k, true⟩, sl.step s b.lines.aw i.env⟩ :=
      step_aw i hm hd hw hx hk hc hv
    rw [hstep, events_of hin, hnone]
    refine Machine.reaches_mono (ends_w rfl rfl rfl huntil) fun l b' _ hend => ?_
    refine ⟨hend.1, ?_⟩
    simpa using hend.2

/-- **A write of a slave that serves writes**: one access. -/
theorem write_served {mine : Word → Prop} (hS : sl.ServesWrites Rest mine) (hR : sl.Rests Rest)
    (hm : b.master.state = .wrAddr) (hd : b.master.awDone = false) (hw : b.master.wDone = false)
    (hx : b.xbar.state = .idle) (hs : Rest b.slave) (ha : decode b.master.addrReg = some k)
    (hmine : mine b.master.addrReg) :
    Ends k (fun l b' => Finished Rest b' ∧ l = [.access (sl.writeOf b.lines)]) b := by
  have hb : b.settled = false := by simp [settled, hm]
  have hin : b.slaveIn k = b.lines.quiet := slaveIn_quiet hx (by simp [hm])
  refine ends_step hb hin (fun e => hR.silent b.slave b.lines e hs) rfl fun i => ?_
  have hrest : Rest (sl.step b.slave b.lines.quiet i.env) := hR.stays b.slave b.lines i.env hs
  rw [step_wr i hm hx ha hd hw]
  exact ends_aw (b := ⟨b.master, ⟨.writeAw, k, false⟩, _⟩) hm hd hw rfl rfl rfl (hS _ b.lines hmine hrest)

/-! ## Transactions that do not complete -/

/-- the transaction of `b` gets to no end -/
def Hangs (k : Port) (b : Bus sl) : Prop := Machine.Avoids (step k) settled b

/-- the master waits for a read address to be accepted, and the interconnect has gone on -/
structure ReadStuck (b : Bus sl) : Prop where
  master : b.master.state = .rdAddr
  xbar : b.xbar.state = .read

theorem readStuck_step (h : ReadStuck b) (i : BusIn sl) : ReadStuck (b.step k i) := by
  refine ⟨?_, ?_⟩
  · simp [step, AxiMaster.step, AxiMaster.stateNext, h.master, AxiMaster.arFires, masterIn, Interconnect.response,
      h.xbar]
  · simp [step, Interconnect.step, Interconnect.stateNext, h.xbar, AxiMaster.request, h.master]

/-- a read address that no slave accepts at once -/
theorem read_stuck (hm : b.master.state = .rdAddr) (hx : b.xbar.state = .idle) {j : Port}
    (ha : decode b.master.addrReg = some j) (hr : (b.ports k j).arready = false) (i : BusIn sl) :
    ReadStuck (b.step k i) := by
  refine ⟨?_, ?_⟩
  · simp [step, AxiMaster.step, AxiMaster.stateNext, AxiMaster.request, hm, AxiMaster.arFires, masterIn,
      Interconnect.response, hx, ha, hr]
  · simp [step, Interconnect.step, Interconnect.stateNext, hm, hx, ha, AxiMaster.request]

/-- the write address waits at a port that is open -/
structure WriteStuck (k : Port) (b : Bus sl) : Prop where
  master : b.master.state = .wrAddr
  awDone : b.master.awDone = false
  wDone : b.master.wDone = false
  xbar : b.xbar.state = .writeAw
  port : b.xbar.activeSlave ≠ k
  awAccepted : b.xbar.awAccepted = false

theorem writeStuck_step (h : WriteStuck k b) (i : BusIn sl) : WriteStuck k (b.step k i) := by
  obtain ⟨hm, hd, hw, hx, hk, hc⟩ := h
  have hport : b.ports k b.xbar.activeSlave = openPort := ports_other hk
  refine ⟨?_, ?_, ?_, ?_, ?_, ?_⟩ <;>
    simp [step, AxiMaster.step, AxiMaster.stateNext, AxiMaster.request, AxiMaster.awFires, AxiMaster.wFires, masterIn,
      Interconnect.step, Interconnect.stateNext, Interconnect.response, Interconnect.awFires, hm, hd, hw, hx, hk, hc,
        hport,
      openPort]

theorem write_stuck (hm : b.master.state = .wrAddr) (hd : b.master.awDone = false) (hw : b.master.wDone = false)
    (hx : b.xbar.state = .idle) {j : Port} (ha : decode b.master.addrReg = some j) (hj : j ≠ k) (i : BusIn sl) :
    WriteStuck k (b.step k i) := by
  refine ⟨?_, ?_, ?_, ?_, ?_, ?_⟩ <;>
    simp [step, AxiMaster.step, AxiMaster.stateNext, AxiMaster.request, AxiMaster.awFires, AxiMaster.wFires, masterIn,
      Interconnect.step, Interconnect.stateNext, Interconnect.response, hm, hd, hw, hx, ha, hj]

theorem hangs_of_readStuck (h : ReadStuck b) : Hangs k b :=
  Machine.avoids_of_inv h (fun _ i hs => readStuck_step hs i) fun _ hs => by simp [settled, hs.master]

theorem hangs_of_writeStuck (h : WriteStuck k b) : Hangs k b :=
  Machine.avoids_of_inv h (fun _ i hs => writeStuck_step hs i) fun _ hs => by simp [settled, hs.master]

/-- **A read of a slave that drops reads** gets to no end. -/
theorem read_dropped (hS : sl.DropsReads Rest) (hm : b.master.state = .rdAddr) (hx : b.xbar.state = .idle)
    (hs : Rest b.slave) (ha : decode b.master.addrReg = some k) : Hangs k b := by
  have hready : (b.ports k k).arready = false := by
    rw [ports_self, slaveIn_ar hx hm ha]
    exact hS b.slave b.lines hs
  exact Machine.avoids_later (by simp [settled, hm]) fun i => hangs_of_readStuck (read_stuck hm hx ha hready i)

/-- nor does a read at an open port -/
theorem read_open (hm : b.master.state = .rdAddr) (hx : b.xbar.state = .idle) {j : Port}
    (ha : decode b.master.addrReg = some j) (hj : j ≠ k) : Hangs k b := by
  have hready : (b.ports k j).arready = false := by
    rw [ports_other hj]
    rfl
  exact Machine.avoids_later (by simp [settled, hm]) fun i => hangs_of_readStuck (read_stuck hm hx ha hready i)

theorem write_open (hm : b.master.state = .wrAddr) (hd : b.master.awDone = false) (hw : b.master.wDone = false)
    (hx : b.xbar.state = .idle) {j : Port} (ha : decode b.master.addrReg = some j) (hj : j ≠ k) : Hangs k b :=
  Machine.avoids_later (by simp [settled, hm]) fun i => hangs_of_writeStuck (write_stuck hm hd hw hx ha hj i)

/-- the data phase of a write whose data is not accepted -/
theorem hangs_w (hm : b.master.state = .wrData) (hx : b.xbar.state = .writeW) (hk : b.xbar.activeSlave = k)
    (hN : sl.Never b.lines.w (·.wready) b.slave) : Hangs k b :=
  Machine.avoids_part (fun s => ({ b with slave := s } : Bus sl)) BusIn.env (fun s i h => step_w_wait i hm hx hk h)
    (fun s _ => by simp [settled, hm]) hN

/-- **A write of a slave that drops writes** gets to no end. -/
theorem write_dropped (hS : sl.DropsWrites Rest) (hR : sl.Rests Rest) (hm : b.master.state = .wrAddr)
    (hd : b.master.awDone = false) (hw : b.master.wDone = false) (hx : b.xbar.state = .idle) (hs : Rest b.slave)
    (ha : decode b.master.addrReg = some k) : Hangs k b := by
  have hb : b.settled = false := by simp [settled, hm]
  refine Machine.avoids_later hb fun i => ?_
  have hrest : Rest (sl.step b.slave b.lines.quiet i.env) := hR.stays b.slave b.lines i.env hs
  rw [step_wr i hm hx ha hd hw]
  -- the address phase
  have haw : sl.Until b.lines.aw (·.awready)
      (fun _ s => Hangs k (⟨b.master, ⟨.writeAw, k, false⟩, s⟩ : Bus sl)) (sl.step b.slave b.lines.quiet i.env) := by
    refine Machine.reaches_mono (hS _ b.lines hrest) fun _ s hv hnever => ?_
    refine Machine.avoids_later hb fun i₁ => ?_
    have hstep : step k (⟨b.master, ⟨.writeAw, k, false⟩, s⟩ : Bus sl) i₁ =
        ⟨{ b.master with state := .wrData, awDone := true }, ⟨.writeW, k, true⟩, sl.step s b.lines.aw i₁.env⟩ :=
      step_aw i₁ hm hd hw rfl rfl rfl hv
    rw [hstep]
    exact hangs_w rfl rfl rfl (hnever i₁.env)
  exact Machine.avoids_part_of_reaches (fun s => (⟨b.master, ⟨.writeAw, k, false⟩, s⟩ : Bus sl)) BusIn.env
    (fun s i₁ h => ⟨hb, step_aw_wait i₁ hm hd hw rfl rfl rfl h⟩) haw

/-! ## Addresses that no slave has -/

theorem read_decerr (hR : sl.Rests Rest) (hm : b.master.state = .rdAddr) (hx : b.xbar.state = .idle) (hs : Rest b.slave)
    (ha : decode b.master.addrReg = none) : Ends k (fun _ b' => Finished Rest b') b := by
  refine Machine.reaches_later (by simp [settled, hm]) fun i => ?_
  rw [step_ar_none i hm hx ha]
  refine Machine.reaches_later rfl fun i₁ => ?_
  rw [step_decerrR i₁ rfl rfl]
  have hrest := hR.stays _ b.lines i₁.env (hR.stays b.slave b.lines i.env hs)
  exact Machine.reaches_here rfl ⟨rfl, rfl, hrest⟩

theorem write_decerr (hR : sl.Rests Rest) (hm : b.master.state = .wrAddr) (hd : b.master.awDone = false)
    (hw : b.master.wDone = false) (hx : b.xbar.state = .idle) (hs : Rest b.slave)
    (ha : decode b.master.addrReg = none) :
    Ends k (fun _ b' => Finished Rest b') b := by
  refine Machine.reaches_later (by simp [settled, hm]) fun i => ?_
  rw [step_aw_none i hm hd hw hx ha]
  refine Machine.reaches_later rfl fun i₁ => ?_
  rw [step_w_none i₁ rfl rfl]
  refine Machine.reaches_later rfl fun i₂ => ?_
  rw [step_decerrB i₂ rfl rfl]
  have hrest := hR.stays _ b.lines i₂.env (hR.stays _ b.lines i₁.env (hR.stays b.slave b.lines i.env hs))
  exact Machine.reaches_here rfl ⟨rfl, rfl, hrest⟩

end Transactions

/-! ## Runs -/

/-- what a slave at port `k` does with every transaction -/
structure Contract (sl : BusSlave) (k : Port) (Rest : sl.State → Prop) : Prop where
  held : sl.ReadsHeld
  rests : sl.Rests Rest
  reads : sl.ServesReads Rest ∨ sl.DropsReads Rest
  writes : sl.ServesWrites Rest (fun a => decode a = some k) ∨ sl.DropsWrites Rest

section Runs

variable {Rest : sl.State → Prop} (hC : Contract sl k Rest)

/-- the cycle in which the master looks at a command -/
theorem accepting (hR : sl.Rests Rest) (hb : Ready Rest b) (i : BusIn sl) :
    (b.step k i).master = b.master.step i.cmd openPort ∧ (b.step k i).xbar.state = .idle ∧ Rest (b.step k i).slave := by
  rw [step_idle i hb.master hb.xbar]
  exact ⟨rfl, hb.xbar, hR.stays b.slave b.lines i.env hb.slave⟩

theorem ready_of_finished (hR : sl.Rests Rest) (hb : Finished Rest b) (i : BusIn sl) : Ready Rest (b.step k i) := by
  rw [step_done i hb.master hb.xbar]
  exact ⟨rfl, hb.xbar, hR.stays b.slave b.lines i.env hb.slave⟩

/-- **What follows on a command**: its transaction gets to an end in which the slave rests, or to no end. -/
theorem command_cases (hC : Contract sl k Rest) (hb : Ready Rest b) (i : BusIn sl) :
    Ready Rest (b.step k i) ∨ Ends k (fun _ b' => Finished Rest b') (b.step k i) ∨ Hangs k (b.step k i) := by
  obtain ⟨hm, hx, hs⟩ := accepting hC.rests hb i
  obtain ⟨b', hb'⟩ : ∃ b', b' = b.step k i := ⟨_, rfl⟩
  rw [← hb'] at hm hx hs ⊢
  by_cases hread : i.cmd.read = true
  · have hstate : b'.master.state = .rdAddr := by rw [hm, AxiMaster.step_read hb.master hread]
    rcases ha : decode b'.master.addrReg with _ | j
    · exact .inr (.inl (read_decerr hC.rests hstate hx hs ha))
    · by_cases hj : j = k
      · subst hj
        rcases hC.reads with hserves | hdrops
        · exact .inr (.inl (Machine.reaches_mono (read_served hserves hstate hx hs ha) fun _ _ _ h => h.1))
        · exact .inr (.inr (read_dropped hdrops hstate hx hs ha))
      · exact .inr (.inr (read_open hstate hx ha hj))
  · by_cases hwrite : i.cmd.write = true
    · have hstep := AxiMaster.step_write hb.master (by simpa using hread) hwrite openPort
      have hstate : b'.master.state = .wrAddr := by rw [hm, hstep]
      have hd : b'.master.awDone = false := by rw [hm, hstep]
      have hw : b'.master.wDone = false := by rw [hm, hstep]
      rcases ha : decode b'.master.addrReg with _ | j
      · exact .inr (.inl (write_decerr hC.rests hstate hd hw hx hs ha))
      · by_cases hj : j = k
        · subst hj
          rcases hC.writes with hserves | hdrops
          · exact .inr (.inl (Machine.reaches_mono
              (write_served hserves hC.rests hstate hd hw hx hs ha ha) fun _ _ _ h => h.1))
          · exact .inr (.inr (write_dropped hdrops hC.rests hstate hd hw hx hs ha))
        · exact .inr (.inr (write_open hstate hd hw hx ha hj))
    · have hstate : b'.master.state = .idle := by
        rw [hm, AxiMaster.step_none hb.master (by simpa using hread) (by simpa using hwrite)]
      exact .inl ⟨hstate, hx, hs⟩

/-- **In every run from reset, a master in `ST_IDLE` finds the bus ready.** -/
theorem idle_ready (hC : Contract sl k Rest) (ins : ℕ → BusIn sl) (n : ℕ)
    (hn : (stateAt k ins n).master.state = .idle) :
    Ready Rest (stateAt k ins n) := by
  refine Machine.trace_visits (step k) reset ins (P := Ready Rest) (Q := fun b => b.master.state = .idle)
    ⟨rfl, rfl, hC.rests.reset⟩ (fun n hready => ?_) n hn
  have hshift (j : ℕ) :
      Machine.trace (step k) (step k (Machine.trace (step k) reset ins n) (ins n)) (fun j => ins (n + 1 + j)) j =
        Machine.trace (step k) reset ins (n + 1 + j) := (Machine.trace_add (step k) reset ins (n + 1) j).symm
  rcases command_cases hC hready (ins n) with hnone | hends | hhangs
  · exact .inr ⟨n + 1, by omega, hnone, fun j h1 h2 => by omega⟩
  · -- the transaction ends in cycle `n + 1 + m`
    obtain ⟨m, hbusy, -, hfinished⟩ := hends fun j => ins (n + 1 + j)
    rw [hshift] at hfinished
    refine .inr ⟨n + 1 + m + 1, by omega, ready_of_finished hC.rests hfinished _, fun j h1 h2 hidle => ?_⟩
    rcases Nat.eq_or_lt_of_le (show j ≤ n + 1 + m by omega) with rfl | hlt
    · rw [hfinished.master] at hidle
      cases hidle
    · have hnot := hbusy (j - (n + 1)) (by omega)
      rw [hshift, show n + 1 + (j - (n + 1)) = j by omega] at hnot
      simp [settled, hidle] at hnot
  · refine .inl fun j hj hidle => ?_
    have hnot := hhangs (fun j => ins (n + 1 + j)) (j - (n + 1))
    rw [hshift, show n + 1 + (j - (n + 1)) = j by omega] at hnot
    simp [settled, hidle] at hnot

/-! ## Commands -/

/-- outside of transactions the slave does nothing -/
theorem events_rest (hR : sl.Rests Rest) (hm : b.master.state ≠ .rdAddr) (hx : b.xbar.state = .idle) (hs : Rest b.slave)
    (i : BusIn sl) : b.events k i = [] := by
  have hin : b.slaveIn k = b.lines.quiet := slaveIn_quiet hx hm
  rw [events_of hin, hR.silent b.slave b.lines i.env hs]
  simp

theorem events_ready (hR : sl.Rests Rest) (hb : Ready Rest b) (i : BusIn sl) : b.events k i = [] :=
  events_rest hR (by simp [hb.master]) hb.xbar hb.slave i

theorem events_finished (hR : sl.Rests Rest) (hb : Finished Rest b) (i : BusIn sl) : b.events k i = [] :=
  events_rest hR (by simp [hb.master]) hb.xbar hb.slave i

/-- `cmd_done` comes when the transaction ends -/
theorem first_done (hb : Ready Rest b) (ins : ℕ → BusIn sl) {n : ℕ}
    (hbusy : ∀ j < n, (Machine.trace (step k) (b.step k (ins 0)) (fun j => ins (j + 1)) j).settled = false) :
    ∀ j < n + 1, (after k b ins j).master.cmdDone = false := by
  intro j hj
  cases j with
  | zero =>
    change b.master.cmdDone = false
    simp [AxiMaster.cmdDone, hb.master]
  | succ j =>
    have h := hbusy j (by omega)
    rw [← Machine.trace_cons] at h
    simp only [settled, Bool.or_eq_false_iff] at h
    exact h.2

theorem read_done (hC : Contract sl k Rest) (hS : sl.ServesReads Rest) (hb : Ready Rest b) (ins : ℕ → BusIn sl)
    (hread : (ins 0).cmd.read = true) (ha : decode (ins 0).cmd.addr = some k) :
    ∃ n, ReadDone k b ins (ins 0).cmd.addr n ∧ Finished Rest (after k b ins n) := by
  obtain ⟨hm, hx, hs⟩ := accepting hC.rests hb (ins 0)
  have hstep := AxiMaster.step_read hb.master hread openPort
  have hstate : (b.step k (ins 0)).master.state = .rdAddr := by rw [hm, hstep]
  have haddr : (b.step k (ins 0)).master.addrReg = (ins 0).cmd.addr := by rw [hm, hstep]
  have hends : Ends k _ (b.step k (ins 0)) := read_served hS hstate hx hs (by rw [haddr, ha])
  obtain ⟨n, hbusy, -, hfinished, hlog⟩ := hends fun j => ins (j + 1)
  have hafter : after k b ins (n + 1) = Machine.trace (step k) (b.step k (ins 0)) (fun j => ins (j + 1)) n :=
    Machine.trace_cons (step k) b ins n
  rw [← hafter] at hfinished hlog
  have hevents : eventLog k b ins (n + 1) = [.access (.read (ins 0).cmd.addr (after k b ins (n + 1)).master.cmdRdata),
      .reply (after k b ins (n + 1)).master.cmdRdata] := by
    rw [eventLog, Machine.log_cons, events_ready hC.rests hb, List.nil_append, hlog, haddr]
  refine ⟨n + 1, ⟨first_done hb ins hbusy, ?_, hevents, ?_⟩, hfinished⟩
  · simp [AxiMaster.cmdDone, hfinished.master]
  · -- the access was made in a cycle before
    have hmem : SlaveEvent.access (.read (ins 0).cmd.addr (after k b ins (n + 1)).master.cmdRdata) ∈ eventLog k b ins
        (n + 1) := by
      rw [hevents]
      exact List.mem_cons_self
    obtain ⟨j, hj, he⟩ := (Machine.mem_log _ _ _).1 hmem
    refine ⟨j, hj, ?_⟩
    simp only [events, accesses, List.mem_append, List.mem_map, reduceCtorEq, and_false, exists_false, or_false] at he
    obtain ⟨a, hacc, hread⟩ := he
    obtain rfl : a = _ := SlaveEvent.access.inj hread
    exact hC.held _ _ _ _ _ hacc

theorem write_done (hC : Contract sl k Rest) (hS : sl.ServesWrites Rest (fun a => decode a = some k))
    (hb : Ready Rest b) (ins : ℕ → BusIn sl) (hread : (ins 0).cmd.read = false) (hwrite : (ins 0).cmd.write = true)
    (ha : decode (ins 0).cmd.addr = some k) : ∃ n, WriteDone k b ins (ins 0).cmd n ∧
    Finished Rest (after k b ins n) := by
  obtain ⟨hm, hx, hs⟩ := accepting hC.rests hb (ins 0)
  have hstep := AxiMaster.step_write hb.master hread hwrite openPort
  have hstate : (b.step k (ins 0)).master.state = .wrAddr := by rw [hm, hstep]
  have hd : (b.step k (ins 0)).master.awDone = false := by rw [hm, hstep]
  have hw : (b.step k (ins 0)).master.wDone = false := by rw [hm, hstep]
  have haddr : (b.step k (ins 0)).master.addrReg = (ins 0).cmd.addr := by rw [hm, hstep]
  have hlines : (b.step k (ins 0)).lines = ⟨(ins 0).cmd.addr, (ins 0).cmd.wdata, (ins 0).cmd.strobe⟩ := by
    rw [lines, hm, hstep]
  have hmine : decode (b.step k (ins 0)).master.addrReg = some k := by rw [haddr, ha]
  have hends : Ends k _ (b.step k (ins 0)) := write_served hS hC.rests hstate hd hw hx hs hmine hmine
  obtain ⟨n, hbusy, -, hfinished, hlog⟩ := hends fun j => ins (j + 1)
  have hafter : after k b ins (n + 1) = Machine.trace (step k) (b.step k (ins 0)) (fun j => ins (j + 1)) n :=
    Machine.trace_cons (step k) b ins n
  rw [← hafter] at hfinished
  refine ⟨n + 1, ⟨first_done hb ins hbusy, ?_, ?_⟩, hfinished⟩
  · simp [AxiMaster.cmdDone, hfinished.master]
  · rw [eventLog, Machine.log_cons, events_ready hC.rests hb, List.nil_append, hlog, hlines]

theorem never_done (hb : Ready Rest b) (ins : ℕ → BusIn sl) (h : Hangs k (b.step k (ins 0))) (n : ℕ) :
    (after k b ins n).master.cmdDone = false :=
  first_done hb ins (fun j _ => h _ j) n (Nat.lt_succ_self n)

theorem read_hangs (hC : Contract sl k Rest) (hS : sl.DropsReads Rest) (hb : Ready Rest b) (ins : ℕ → BusIn sl)
    (hread : (ins 0).cmd.read = true) (ha : decode (ins 0).cmd.addr = some k) (n : ℕ) :
    (after k b ins n).master.cmdDone = false := by
  obtain ⟨hm, hx, hs⟩ := accepting hC.rests hb (ins 0)
  have hstep := AxiMaster.step_read hb.master hread openPort
  have hstate : (b.step k (ins 0)).master.state = .rdAddr := by rw [hm, hstep]
  have haddr : decode (b.step k (ins 0)).master.addrReg = some k := by rw [hm, hstep, ha]
  exact never_done hb ins (read_dropped hS hstate hx hs haddr) n

theorem write_hangs (hC : Contract sl k Rest) (hS : sl.DropsWrites Rest) (hb : Ready Rest b) (ins : ℕ → BusIn sl)
    (hread : (ins 0).cmd.read = false) (hwrite : (ins 0).cmd.write = true) (ha : decode (ins 0).cmd.addr = some k)
    (n : ℕ) :
    (after k b ins n).master.cmdDone = false := by
  obtain ⟨hm, hx, hs⟩ := accepting hC.rests hb (ins 0)
  have hstep := AxiMaster.step_write hb.master hread hwrite openPort
  have hstate : (b.step k (ins 0)).master.state = .wrAddr := by rw [hm, hstep]
  have hd : (b.step k (ins 0)).master.awDone = false := by rw [hm, hstep]
  have hw : (b.step k (ins 0)).master.wDone = false := by rw [hm, hstep]
  have haddr : decode (b.step k (ins 0)).master.addrReg = some k := by rw [hm, hstep, ha]
  exact never_done hb ins (write_dropped hS hC.rests hstate hd hw hx hs haddr) n

end Runs

end Bus

end Vsync
