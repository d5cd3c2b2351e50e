/-
The master, the interconnect and one slave, connected to one of the slave ports.

The other ports are left open: they accept nothing and answer nothing. The command lines and what comes in from behind
the slave are inputs of every cycle; the master looks at a command in `ST_IDLE` only, so that a cycle in `ST_IDLE` of a
run from reset is one in which every command so far has been completed.

- `Bus`: the composition; `Ready`: no transaction is in progress.
- `ReadDone`, `WriteDone`: a completed command.
- `Ends`: what the slave has done when a transaction gets to its end.
- `phase`: while the channel that a transaction waits for does not answer, only the slave moves.
-/
import Vsync.Bus.Interconnect

namespace Vsync

/-- a slave of this bus -/
abbrev BusSlave := Axi.Slave Word Word (BitVec 4)

abbrev BusAccess := Axi.Access Word Word (BitVec 4)

abbrev BusLines := Axi.Lines Word Word (BitVec 4)

/-- what a slave is seen to do -/
inductive SlaveEvent where
  | access (a : BusAccess)
  | reply (data : Word)
  deriving DecidableEq

def openPort : BusResponse := ⟨false, false, 0, 0, false, false, false, 0⟩

structure Bus (sl : BusSlave) where
  master : AxiMaster
  xbar : Interconnect
  slave : sl.State

structure BusIn (sl : BusSlave) where
  cmd : BusCmd
  env : sl.Env

namespace Bus

variable {sl : BusSlave} (k : Port)

def reset : Bus sl := ⟨AxiMaster.reset, Interconnect.reset, sl.reset⟩

section Step

variable (b : Bus sl)

def slaveIn : BusRequest := b.xbar.request b.master.request k

def ports (j : Port) : BusResponse := if j = k then sl.out b.slave (b.slaveIn k) else openPort

def masterIn : BusResponse := b.xbar.response b.master.request (b.ports k)

def step (i : BusIn sl) : Bus sl where
  master := b.master.step i.cmd (b.masterIn k)
  xbar := b.xbar.step b.master.request (b.ports k)
  slave := sl.step b.slave (b.slaveIn k) i.env

/-- what the slave accesses in this cycle -/
def accesses (i : BusIn sl) : List BusAccess := sl.access b.slave (b.slaveIn k) i.env

def replies : List Word :=
  if (sl.out b.slave (b.slaveIn k)).rvalid && (b.slaveIn k).rready then [(sl.out b.slave (b.slaveIn k)).rdata] else []

/-- what the slave does in this cycle -/
def events (i : BusIn sl) : List SlaveEvent := (b.accesses k i).map .access ++ (b.replies k).map .reply

def lines : BusLines := ⟨b.master.addrReg, b.master.wdataReg, b.master.wstrbReg⟩

end Step

def after (b : Bus sl) (ins : ℕ → BusIn sl) (n : ℕ) : Bus sl := Machine.trace (step k) b ins n

def eventLog (b : Bus sl) (ins : ℕ → BusIn sl) (n : ℕ) : List SlaveEvent := Machine.log (events k) (step k) b ins n

def stateAt (ins : ℕ → BusIn sl) (n : ℕ) : Bus sl := after k reset ins n

/-- no transaction is in progress -/
structure Ready (Rest : sl.State → Prop) (b : Bus sl) : Prop where
  master : b.master.state = .idle
  xbar : b.xbar.state = .idle
  slave : Rest b.slave

/-- **A completed read** of `addr`: `cmd_done` comes for the first time in cycle `n`, with the data that the slave holds
at the address, has read in its only access, and has given in its only response. -/
structure ReadDone (b : Bus sl) (ins : ℕ → BusIn sl) (addr : Word) (n : ℕ) : Prop where
  first : ∀ j < n, (after k b ins j).master.cmdDone = false
  done : (after k b ins n).master.cmdDone = true
  events : eventLog k b ins n =
    [.access (.read addr (after k b ins n).master.cmdRdata), .reply (after k b ins n).master.cmdRdata]
  held : ∃ j < n, (after k b ins n).master.cmdRdata = sl.holds (after k b ins j).slave (ins j).env addr

/-- **A completed write** of a command: up to the first `cmd_done` the slave has made the one write -/
structure WriteDone (b : Bus sl) (ins : ℕ → BusIn sl) (c : BusCmd) (n : ℕ) : Prop where
  first : ∀ j < n, (after k b ins j).master.cmdDone = false
  done : (after k b ins n).master.cmdDone = true
  events : eventLog k b ins n = [.access (sl.writeOf ⟨c.addr, c.wdata, c.strobe⟩)]

/-! ## The lines to the slave -/

section Lines

variable {k : Port} {b : Bus sl}

/-- an idle interconnect without a read address passes nothing on -/
theorem slaveIn_quiet (hx : b.xbar.state = .idle) (hm : b.master.state ≠ .rdAddr) : b.slaveIn k = b.lines.quiet := by
  have h : (b.master.state == .rdAddr) = false := by simpa using hm
  simp [slaveIn, Interconnect.request, AxiMaster.request, hx, h, lines, Axi.Lines.quiet]

/-- nor does it pass a read address of another port on -/
theorem slaveIn_elsewhere (hx : b.xbar.state = .idle) (ha : Interconnect.decode b.master.addrReg ≠ some k) :
    b.slaveIn k = b.lines.quiet := by
  have h : (Interconnect.decode b.master.addrReg == some k) = false := by simpa using ha
  simp [slaveIn, Interconnect.request, AxiMaster.request, hx, h, lines, Axi.Lines.quiet]

theorem slaveIn_ar (hx : b.xbar.state = .idle) (hm : b.master.state = .rdAddr)
    (ha : Interconnect.decode b.master.addrReg = some k) : b.slaveIn k = b.lines.ar := by
  simp [slaveIn, Interconnect.request, AxiMaster.request, hx, hm, ha, lines, Axi.Lines.quiet, Axi.Lines.ar]

theorem slaveIn_r (hx : b.xbar.state = .read) (hk : b.xbar.activeSlave = k) (hm : b.master.state = .rdData) :
    b.slaveIn k = b.lines.r := by
  simp [slaveIn, Interconnect.request, AxiMaster.request, hx, hk, hm, lines, Axi.Lines.quiet, Axi.Lines.r]

theorem slaveIn_aw (hx : b.xbar.state = .writeAw) (hk : b.xbar.activeSlave = k) (ha : b.xbar.awAccepted = false) :
    b.slaveIn k = b.lines.aw := by
  simp [slaveIn, Interconnect.request, AxiMaster.request, hx, hk, ha, lines, Axi.Lines.quiet, Axi.Lines.aw]

theorem slaveIn_w (hx : b.xbar.state = .writeW) (hk : b.xbar.activeSlave = k) (hm : b.master.state = .wrData) :
    b.slaveIn k = b.lines.w := by
  simp [slaveIn, Interconnect.request, AxiMaster.request, hx, hk, hm, lines, Axi.Lines.quiet, Axi.Lines.w]

theorem slaveIn_b (hx : b.xbar.state = .writeB) (hk : b.xbar.activeSlave = k) (hm : b.master.state = .wrResp) :
    b.slaveIn k = b.lines.b := by
  simp [slaveIn, Interconnect.request, AxiMaster.request, hx, hk, hm, lines, Axi.Lines.quiet, Axi.Lines.b]

@[simp] theorem ports_self : b.ports k k = sl.out b.slave (b.slaveIn k) := by simp [ports]

theorem ports_other {j : Port} (h : j ≠ k) : b.ports k j = openPort := by simp [ports, h]

end Lines

/-! ## Phases -/

section Phases

variable {k : Port} {b : Bus sl}

def settled (b : Bus sl) : Bool := b.master.state == .idle || b.master.state == .done

/-- whatever comes in, the transaction of `b` gets to its end, and then `Q` holds of what the slave has done -/
def Ends (k : Port) (Q : List SlaveEvent → Bus sl → Prop) (b : Bus sl) : Prop :=
  Machine.Reaches (events k) (step k) settled Q b

theorem events_of {req : BusRequest} (h : b.slaveIn k = req) (i : BusIn sl) : b.events k i =
    (sl.access b.slave req i.env).map .access ++
      (if (sl.out b.slave req).rvalid && req.rready then [SlaveEvent.reply (sl.out b.slave req).rdata] else []) := by
  simp only [events, accesses, replies, h]
  split <;> rfl

/-- **A phase**: while the awaited channel does not answer, only the slave moves. -/
theorem phase {req : BusRequest} {p : BusResponse → Bool} {Q : List SlaveEvent → Bus sl → Prop}
    (hb : b.settled = false) (hreq : ∀ s : sl.State, slaveIn k ({ b with slave := s } : Bus sl) = req)
    (hstay : ∀ (s : sl.State) (i : BusIn sl), p (sl.out s req) = false →
      step k ({ b with slave := s } : Bus sl) i = { b with slave := sl.step s req i.env })
    (hquiet : ∀ s, p (sl.out s req) = false → ((sl.out s req).rvalid && req.rready) = false)
    (hU : sl.Until req p (fun acc s => Ends k (fun l b' => Q
      (acc.map .access ++ l) b') { b with slave := s }) b.slave) :
    Ends k Q b := by
  have hpart (s : sl.State) (i : BusIn sl) (h : p (sl.out s req) = false) :
      settled ({ b with slave := s } : Bus sl) = false ∧
      step k ({ b with slave := s } : Bus sl) i = { b with slave := sl.under req s i.env } ∧
      events k ({ b with slave := s } : Bus sl) i = (sl.accessUnder req s i.env).map .access := by
    refine ⟨hb, hstay s i h, ?_⟩
    simp [events_of (hreq s), hquiet s h, Axi.Slave.accessUnder]
  exact Machine.reaches_part (fun s => ({ b with slave := s } : Bus sl)) BusIn.env SlaveEvent.access hpart hU

end Phases

end Bus

end Vsync
