/-
The AXI4-to-BRAM bridges of `vsync_top.sv` with their memories: `bram_dmem` and port B of `bram_imem`.

The two bridges are the same state machine. The instruction memory has a single enable for port B, so that its output
register is loaded by a write as well; the other port only reads, and is left out.
-/
import Vsync.Bus.Transfer

namespace Vsync

/-- `DMEM_IDLE`, …, `DMEM_READ_DATA` -/
inductive BramState where
  | idle
  | writeData
  | writeResp
  | readWait
  | readData
  deriving DecidableEq, Repr

/-- a bridge and a memory of `2 ^ w` words -/
structure BramBridge (w : ℕ) where
  state : BramState
  axiAddrReg : Word
  mem : BitVec w → Word
  rdata : Word

namespace BramBridge

variable {w : ℕ}

def reset (mem : BitVec w → Word) : BramBridge w := ⟨.idle, 0, mem, 0⟩

section Step

variable (s : BramBridge w) (m : BusRequest)

def addr : BitVec w := s.axiAddrReg.extractLsb' 2 w

def response : BusResponse where
  arready := s.state == .idle && !m.awvalid && m.arvalid
  rvalid := s.state == .readData
  rdata := s.rdata
  rresp := 0b00
  awready := s.state == .idle && m.awvalid
  wready := s.state == .writeData
  bvalid := s.state == .writeResp
  bresp := 0b00

def we : Bool := s.state == .writeData && m.wvalid

def stateNext : BramState :=
  match s.state with
  | .idle => if m.awvalid then .writeData else if m.arvalid then .readWait else .idle
  | .writeData => if m.wvalid then .writeResp else .writeData
  | .writeResp => if m.bready then .idle else .writeResp
  | .readWait => .readData
  | .readData => if m.rready then .idle else .readData

/-- one clock edge; `enWrite`: a write enables the output register too -/
def step (enWrite : Bool) : BramBridge w where
  state := s.stateNext m
  axiAddrReg :=
    match s.state with
    | .idle => if m.awvalid then m.awaddr else if m.arvalid then m.araddr else s.axiAddrReg
    | _ => s.axiAddrReg
  mem := if s.we m then Function.update s.mem s.addr (mergeBytes m.wstrb (s.mem s.addr) m.wdata) else s.mem
  rdata := if s.state == .readWait || (s.we m && enWrite) then s.mem s.addr else s.rdata

def access : List BusAccess :=
  match s.state with
  | .readWait => [.read s.axiAddrReg (s.mem s.addr)]
  | .writeData => if m.wvalid then [.write s.axiAddrReg m.wdata (some m.wstrb)] else []
  | _ => []

end Step

def slave (enWrite : Bool) (mem : BitVec w → Word) : BusSlave where
  State := BramBridge w
  Env := Unit
  reset := reset mem
  out := response
  step s m _ := s.step m enWrite
  access s m _ := s.access m
  holds s _ a := s.mem (a.extractLsb' 2 w)
  strobed := true

def Idle (s : BramBridge w) : Prop := s.state = .idle

section Cycles

variable {s : BramBridge w} (l : BusLines) (enWrite : Bool)

theorem step_quiet (hs : Idle s) : s.step l.quiet enWrite = s := by
  rcases s with ⟨state, a, mem, q⟩
  obtain rfl : state = .idle := hs
  rfl

theorem step_ar (hs : Idle s) : s.step l.ar enWrite = ⟨.readWait, l.addr, s.mem, s.rdata⟩ := by
  rcases s with ⟨state, a, mem, q⟩
  obtain rfl : state = .idle := hs
  rfl

theorem step_aw (hs : Idle s) : s.step l.aw enWrite = ⟨.writeData, l.addr, s.mem, s.rdata⟩ := by
  rcases s with ⟨state, a, mem, q⟩
  obtain rfl : state = .idle := hs
  rfl

end Cycles

section Contract

variable (enWrite : Bool) (mem : BitVec w → Word)

theorem readsHeld : (slave enWrite mem).ReadsHeld := by
  intro s m _ a d h
  change Axi.Access.read a d ∈ s.access m at h
  change d = s.mem (a.extractLsb' 2 w)
  unfold access at h
  split at h
  · simp only [List.mem_singleton, Axi.Access.read.injEq] at h
    rw [h.1, h.2]
    rfl
  · split at h <;> simp at h
  · simp at h

theorem rests : (slave enWrite mem).Rests Idle where
  reset := rfl
  stays s l _ hs := by
    have h : s.step l.quiet enWrite = s := step_quiet l enWrite hs
    change Idle (s.step l.quiet enWrite)
    rw [h]
    exact hs
  silent s l _ hs := by
    change s.access l.quiet = []
    simp [access, show s.state = .idle from hs]

theorem servesReads : (slave enWrite mem).ServesReads Idle := by
  intro s l _ hs
  have hstate : s.state = .idle := hs
  refine ⟨?_, ?_, ?_⟩
  · change (s.response l.ar).arready = true
    simp [response, hstate, Axi.Lines.ar, Axi.Lines.quiet]
  · change s.access l.ar = []
    simp [access, hstate]
  · change (slave enWrite mem).Until _ _ _ (s.step l.ar enWrite)
    rw [step_ar l enWrite hs]
    refine Machine.reaches_later rfl fun _ => ?_
    exact Machine.reaches_here rfl ⟨rfl, fun _ => ⟨rfl, rfl⟩⟩

theorem servesWrites (mine : Word → Prop) : (slave enWrite mem).ServesWrites Idle mine := by
  intro s l _ hs
  have hstate : s.state = .idle := hs
  have hready : (s.response l.aw).awready = true := by simp [response, hstate, Axi.Lines.aw]
  refine Machine.reaches_here hready fun _ => ⟨rfl, ?_, ?_⟩
  · change s.access l.aw = []
    simp [access, hstate]
  · change (slave enWrite mem).Until _ _ _ (s.step l.aw enWrite)
    rw [step_aw l enWrite hs]
    refine Machine.reaches_here rfl fun _ => ?_
    exact Machine.reaches_here rfl fun _ => ⟨rfl, rfl, rfl⟩

theorem contract (k : Port) : Bus.Contract (slave enWrite mem) k Idle where
  held := readsHeld enWrite mem
  rests := rests enWrite mem
  reads := .inl (servesReads enWrite mem)
  writes := .inl (servesWrites enWrite mem _)

end Contract

/-! ## The contents after a run -/

/-- the contents after an access -/
def afterAccess (mem : BitVec w → Word) : BusAccess → BitVec w → Word
  | .write a d (some strb) =>
    Function.update mem (a.extractLsb' 2 w) (mergeBytes strb (mem (a.extractLsb' 2 w)) d)
  | _ => mem

def afterEvent (mem : BitVec w → Word) : SlaveEvent → BitVec w → Word
  | .access a => afterAccess mem a
  | .reply _ => mem

/-- what a cycle does to the contents is what its accesses say -/
theorem step_mem (s : BramBridge w) (m : BusRequest) (enWrite : Bool) :
    (s.step m enWrite).mem = (s.access m).foldl afterAccess s.mem := by
  rcases s with ⟨state, a, mem, q⟩
  cases state <;> cases hw : m.wvalid <;> simp [step, access, we, afterAccess, addr, hw]

/-- the contents of the memory on the bus -/
def contents {enWrite : Bool} {mem : BitVec w → Word} (b : Bus (slave enWrite mem)) : BitVec w → Word :=
  BramBridge.mem b.slave

/-- **The contents after a run** are those that the accesses of the run leave. -/
theorem contents_after {enWrite : Bool} {mem : BitVec w → Word} (k : Port) (b : Bus (slave enWrite mem))
    (ins : ℕ → BusIn (slave enWrite mem)) (n : ℕ) :
    contents (b.after k ins n) = (b.eventLog k ins n).foldl afterEvent (contents b) := by
  induction n with
  | zero => rfl
  | succ n ih =>
    have hlog : b.eventLog k ins (n + 1) = b.eventLog k ins n ++ (b.after k ins n).events k (ins n) := rfl
    have hstep : contents (b.after k ins (n + 1)) =
        ((b.after k ins n).accesses k (ins n)).foldl afterAccess (contents (b.after k ins n)) := step_mem _ _ _
    have hreplies (l : List Word) (m : BitVec w → Word) : (l.map SlaveEvent.reply).foldl afterEvent m = m := by
      induction l with
      | nil => rfl
      | cons d l ih => exact ih
    rw [hlog, List.foldl_append, ← ih, Bus.events, List.foldl_append, hreplies, List.foldl_map, hstep]
    rfl

/-- a log without writes leaves the contents as they are -/
theorem foldl_afterEvent_of_reads (m : BitVec w → Word) {l : List SlaveEvent}
    (h : ∀ e ∈ l, ∀ a d strb, e ≠ .access (.write a d strb)) : l.foldl afterEvent m = m := by
  induction l with
  | nil => rfl
  | cons e l ih =>
    have he : afterEvent m e = m := by
      cases e with
      | reply d => rfl
      | access acc =>
        cases acc with
        | read a d => rfl
        | write a d strb => exact absurd rfl (h _ List.mem_cons_self a d strb)
    rw [List.foldl_cons, he]
    exact ih fun e' he' => h e' (List.mem_cons_of_mem e he')

end BramBridge

/-- `bram_dmem`: 4096 words, `dmem_axi_addr_reg[13:2]` -/
abbrev bramDmem (mem : BitVec 12 → Word) : BusSlave := BramBridge.slave false mem

/-- port B of `bram_imem`: 16384 words, `imem_axi_addr_reg[15:2]` -/
abbrev bramImem (mem : BitVec 14 → Word) : BusSlave := BramBridge.slave true mem

end Vsync
