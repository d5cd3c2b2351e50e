/-
`hyperram_ctrl.sv` at its pins, with an ideal device.

The controller is that of `HyperRam`, with `LATENCY` a parameter and the pins spelled out; the device decodes the six
bytes of the command and counts the bytes of the transfer itself. It is in step with the controller: it takes a byte of
the command in `ST_CMD`, and gives or takes a byte in `ST_DATA`.

- `HyperDevice`: `CA[44:16]` and `CA[2:0]` are the address of a 16-bit word; low and high byte of successive words.
- `PortOp.serve`: what one transaction is on such a device.
- `run_serves`: in every run, under every input, the answers are those of the accepted transactions, one after the
  other.
- `run_idle`: every transaction ends.
-/
import Vsync.Bus.DataMemory
import Vsync.Bus.HyperRam

namespace Vsync

/-! ## The controller -/

/-- the registers of the controller -/
structure HyperCtrl where
  state : HyperState
  cmdCnt : BitVec 4
  latCnt : BitVec 8
  dataCnt : BitVec 4
  isRead : Bool
  txnAddr : Word
  wrData : Word
  wrStrb : BitVec 4
  rdData : Word
  latTotal : BitVec 8
  deriving DecidableEq

namespace HyperCtrl

def reset : HyperCtrl := ⟨.idle, 0, 0, 0, false, 0, 0, 0, 0, 0⟩

section Step

variable (s : HyperCtrl) (m : BusRequest)

def response : BusResponse where
  arready := s.state == .idle && m.arvalid
  rvalid := s.state == .done && s.isRead
  rdata := s.rdData
  rresp := 0b00
  awready := s.state == .idle && !m.arvalid && m.awvalid
  wready := s.state == .idle && !m.arvalid && m.awvalid && m.wvalid
  bvalid := s.state == .done && !s.isRead
  bresp := 0b00

/-- `ca_word`: the byte address goes into `CA[44:16]` and `CA[2:0]` as it is -/
def caWord : BitVec 48 :=
  BitVec.ofBool s.isRead ++ 0#1 ++ 1#1 ++ s.txnAddr.extractLsb' 3 29 ++ 0#13 ++ s.txnAddr.extractLsb' 0 3

/-- `lat_cnt >= lat_total - 1`, in 32 bits -/
def latencyOver : Bool := (s.latTotal.setWidth 32 - 1#32).ule (s.latCnt.setWidth 32)

def dataOver : Bool := (3#4).ule s.dataCnt

def stateNext : HyperState :=
  match s.state with
  | .idle => if m.arvalid then .cmd else if m.awvalid && m.wvalid then .cmd else .idle
  | .cmd => if s.cmdCnt = 5 then .latency else .cmd
  | .latency => if s.latencyOver then .data else .latency
  | .data => if s.dataOver then .done else .data
  | .done => if s.isRead then (if m.rready then .idle else .done) else (if m.bready then .idle else .done)

/-- the byte `data_cnt[1:0]` of the data -/
def lane : ℕ := (s.dataCnt.extractLsb' 0 2).toNat

/-- `hb_dq_o`: the command from its highest byte on, then the data from its lowest byte on -/
def dqO : BitVec 8 :=
  match s.state with
  | .cmd => if s.cmdCnt.toNat ≤ 5 then s.caWord.extractLsb' (8 * (5 - s.cmdCnt.toNat)) 8 else 0
  | .data => if s.isRead then 0 else s.wrData.extractLsb' (8 * s.lane) 8
  | _ => 0

def rwdsO : Bool := s.state == .data && !s.isRead && !s.wrStrb.getLsbD s.lane

/-- `rd_data` with the byte of this cycle -/
def capture (dqI : BitVec 8) : Word :=
  match s.lane with
  | 0 => s.rdData.extractLsb' 8 24 ++ dqI
  | 1 => s.rdData.extractLsb' 16 16 ++ dqI ++ s.rdData.extractLsb' 0 8
  | 2 => s.rdData.extractLsb' 24 8 ++ dqI ++ s.rdData.extractLsb' 0 16
  | _ => dqI ++ s.rdData.extractLsb' 0 24

/-- one clock edge; `latency` is `LATENCY[7:0]`, `rwds` is `hb_rwds_i` and `dqI` is `hb_dq_i` -/
def step (latency : BitVec 8) (rwds : Bool) (dqI : BitVec 8) : HyperCtrl where
  state := s.stateNext m
  cmdCnt :=
    match s.state with
    | .idle => 0
    | .cmd => if s.cmdCnt.ult 5 then s.cmdCnt + 1 else s.cmdCnt
    | _ => s.cmdCnt
  latCnt :=
    match s.state with
    | .idle => 0
    | .latency => s.latCnt + 1
    | _ => s.latCnt
  dataCnt :=
    match s.state with
    | .idle => 0
    | .data => s.dataCnt + 1
    | _ => s.dataCnt
  isRead :=
    match s.state with
    | .idle => if m.arvalid then true else if m.awvalid && m.wvalid then false else s.isRead
    | _ => s.isRead
  txnAddr :=
    match s.state with
    | .idle => if m.arvalid then m.araddr else if m.awvalid && m.wvalid then m.awaddr else s.txnAddr
    | _ => s.txnAddr
  wrData :=
    match s.state with
    | .idle => if !m.arvalid && m.awvalid && m.wvalid then m.wdata else s.wrData
    | _ => s.wrData
  wrStrb :=
    match s.state with
    | .idle => if !m.arvalid && m.awvalid && m.wvalid then m.wstrb else s.wrStrb
    | _ => s.wrStrb
  rdData :=
    match s.state with
    | .idle => 0
    | .data => if s.isRead then s.capture dqI else s.rdData
    | _ => s.rdData
  latTotal :=
    match s.state with
    | .latency => if s.latCnt = 0 then (if rwds then latency * 2 else latency) else s.latTotal
    | _ => s.latTotal

end Step

end HyperCtrl

/-- the controller of the model with the device of the testbench -/
def HyperRam.ctrl (s : HyperRam) : HyperCtrl :=
  ⟨s.state, s.cmdCnt, s.latCnt, s.dataCnt, s.isRead, s.txnAddr, s.wrData, s.wrStrb, s.rdData, s.latTotal⟩

/-- **Both models have one controller.** -/
theorem HyperRam.ctrl_step (s : HyperRam) (m : BusRequest) (rwds : Bool) :
    (s.step m rwds).ctrl = s.ctrl.step m LATENCY rwds s.dqIn ∧ s.ctrl.response m = s.response m := ⟨rfl, rfl⟩

/-! ## The device -/

/-- the bytes of the device: the low and the high byte of every 16-bit word -/
abbrev DeviceMem := Word → Bool → BitVec 8

namespace DeviceMem

def byte (mem : DeviceMem) (addr : Word) (i : ℕ) : BitVec 8 := mem (addr + BitVec.ofNat 32 (i / 2)) (i % 2 == 1)

def word (mem : DeviceMem) (addr : Word) : Word :=
  mem.byte addr 3 ++ mem.byte addr 2 ++ mem.byte addr 1 ++ mem.byte addr 0

/-- one byte is written -/
def put (mem : DeviceMem) (addr : Word) (i : ℕ) (b : BitVec 8) : DeviceMem :=
  fun x high => if x = addr + BitVec.ofNat 32 (i / 2) ∧ high = (i % 2 == 1) then b else mem x high

/-- the place of a byte in the bytes from the word `addr` on -/
def place (addr x : Word) (high : Bool) : ℕ := 2 * (x - addr).toNat + high.toNat

/-- the first `n` of the four bytes are written, each if its strobe is up -/
def write (mem : DeviceMem) (addr data : Word) (strb : BitVec 4) (n : ℕ) : DeviceMem :=
  fun x high => if place addr x high < n ∧ strb.getLsbD (place addr x high) then byteOf data (place addr x high)
    else mem x high

theorem place_eq_iff {addr x : Word} {high : Bool} {i : ℕ} (hi : i < 4) :
    place addr x high = i ↔ x = addr + BitVec.ofNat 32 (i / 2) ∧ high = (i % 2 == 1) := by
  have hx := x.isLt
  have ha := addr.isLt
  rw [place, ← BitVec.toNat_inj, BitVec.toNat_add, BitVec.toNat_sub, BitVec.toNat_ofNat]
  rcases show i = 0 ∨ i = 1 ∨ i = 2 ∨ i = 3 by omega with rfl | rfl | rfl | rfl <;> cases high <;> simp <;> omega

@[simp] theorem write_zero (mem : DeviceMem) (addr data : Word) (strb : BitVec 4) :
    mem.write addr data strb 0 = mem := by
  funext x high
  simp [write]

theorem write_succ (mem : DeviceMem) (addr data : Word) (strb : BitVec 4) {n : ℕ} (hn : n < 4) :
    mem.write addr data strb (n + 1) =
      if strb.getLsbD n then (mem.write addr data strb n).put addr n (byteOf data n)
        else mem.write addr data strb n := by
  funext x high
  have hplace := @place_eq_iff addr x high n hn
  by_cases heq : place addr x high = n
  · have hhere := hplace.1 heq
    by_cases hs : strb.getLsbD n = true
    · rw [if_pos hs, put, if_pos hhere, write, heq, if_pos ⟨Nat.lt_succ_self n, hs⟩]
    · rw [if_neg hs, write, write, heq, if_neg fun h => hs h.2, if_neg fun h => hs h.2]
  · have helse : ¬ (x = addr + BitVec.ofNat 32 (n / 2) ∧ high = (n % 2 == 1)) := fun h => heq (hplace.2 h)
    have hlt : place addr x high < n + 1 ↔ place addr x high < n := by omega
    have hsame : mem.write addr data strb (n + 1) x high = mem.write addr data strb n x high := by
      simp only [write, hlt]
    by_cases hs : strb.getLsbD n = true
    · rw [if_pos hs, put, if_neg helse, hsame]
    · rw [if_neg hs, hsame]

end DeviceMem

/-- the command as it comes in, the bytes of this transfer so far, and the contents -/
structure HyperDevice where
  ca : BitVec 48
  beat : ℕ
  mem : DeviceMem

namespace HyperDevice

variable (d : HyperDevice)

def wordAddr : Word := d.ca.extractLsb' 16 29 ++ d.ca.extractLsb' 0 3

def isRead : Bool := d.ca.getLsbD 47

/-- the byte that the device gives -/
def dqI : BitVec 8 := d.mem.byte d.wordAddr d.beat

/-- one clock edge; `dq` and `rwds` are what the controller drives -/
def step (phase : HyperState) (dq : BitVec 8) (rwds : Bool) : HyperDevice :=
  match phase with
  | .cmd => { d with ca := d.ca.extractLsb' 0 40 ++ dq, beat := 0 }
  | .data =>
    { d with
      beat := d.beat + 1
      mem := if !d.isRead && !rwds then d.mem.put d.wordAddr d.beat dq else d.mem }
  | _ => d

end HyperDevice

structure HyperBus where
  ctrl : HyperCtrl
  dev : HyperDevice

/-- the inputs of a cycle: the AXI port, and `hb_rwds_i` -/
structure HyperIn where
  m : BusRequest
  rwds : Bool

/-- an access at the AXI port -/
inductive PortOp where
  | read (addr : Word)
  | write (addr data : Word) (strb : BitVec 4)
  deriving DecidableEq, Repr

namespace HyperBus

def reset (mem : DeviceMem) : HyperBus := ⟨.reset, ⟨0, 0, mem⟩⟩

def step (latency : BitVec 8) (s : HyperBus) (i : HyperIn) : HyperBus where
  ctrl := s.ctrl.step i.m latency i.rwds s.dev.dqI
  dev := s.dev.step s.ctrl.state s.ctrl.dqO s.ctrl.rwdsO

/-- the access that the controller takes over in this cycle: a write only with its address and its data together -/
def accepted (s : HyperBus) (i : HyperIn) : List PortOp :=
  if s.ctrl.state = .idle then
    (if i.m.arvalid then [.read i.m.araddr]
    else if i.m.awvalid && i.m.wvalid then [.write i.m.awaddr i.m.wdata i.m.wstrb] else [])
  else []

/-- the data lines in the cycle of a response -/
def answered (s : HyperBus) (i : HyperIn) : List Word :=
  let r := s.ctrl.response i.m
  if (r.rvalid && i.m.rready) || (r.bvalid && i.m.bready) then [r.rdata] else []

end HyperBus

/-! ## Transactions -/

namespace PortOp

/-- a transaction on the device, and the data lines of its response -/
def serve (mem : DeviceMem) : PortOp → DeviceMem × Word
  | read a => (mem, mem.word a)
  | write a d strb => (mem.write a d strb 4, 0)

/-- transactions, in order -/
def serveRun (mem : DeviceMem) : List PortOp → DeviceMem × List Word
  | [] => (mem, [])
  | op :: ops => ((serveRun (op.serve mem).1 ops).1, (op.serve mem).2 :: (serveRun (op.serve mem).1 ops).2)

theorem serveRun_append (mem : DeviceMem) (ops ops' : List PortOp) : serveRun mem (ops ++ ops') =
    ((serveRun (serveRun mem ops).1 ops').1, (serveRun mem ops).2 ++ (serveRun (serveRun mem ops).1 ops').2) := by
  induction ops generalizing mem with
  | nil => rfl
  | cons op ops ih => simp [serveRun, ih]

@[simp] theorem length_serveRun (mem : DeviceMem) (ops : List PortOp) : (serveRun mem ops).2.length = ops.length := by
  induction ops generalizing mem with
  | nil => rfl
  | cons op ops ih => simp [serveRun, ih]

end PortOp

/-! ## The command -/

namespace HyperCtrl

variable (s : HyperCtrl)

/-- the device reads back the byte address as the address of a word -/
theorem caWord_addr : s.caWord.extractLsb' 16 29 ++ s.caWord.extractLsb' 0 3 = s.txnAddr := by
  apply BitVec.eq_of_getLsbD_eq
  intro i hi
  simp only [caWord, BitVec.getLsbD_append, BitVec.getLsbD_extractLsb', Nat.zero_add]
  by_cases h : i < 3
  · simp [h]
  · simp [h, show ¬ 16 + (i - 3) < 3 by omega, show ¬ 16 + (i - 3) - 3 < 13 by omega, show i - 3 < 29 by omega,
      show 16 + (i - 3) - 3 - 13 = i - 3 by omega, show 3 + (i - 3) = i by omega]

theorem caWord_isRead : s.caWord.getLsbD 47 = s.isRead := by
  simp only [caWord, BitVec.getLsbD_append]
  cases s.isRead <;> rfl

end HyperCtrl

/-- `n` bytes of the command have come in -/
def Received (ca word : BitVec 48) (n : ℕ) : Prop := ∀ i < 8 * n, ca.getLsbD i = word.getLsbD (i + 8 * (6 - n))

theorem received_succ {ca word : BitVec 48} {n : ℕ} (hn : n ≤ 5) (h : Received ca word n) :
    Received (ca.extractLsb' 0 40 ++ word.extractLsb' (8 * (5 - n)) 8) word (n + 1) := by
  intro i hi
  rw [BitVec.getLsbD_append]
  by_cases hlow : i < 8
  · rw [if_pos hlow, BitVec.getLsbD_extractLsb', decide_eq_true hlow, Bool.true_and]
    congr 1
    omega
  · rw [if_neg hlow, BitVec.getLsbD_extractLsb', decide_eq_true (by omega), Bool.true_and, Nat.zero_add,
      h (i - 8) (by omega)]
    congr 1
    omega

theorem received_all {ca word : BitVec 48} (h : Received ca word 6) : ca = word := by
  apply BitVec.eq_of_getLsbD_eq
  intro i hi
  have hbit := h i (by omega)
  simpa using hbit

/-! ## The data -/

theorem eq_of_bytes {x y : Word} (h : ∀ i < 4, byteOf x i = byteOf y i) : x = y := by
  apply BitVec.eq_of_getLsbD_eq
  intro i hi
  have hbyte := congrArg (fun b => b.getLsbD (i % 8)) (h (i / 8) (by omega))
  simp only [getLsbD_byteOf _ _ (Nat.mod_lt i (show 0 < 8 by decide)), Nat.div_add_mod] at hbyte
  exact hbyte

/-- one byte is captured, and the others stay -/
theorem HyperCtrl.byteOf_capture {s : HyperCtrl} (dqI : BitVec 8) {n i : ℕ} (hlane : s.lane = n) (hn : n < 4)
    (hi : i < 4) :
    byteOf (s.capture dqI) i = if i = n then dqI else byteOf s.rdData i := by
  apply BitVec.eq_of_getLsbD_eq
  intro j hj
  rw [capture, hlane, getLsbD_byteOf _ _ hj, apply_ite (fun b : BitVec 8 => b.getLsbD j), getLsbD_byteOf _ _ hj]
  rcases show n = 0 ∨ n = 1 ∨ n = 2 ∨ n = 3 by omega with rfl | rfl | rfl | rfl
  all_goals
    simp only [BitVec.getLsbD_append, BitVec.getLsbD_extractLsb']
    grind

theorem DeviceMem.byteOf_word (mem : DeviceMem) (addr : Word) {i : ℕ} (hi : i < 4) :
    byteOf (mem.word addr) i = mem.byte addr i := by
  rw [word, byteOf_append _ _ _ _ hi]
  rcases show i = 0 ∨ i = 1 ∨ i = 2 ∨ i = 3 by omega with rfl | rfl | rfl | rfl <;> rfl

theorem HyperDevice.wordAddr_of {d : HyperDevice} {s : HyperCtrl} (h : d.ca = s.caWord) : d.wordAddr = s.txnAddr := by
  rw [wordAddr, h, s.caWord_addr]

theorem HyperDevice.isRead_of {d : HyperDevice} {s : HyperCtrl} (h : d.ca = s.caWord) : d.isRead = s.isRead := by
  rw [isRead, h, s.caWord_isRead]

/-! ## Runs -/

namespace HyperBus

/-- the access under way -/
def pending (s : HyperBus) : PortOp :=
  if s.ctrl.isRead then .read s.ctrl.txnAddr else .write s.ctrl.txnAddr s.ctrl.wrData s.ctrl.wrStrb

/-- where a transaction stands, on a device whose contents were `mem` before it -/
inductive Stage (mem : DeviceMem) (s : HyperBus) : Prop where
  | idle (hs : s.ctrl.state = .idle) (hmem : s.dev.mem = mem)
  | cmd (hs : s.ctrl.state = .cmd) (hcnt : s.ctrl.cmdCnt.toNat ≤ 5) (hdata : s.ctrl.dataCnt = 0#4)
      (hrd : s.ctrl.rdData = 0) (hca : Received s.dev.ca s.ctrl.caWord s.ctrl.cmdCnt.toNat) (hmem : s.dev.mem = mem)
  | latency (hs : s.ctrl.state = .latency) (hdata : s.ctrl.dataCnt = 0#4) (hrd : s.ctrl.rdData = 0)
      (hca : s.dev.ca = s.ctrl.caWord) (hbeat : s.dev.beat = 0) (hmem : s.dev.mem = mem)
  | read (n : ℕ) (hs : s.ctrl.state = .data) (hr : s.ctrl.isRead = true) (hn : n < 4) (hdata : s.ctrl.dataCnt.toNat = n)
      (hbeat : s.dev.beat = n) (hca : s.dev.ca = s.ctrl.caWord) (hmem : s.dev.mem = mem)
      (hrd : ∀ i < n, byteOf s.ctrl.rdData i = mem.byte s.ctrl.txnAddr i)
  | write (n : ℕ) (hs : s.ctrl.state = .data) (hr : s.ctrl.isRead = false) (hn : n < 4)
    (hdata : s.ctrl.dataCnt.toNat = n)
      (hbeat : s.dev.beat = n) (hca : s.dev.ca = s.ctrl.caWord) (hrd : s.ctrl.rdData = 0)
      (hmem : s.dev.mem = mem.write s.ctrl.txnAddr s.ctrl.wrData s.ctrl.wrStrb n)
  | done (hs : s.ctrl.state = .done) (hmem : s.dev.mem = (s.pending.serve mem).1)
      (hrd : s.ctrl.rdData = (s.pending.serve mem).2)

section Stage

variable (latency : BitVec 8) {s : HyperBus} {mem : DeviceMem} (i : HyperIn)

theorem step_idle (hs : s.ctrl.state = .idle) (hmem : s.dev.mem = mem) : Stage mem (s.step latency i) ∧
    ((s.accepted i = [] ∧ (s.step latency i).ctrl.state = .idle) ∨
      (s.accepted i = [(s.step latency i).pending] ∧ (s.step latency i).ctrl.state ≠ .idle)) := by
  rcases s with ⟨⟨state, c, lc, dc, rd, a, w, st, r, t⟩, dev⟩
  obtain rfl : state = .idle := hs
  have hca (word : BitVec 48) : Received dev.ca word 0 := fun j hj => absurd hj (Nat.not_lt_zero j)
  by_cases har : i.m.arvalid = true
  · refine ⟨.cmd ?_ ?_ rfl rfl (hca _) hmem, .inr ⟨?_, ?_⟩⟩
    all_goals simp [step, HyperCtrl.step, HyperCtrl.stateNext, accepted, pending, har]
  · by_cases haw : (i.m.awvalid && i.m.wvalid) = true
    · refine ⟨.cmd ?_ ?_ rfl rfl (hca _) hmem, .inr ⟨?_, ?_⟩⟩
      all_goals
        obtain ⟨hav, hwv⟩ := Bool.and_eq_true_iff.1 haw
        simp [step, HyperCtrl.step, HyperCtrl.stateNext, accepted, pending, har, hav, hwv]
    · refine ⟨.idle ?_ hmem, .inl ⟨?_, ?_⟩⟩
      all_goals simp [step, HyperCtrl.step, HyperCtrl.stateNext, accepted, har, haw]

/-- one byte of the command; after the sixth, the device has all of it -/
theorem step_cmd (hs : s.ctrl.state = .cmd) (hcnt : s.ctrl.cmdCnt.toNat ≤ 5) (hdata : s.ctrl.dataCnt = 0#4)
    (hrd : s.ctrl.rdData = 0) (hca : Received s.dev.ca s.ctrl.caWord s.ctrl.cmdCnt.toNat) (hmem : s.dev.mem = mem) :
    Stage mem (s.step latency i) := by
  rcases s with ⟨⟨state, c, lc, dc, rd, a, w, st, r, t⟩, dev⟩
  obtain rfl : state = .cmd := hs
  have hnext := received_succ hcnt hca
  have hdq : (⟨.cmd, c, lc, dc, rd, a, w, st, r, t⟩ : HyperCtrl).dqO =
      (⟨.cmd, c, lc, dc, rd, a, w, st, r, t⟩ : HyperCtrl).caWord.extractLsb' (8 * (5 - c.toNat)) 8 := if_pos hcnt
  rw [← hdq] at hnext
  by_cases hlast : c = 5#4
  · subst hlast
    exact .latency rfl hdata hrd (received_all hnext) rfl hmem
  · have hlt : c.toNat < 5 := Nat.lt_of_le_of_ne hcnt fun h => hlast (BitVec.eq_of_toNat_eq h)
    have hult : c.ult 5#4 = true := by simpa [BitVec.ult] using hlt
    have hadd : (c + 1).toNat = c.toNat + 1 := HyperRam.toNat_succ (by omega)
    refine .cmd ?_ ?_ hdata hrd ?_ hmem
    · simp [step, HyperCtrl.step, HyperCtrl.stateNext, hlast]
    · change (if c.ult 5#4 then c + 1 else c).toNat ≤ 5
      rw [if_pos hult, hadd]
      omega
    · change Received _ _ (if c.ult 5#4 then c + 1 else c).toNat
      rw [if_pos hult, hadd]
      exact hnext

theorem step_latency (hs : s.ctrl.state = .latency) (hdata : s.ctrl.dataCnt = 0#4) (hrd : s.ctrl.rdData = 0)
    (hca : s.dev.ca = s.ctrl.caWord) (hbeat : s.dev.beat = 0) (hmem : s.dev.mem = mem) :
    Stage mem (s.step latency i) := by
  rcases s with ⟨⟨state, c, lc, dc, rd, a, w, st, r, t⟩, dev⟩
  obtain rfl : state = .latency := hs
  obtain rfl : dc = 0#4 := hdata
  by_cases hover : (⟨.latency, c, lc, 0#4, rd, a, w, st, r, t⟩ : HyperCtrl).latencyOver = true
  · cases rd with
    | true =>
      refine .read 0 ?_ rfl (by decide) rfl hbeat hca hmem fun j hj => absurd hj (Nat.not_lt_zero j)
      exact if_pos hover
    | false =>
      refine .write 0 ?_ rfl (by decide) rfl hbeat hca hrd ?_
      · exact if_pos hover
      · rw [DeviceMem.write_zero]
        exact hmem
  · exact .latency (if_neg hover) rfl hrd hca hbeat hmem

theorem lane_eq {s : HyperCtrl} {n : ℕ} (hdata : s.dataCnt.toNat = n) (hn : n < 4) : s.lane = n := by
  rw [HyperCtrl.lane, BitVec.extractLsb'_toNat, hdata, Nat.shiftRight_zero]
  omega

theorem dataOver_eq {s : HyperCtrl} {n : ℕ} (hdata : s.dataCnt.toNat = n) (hn : n < 4) :
    s.dataOver = decide (n = 3) := by
  rw [HyperCtrl.dataOver, BitVec.ule, hdata, decide_eq_decide]
  change 3 ≤ n ↔ n = 3
  omega

theorem dataCnt_succ {s : HyperCtrl} {n : ℕ} (hdata : s.dataCnt.toNat = n) (hn : n < 4) :
    (s.dataCnt + 1).toNat = n + 1 := by
  rw [HyperRam.toNat_succ (by omega), hdata]

theorem step_read {n : ℕ} (hs : s.ctrl.state = .data) (hr : s.ctrl.isRead = true) (hn : n < 4)
    (hdata : s.ctrl.dataCnt.toNat = n) (hbeat : s.dev.beat = n) (hca : s.dev.ca = s.ctrl.caWord)
    (hmem : s.dev.mem = mem)
    (hrd : ∀ i < n, byteOf s.ctrl.rdData i = mem.byte s.ctrl.txnAddr i) : Stage mem (s.step latency i) := by
  have hover := dataOver_eq hdata hn
  have hlane := lane_eq hdata hn
  have hcnt := dataCnt_succ hdata hn
  have hdq : s.dev.dqI = mem.byte s.ctrl.txnAddr n := by rw [HyperDevice.dqI, HyperDevice.wordAddr_of hca, hmem, hbeat]
  have hread : s.dev.isRead = true := (HyperDevice.isRead_of hca).trans hr
  rcases s with ⟨⟨state, c, lc, dc, rd, a, w, st, r, t⟩, ca, beat, dev⟩
  obtain rfl : state = .data := hs
  obtain rfl : rd = true := hr
  have hbytes : ∀ j < n + 1, byteOf (HyperCtrl.capture ⟨.data, c, lc, dc, true, a, w, st, r, t⟩
      (HyperDevice.dqI ⟨ca, beat, dev⟩)) j = mem.byte a j := by
    intro j hj
    rw [HyperCtrl.byteOf_capture _ hlane hn (by omega), hdq]
    by_cases hjn : j = n
    · rw [if_pos hjn, hjn]
    · rw [if_neg hjn]
      exact hrd j (by omega)
  have hmem' : (HyperDevice.step ⟨ca, beat, dev⟩ .data (HyperCtrl.dqO ⟨.data, c, lc, dc, true, a, w, st, r, t⟩)
      (HyperCtrl.rwdsO ⟨.data, c, lc, dc, true, a, w, st, r, t⟩)).mem = mem := by
    simp only [HyperDevice.step, hread, Bool.not_true, Bool.false_and, Bool.false_eq_true, if_false]
    exact hmem
  by_cases hlast : n = 3
  · subst hlast
    refine .done ?_ hmem' ?_
    · simp [step, HyperCtrl.step, HyperCtrl.stateNext, hover]
    · refine eq_of_bytes fun j hj => (hbytes j hj).trans (mem.byteOf_word a hj).symm
  · refine .read (n + 1) ?_ rfl (by omega) hcnt (congrArg (· + 1) hbeat) hca hmem' hbytes
    simp [step, HyperCtrl.step, HyperCtrl.stateNext, hover, hlast]

theorem step_write {n : ℕ} (hs : s.ctrl.state = .data) (hr : s.ctrl.isRead = false) (hn : n < 4)
    (hdata : s.ctrl.dataCnt.toNat = n) (hbeat : s.dev.beat = n) (hca : s.dev.ca = s.ctrl.caWord)
    (hrd : s.ctrl.rdData = 0)
    (hmem : s.dev.mem = mem.write s.ctrl.txnAddr s.ctrl.wrData s.ctrl.wrStrb n) : Stage mem (s.step latency i) := by
  have hover := dataOver_eq hdata hn
  have hlane := lane_eq hdata hn
  have hcnt := dataCnt_succ hdata hn
  have haddr := HyperDevice.wordAddr_of hca
  have hread : s.dev.isRead = false := (HyperDevice.isRead_of hca).trans hr
  have hdq : s.ctrl.dqO = byteOf s.ctrl.wrData n := by simp [HyperCtrl.dqO, hs, hr, hlane, byteOf]
  have hrwds : s.ctrl.rwdsO = !s.ctrl.wrStrb.getLsbD n := by simp [HyperCtrl.rwdsO, hs, hr, hlane]
  have hmem' : (s.dev.step .data s.ctrl.dqO s.ctrl.rwdsO).mem =
      mem.write s.ctrl.txnAddr s.ctrl.wrData s.ctrl.wrStrb (n + 1) := by
    rw [DeviceMem.write_succ _ _ _ _ hn, ← hmem, ← hdq, ← haddr]
    simp only [HyperDevice.step, hread, hrwds, hbeat, Bool.not_false, Bool.not_not, Bool.true_and]
  rcases s with ⟨⟨state, c, lc, dc, rd, a, w, st, r, t⟩, ca, beat, dev⟩
  obtain rfl : state = .data := hs
  obtain rfl : rd = false := hr
  by_cases hlast : n = 3
  · subst hlast
    refine .done ?_ hmem' hrd
    simp [step, HyperCtrl.step, HyperCtrl.stateNext, hover]
  · refine .write (n + 1) ?_ rfl (by omega) hcnt (congrArg (· + 1) hbeat) hca hrd hmem'
    simp [step, HyperCtrl.step, HyperCtrl.stateNext, hover, hlast]

theorem step_done (hs : s.ctrl.state = .done) (hmem : s.dev.mem = (s.pending.serve mem).1)
    (hrd : s.ctrl.rdData = (s.pending.serve mem).2) :
    (s.answered i = [] ∧ (s.step latency i).ctrl.state ≠ .idle ∧ Stage mem (s.step latency i) ∧
      (s.step latency i).pending = s.pending) ∨
    (s.answered i = [(s.pending.serve mem).2] ∧ (s.step latency i).ctrl.state = .idle ∧
      (s.step latency i).dev.mem = (s.pending.serve mem).1) := by
  rw [← hrd]
  have hanswer : s.answered i =
      if (s.ctrl.isRead && i.m.rready) || (!s.ctrl.isRead && i.m.bready) then [s.ctrl.rdData] else [] := by
    simp [answered, HyperCtrl.response, hs]
  rcases s with ⟨⟨state, c, lc, dc, rd, a, w, st, r, t⟩, dev⟩
  obtain rfl : state = .done := hs
  rw [hanswer]
  by_cases hready : ((rd && i.m.rready) || (!rd && i.m.bready)) = true
  · refine .inr ⟨if_pos hready, ?_, hmem⟩
    cases rd <;> simpa [step, HyperCtrl.step, HyperCtrl.stateNext] using hready
  · have hstate : (HyperBus.step latency ⟨⟨.done, c, lc, dc, rd, a, w, st, r, t⟩, dev⟩ i).ctrl.state = .done := by
      cases rd <;> simpa [step, HyperCtrl.step, HyperCtrl.stateNext] using hready
    refine .inl ⟨if_neg hready, ?_, .done hstate hmem hrd, rfl⟩
    rw [hstate]
    decide

/-- a transaction under way keeps its registers, and no other one is accepted -/
theorem step_busy (hs : s.ctrl.state ≠ .idle) : s.accepted i = [] ∧ (s.step latency i).pending = s.pending := by
  rcases s with ⟨⟨state, c, lc, dc, rd, a, w, st, r, t⟩, dev⟩
  cases state with
  | idle => exact absurd rfl hs
  | cmd | latency | data | done => exact ⟨rfl, rfl⟩

theorem answered_of_ne (hs : s.ctrl.state ≠ .done) : s.answered i = [] := by
  simp [answered, HyperCtrl.response, hs]

theorem step_ne_idle (hs : s.ctrl.state ≠ .idle) (hd : s.ctrl.state ≠ .done) :
    (s.step latency i).ctrl.state ≠ .idle := by
  rcases s with ⟨⟨state, c, lc, dc, rd, a, w, st, r, t⟩, dev⟩
  change HyperCtrl.stateNext _ i.m ≠ .idle
  cases state with
  | idle => exact absurd rfl hs
  | done => exact absurd rfl hd
  | cmd | latency | data =>
    simp only [HyperCtrl.stateNext]
    split <;> decide

/-- the accepted access that has no answer yet -/
def underWay (s : HyperBus) : List PortOp := if s.ctrl.state = .idle then [] else [s.pending]

/-- **One cycle**: an access is accepted, or it goes on, or it is answered and done. -/
theorem step_stage (h : Stage mem s) :
    (s.accepted i = [] ∧ s.answered i = [] ∧ (s.step latency i).underWay = s.underWay ∧ Stage mem (s.step latency i)) ∨
    (∃ op, s.accepted i = [op] ∧ s.answered i = [] ∧ s.underWay = [] ∧ (s.step latency i).underWay = [op] ∧
      Stage mem (s.step latency i)) ∨
    (∃ op, s.accepted i = [] ∧ s.answered i = [(op.serve mem).2] ∧ s.underWay = [op] ∧
      (s.step latency i).underWay = [] ∧
      Stage (op.serve mem).1 (s.step latency i)) := by
  -- the states in which nothing happens at the port
  have hsilent (hs : s.ctrl.state ≠ .idle) (hd : s.ctrl.state ≠ .done) (hnext : Stage mem (s.step latency i)) :
      s.accepted i = [] ∧ s.answered i = [] ∧ (s.step latency i).underWay = s.underWay ∧
        Stage mem (s.step latency i) := by
    obtain ⟨haccept, hpending⟩ := step_busy latency i hs
    refine ⟨haccept, answered_of_ne i hd, ?_, hnext⟩
    rw [underWay, underWay, if_neg (step_ne_idle latency i hs hd), if_neg hs, hpending]
  cases h with
  | idle hs hmem =>
    have hanswer : s.answered i = [] := answered_of_ne i (by rw [hs]; decide)
    have hnone : s.underWay = [] := if_pos hs
    obtain ⟨hstage, ⟨haccept, hidle⟩ | ⟨haccept, hbusy⟩⟩ := step_idle latency i hs hmem
    · exact .inl ⟨haccept, hanswer, (if_pos hidle).trans hnone.symm, hstage⟩
    · exact .inr (.inl ⟨_, haccept, hanswer, hnone, if_neg hbusy, hstage⟩)
  | cmd hs hcnt hdata hrd hca hmem =>
    exact .inl (hsilent (by rw [hs]; decide) (by rw [hs]; decide) (step_cmd latency i hs hcnt hdata hrd hca hmem))
  | latency hs hdata hrd hca hbeat hmem =>
    exact .inl (hsilent (by rw [hs]; decide) (by rw [hs]; decide) (step_latency latency i hs hdata hrd hca hbeat hmem))
  | read n hs hr hn hdata hbeat hca hmem hrd =>
    exact .inl (hsilent (by rw [hs]; decide) (by rw [hs]; decide)
      (step_read latency i hs hr hn hdata hbeat hca hmem hrd))
  | write n hs hr hn hdata hbeat hca hrd hmem =>
    exact .inl (hsilent (by rw [hs]; decide) (by rw [hs]; decide)
      (step_write latency i hs hr hn hdata hbeat hca hrd hmem))
  | done hs hmem hrd =>
    have hne : s.ctrl.state ≠ .idle := by
      rw [hs]
      decide
    have haccept := (step_busy latency i hne).1
    rcases step_done latency i hs hmem hrd with ⟨hanswer, hbusy, hstage, hpending⟩ | ⟨hanswer, hidle, hmem'⟩
    · refine .inl ⟨haccept, hanswer, ?_, hstage⟩
      rw [underWay, underWay, if_neg hbusy, if_neg hne, hpending]
    · exact .inr (.inr ⟨s.pending, haccept, hanswer, if_neg hne, if_pos hidle, .idle hidle hmem'⟩)

end Stage

section Run

variable (latency : BitVec 8) (mem : DeviceMem) (ins : ℕ → HyperIn)

def after (n : ℕ) : HyperBus := Machine.trace (step latency) (reset mem) ins n

/-- the accesses accepted before cycle `n` -/
def acceptLog (n : ℕ) : List PortOp := Machine.log accepted (step latency) (reset mem) ins n

/-- the answers before cycle `n` -/
def answerLog (n : ℕ) : List Word := Machine.log answered (step latency) (reset mem) ins n

theorem stage_reset : Stage mem (reset mem) := .idle rfl rfl

/-- **In every run**, the answers are those of the accepted accesses, each on the contents that the ones before it have
left; all but the last are answered, and that one too when the controller is idle. -/
theorem run_serves (n : ℕ) : ∃ ops, acceptLog latency mem ins n = ops ++ (after latency mem ins n).underWay ∧
    answerLog latency mem ins n = (PortOp.serveRun mem ops).2 ∧
      Stage (PortOp.serveRun mem ops).1 (after latency mem ins n) := by
  induction n with
  | zero => exact ⟨[], rfl, rfl, stage_reset mem⟩
  | succ n ih =>
    obtain ⟨ops, haccept, hanswer, hstage⟩ := ih
    have hlog : acceptLog latency mem ins (n + 1) =
      acceptLog latency mem ins n ++ (after latency mem ins n).accepted (ins n) := rfl
    have hlog' : answerLog latency mem ins (n + 1) =
      answerLog latency mem ins n ++ (after latency mem ins n).answered (ins n) := rfl
    have hstep : after latency mem ins (n + 1) = (after latency mem ins n).step latency (ins n) := rfl
    rw [hlog, hlog', hstep, haccept, hanswer]
    rcases step_stage latency (ins n) hstage with ⟨ha, hb, hsame, hnext⟩ | ⟨op, ha, hb, hnone, hone, hnext⟩ |
      ⟨op, ha, hb, hone, hnone, hnext⟩
    · refine ⟨ops, ?_, ?_, hnext⟩
      · rw [ha, hsame, List.append_nil]
      · rw [hb, List.append_nil]
    · refine ⟨ops, ?_, ?_, hnext⟩
      · rw [ha, hone, hnone, List.append_nil]
      · rw [hb, List.append_nil]
    · refine ⟨ops ++ [op], ?_, ?_, ?_⟩
      · rw [ha, hone, hnone]
      · rw [hb, PortOp.serveRun_append]
        rfl
      · rw [PortOp.serveRun_append]
        exact hnext

end Run

/-! ## Every transaction ends -/

/-- the latency counter starts at 0, and after the first cycle runs against the latency of this transaction -/
structure Counts (latency : BitVec 8) (s : HyperBus) : Prop where
  cmd : s.ctrl.state = .cmd → s.ctrl.latCnt = 0
  latency : s.ctrl.state = .latency → s.ctrl.latCnt ≠ 0 → s.ctrl.latTotal = latency ∨ s.ctrl.latTotal = latency * 2

theorem counts_step {latency : BitVec 8} {s : HyperBus} (h : Counts latency s) (i : HyperIn) :
    Counts latency (s.step latency i) := by
  obtain ⟨hcmd, hlatency⟩ := h
  rcases s with ⟨⟨state, c, lc, dc, rd, a, w, st, r, t⟩, dev⟩
  cases state with
  | idle => exact ⟨fun _ => rfl, fun _ hne => absurd rfl hne⟩
  | cmd => exact ⟨fun _ => hcmd rfl, fun _ hne => absurd (hcmd rfl) hne⟩
  | latency =>
    refine ⟨fun hs => ?_, fun _ _ => ?_⟩
    · have hnext : (if HyperCtrl.latencyOver ⟨.latency, c, lc, dc, rd, a, w, st, r, t⟩ then HyperState.data
          else .latency) = .cmd := hs
      split at hnext <;> exact HyperState.noConfusion hnext
    · change (if lc = 0 then (if i.rwds then latency * 2 else latency) else t) = latency ∨
        (if lc = 0 then (if i.rwds then latency * 2 else latency) else t) = latency * 2
      by_cases hzero : lc = 0
      · rw [if_pos hzero]
        cases i.rwds with
        | false => exact .inl rfl
        | true => exact .inr rfl
      · rw [if_neg hzero]
        exact hlatency rfl hzero
  | data =>
    refine ⟨fun hs => ?_, fun hs => ?_⟩
    all_goals
      have hnext := hs
      simp only [step, HyperCtrl.step, HyperCtrl.stateNext] at hnext
      split at hnext <;> exact HyperState.noConfusion hnext
  | done =>
    refine ⟨fun hs => ?_, fun hs => ?_⟩
    all_goals
      have hnext := hs
      simp only [step, HyperCtrl.step, HyperCtrl.stateNext] at hnext
      split at hnext <;> split at hnext <;> exact HyperState.noConfusion hnext

/-- an upper bound of the cycles to the end of the transaction -/
def rank (s : HyperBus) : ℕ :=
  match s.ctrl.state with
  | .idle => 0
  | .done => 1
  | .data => 8 - s.ctrl.dataCnt.toNat
  | .latency => if s.ctrl.latCnt = 0 then 300 else 270 - s.ctrl.latCnt.toNat
  | .cmd => 310 - s.ctrl.cmdCnt.toNat

theorem latencyOver_iff {c : HyperCtrl} (h : 0 < c.latTotal.toNat) :
    c.latencyOver = true ↔ c.latTotal.toNat ≤ c.latCnt.toNat + 1 :=
  @HyperRam.latencyOver_iff ⟨c.state, c.cmdCnt, c.latCnt, c.dataCnt, c.isRead, c.txnAddr, c.wrData, c.wrStrb, c.rdData,
    c.latTotal, fun _ => 0⟩ h

section Rank

variable {latency : BitVec 8} {s : HyperBus} {mem : DeviceMem} {i : HyperIn}

theorem rank_cmd (hs : s.ctrl.state = .cmd) (hcnt : s.ctrl.cmdCnt.toNat ≤ 5) (hc : Counts latency s) :
    rank (s.step latency i) < rank s := by
  have hzero := hc.cmd hs
  rcases s with ⟨⟨state, c, lc, dc, rd, a, w, st, r, t⟩, dev⟩
  obtain rfl : state = .cmd := hs
  obtain rfl : lc = 0 := hzero
  by_cases hlast : c = 5#4
  · subst hlast
    simp [rank, step, HyperCtrl.step, HyperCtrl.stateNext]
  · have hlt : c.toNat < 5 := Nat.lt_of_le_of_ne hcnt fun h => hlast (BitVec.eq_of_toNat_eq h)
    have hult : c.ult 5#4 = true := by simpa [BitVec.ult] using hlt
    have hadd : (c + 1).toNat = c.toNat + 1 := HyperRam.toNat_succ (by omega)
    have hrank : rank (HyperBus.step latency ⟨⟨.cmd, c, 0, dc, rd, a, w, st, r, t⟩, dev⟩ i) = 310 - (c + 1).toNat := by
      simp [rank, step, HyperCtrl.step, HyperCtrl.stateNext, hlast, hult]
    rw [hrank, hadd]
    change 310 - (c.toNat + 1) < 310 - c.toNat
    omega

theorem rank_latency (hlat : 2 ≤ latency.toNat ∧ latency.toNat ≤ 127) (hs : s.ctrl.state = .latency)
    (hdata : s.ctrl.dataCnt = 0#4) (hc : Counts latency s) : rank (s.step latency i) < rank s := by
  have htotal := hc.latency hs
  rcases s with ⟨⟨state, c, lc, dc, rd, a, w, st, r, t⟩, dev⟩
  obtain rfl : state = .latency := hs
  obtain rfl : dc = 0#4 := hdata
  have hlt := lc.isLt
  have hrank : rank (HyperBus.step latency ⟨⟨.latency, c, lc, 0#4, rd, a, w, st, r, t⟩, dev⟩ i) =
      if HyperCtrl.latencyOver ⟨.latency, c, lc, 0#4, rd, a, w, st, r, t⟩ then 8
      else if lc + 1 = 0 then 300 else 270 - (lc + 1).toNat := by
    cases hover : HyperCtrl.latencyOver ⟨.latency, c, lc, 0#4, rd, a, w, st, r, t⟩ <;>
      simp [rank, step, HyperCtrl.step, HyperCtrl.stateNext, hover]
  have hbefore : rank ⟨⟨.latency, c, lc, 0#4, rd, a, w, st, r, t⟩, dev⟩ = if lc = 0 then 300 else 270 - lc.toNat := rfl
  rw [hrank, hbefore]
  by_cases hzero : lc = 0
  · subst hzero
    split <;> decide
  · have htwice : (latency * 2).toNat = latency.toNat * 2 := by
      rw [BitVec.toNat_mul]
      exact Nat.mod_eq_of_lt (by change latency.toNat * 2 < 256; omega)
    have hpos : 0 < t.toNat := by
      rcases htotal hzero with h | h
      · rw [show t = latency from h]
        omega
      · rw [show t = latency * 2 from h, htwice]
        omega
    rw [if_neg hzero]
    by_cases hover : HyperCtrl.latencyOver ⟨.latency, c, lc, 0#4, rd, a, w, st, r, t⟩ = true
    · rw [if_pos hover]
      omega
    · have hmore : ¬ t.toNat ≤ lc.toNat + 1 := fun h => hover ((latencyOver_iff hpos).2 h)
      have ht := t.isLt
      have hadd : (lc + 1).toNat = lc.toNat + 1 := HyperRam.toNat_succ (by omega)
      have hne : lc + 1 ≠ 0 := by
        intro h
        rw [h] at hadd
        exact absurd hadd (by simp)
      rw [if_neg hover, if_neg hne, hadd]
      omega

theorem rank_data {n : ℕ} (hs : s.ctrl.state = .data) (hn : n < 4) (hdata : s.ctrl.dataCnt.toNat = n) :
    rank (s.step latency i) < rank s := by
  have hover := dataOver_eq hdata hn
  have hcnt := dataCnt_succ hdata hn
  rcases s with ⟨⟨state, c, lc, dc, rd, a, w, st, r, t⟩, dev⟩
  obtain rfl : state = .data := hs
  have hbefore : rank ⟨⟨.data, c, lc, dc, rd, a, w, st, r, t⟩, dev⟩ = 8 - dc.toNat := rfl
  have hdc : dc.toNat = n := hdata
  rw [hbefore, hdc]
  by_cases hlast : n = 3
  · subst hlast
    have hrank : rank (HyperBus.step latency ⟨⟨.data, c, lc, dc, rd, a, w, st, r, t⟩, dev⟩ i) = 1 := by
      simp [rank, step, HyperCtrl.step, HyperCtrl.stateNext, hover]
    rw [hrank]
    decide
  · have hrank : rank (HyperBus.step latency ⟨⟨.data, c, lc, dc, rd, a, w, st, r, t⟩, dev⟩ i) = 8 - (n + 1) := by
      simp only [rank, step, HyperCtrl.step, HyperCtrl.stateNext, hover, decide_eq_false hlast, Bool.false_eq_true,
        if_false]
      exact congrArg (8 - ·) hcnt
    rw [hrank]
    omega

theorem rank_done (hs : s.ctrl.state = .done) (hr : i.m.rready = true) (hb : i.m.bready = true) :
    rank (s.step latency i) < rank s := by
  rcases s with ⟨⟨state, c, lc, dc, rd, a, w, st, r, t⟩, dev⟩
  obtain rfl : state = .done := hs
  cases rd <;> simp [rank, step, HyperCtrl.step, HyperCtrl.stateNext, hr, hb]

theorem rank_step (hlat : 2 ≤ latency.toNat ∧ latency.toNat ≤ 127) (h : Stage mem s) (hc : Counts latency s)
    (hr : i.m.rready = true) (hb : i.m.bready = true) (hne : s.ctrl.state ≠ .idle) :
    rank (s.step latency i) < rank s := by
  cases h with
  | idle hs => exact absurd hs hne
  | cmd hs hcnt => exact rank_cmd hs hcnt hc
  | latency hs hdata => exact rank_latency hlat hs hdata hc
  | read n hs _ hn hdata => exact rank_data hs hn hdata
  | write n hs _ hn hdata => exact rank_data hs hn hdata
  | done hs => exact rank_done hs hr hb

theorem stage_next (h : Stage mem s) (i : HyperIn) : ∃ mem', Stage mem' (s.step latency i) := by
  rcases step_stage latency i h with ⟨-, -, -, hnext⟩ | ⟨_, -, -, -, -, hnext⟩ | ⟨_, -, -, -, -, hnext⟩ <;>
    exact ⟨_, hnext⟩

/-- **Every transaction ends**: with the responses taken, the controller is idle again, whatever else the inputs are. -/
theorem reaches_idle (hlat : 2 ≤ latency.toNat ∧ latency.toNat ≤ 127) (h : Stage mem s) (hc : Counts latency s)
    (ins : ℕ → HyperIn) (hready : ∀ k, (ins k).m.rready = true ∧ (ins k).m.bready = true) :
    ∃ n, (Machine.trace (step latency) s ins n).ctrl.state = .idle := by
  refine Machine.trace_reaches_of (P := fun t => (∃ mem, Stage mem t) ∧ Counts latency t)
    (G := fun t => t.ctrl.state = .idle)
    (C := fun (_ : HyperBus) (i : HyperIn) => i.m.rready = true ∧ i.m.bready = true) (step latency) s ins rank ?_
      ⟨⟨mem, h⟩, hc⟩ hready
  rintro t i ⟨⟨mem', ht⟩, htc⟩ ⟨hr, hb⟩
  by_cases hidle : t.ctrl.state = .idle
  · exact .inl hidle
  · exact .inr ⟨⟨stage_next ht i, counts_step htc i⟩, rank_step hlat ht htc hr hb hidle⟩

end Rank

theorem counts_after (latency : BitVec 8) (mem : DeviceMem) (ins : ℕ → HyperIn) (n : ℕ) :
    Counts latency (after latency mem ins n) := by
  induction n with
  | zero => exact ⟨fun h => HyperState.noConfusion h, fun h => HyperState.noConfusion h⟩
  | succ n ih => exact counts_step ih (ins n)

theorem run_idle {latency : BitVec 8} (hlat : 2 ≤ latency.toNat ∧ latency.toNat ≤ 127) (mem : DeviceMem)
    (ins : ℕ → HyperIn) (n : ℕ) (hready : ∀ k ≥ n, (ins k).m.rready = true ∧ (ins k).m.bready = true) :
    ∃ m ≥ n, (after latency mem ins m).ctrl.state = .idle := by
  obtain ⟨_, -, -, hstage⟩ := run_serves latency mem ins n
  obtain ⟨m, hm⟩ := reaches_idle hlat hstage (counts_after latency mem ins n) (fun k => ins (n + k))
    fun k => hready (n + k) (by omega)
  refine ⟨n + m, by omega, ?_⟩
  rw [after, Machine.trace_add]
  exact hm

end HyperBus

end Vsync
