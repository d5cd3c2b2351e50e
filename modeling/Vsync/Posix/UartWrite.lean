/-
`write` of `vsync_posix.c` on a UART descriptor: the loop of the library, the write path of `posix_hw_layer`, the bridge
of its peripheral port, and the UART.

- `Writer`: the loop; between two syscalls it runs for any number of cycles.
- `Stage`, `At`: the eight stages of one byte.
- `write_accepts_iff`: `write` returns `count`, and the bytes in the FIFO are those of the buffer exactly if the FIFO
  has room at every write of `TX_DATA`.
- `byte_dropped`: a byte that is written to a full FIFO.
-/
import Vsync.Bus.SharedApb
import Vsync.Bus.Uart
import Vsync.Posix.CallHandshake

namespace Vsync

/-! ## The library -/

/-- in the code of the loop, in a syscall, or back in the caller -/
inductive WriterPhase where
  | code
  | ecall
  | returned (ret : Word)
  deriving DecidableEq, Repr

/-- `write(fd, buf, count)`; `rest` is `buf[i..count-1]` -/
structure Writer where
  fd : Word
  rest : List (BitVec 8)
  count : Word
  phase : WriterPhase
  deriving DecidableEq, Repr

namespace Writer

def start (fd : Word) (buf : List (BitVec 8)) : Writer := ⟨fd, buf, BitVec.ofNat 32 buf.length, .code⟩

/-- `syscall3(SYS_WRITE, fd, p[i], 1)` -/
def call (w : Writer) : Syscall := ⟨0x53, w.fd, (w.rest.headD 0).setWidth 32, 1⟩

/-- one cycle; `go` ends the code between two syscalls, `done` is `syscall_done` with `syscall_ret` -/
def step (w : Writer) (go : Bool) (done : Option Word) : Writer :=
  match w.phase with
  | .code =>
    if go then
      match w.rest with
      | [] => { w with phase := .returned w.count }
      | _ :: _ => { w with phase := .ecall }
    else w
  | .ecall =>
    match done with
    | none => w
    | some ret =>
      if ret.slt 0 then { w with phase := .returned ret } else { w with rest := w.rest.tail, phase := .code }
  | .returned _ => w

end Writer

/-! ## The system -/

structure UartWrite where
  writer : Writer
  posix : PosixLayer
  apb : SharedApb
  uart : Uart

/-- the other inputs; the syscall and peripheral lines of `posix` and the data of the UART are not looked at -/
structure UartWriteIn where
  go : Bool
  posix : PosixIn
  prdata : Peripheral → Word
  uartRx : Bool

namespace UartWrite

open Machine

section Step

variable (s : UartWrite) (i : UartWriteIn)

def periphRequest : PeriphRequest :=
  match s.posix.periphReq with
  | some q => ⟨!q.write, q.write, q.addr, q.wdata⟩
  | none => ⟨false, false, 0, 0⟩

def uartIn : UartIn where
  psel := Peripheral.selects s.apb.lines .uart
  penable := s.apb.lines.penable
  pwrite := s.apb.lines.pwrite
  paddr := s.apb.lines.paddr.setWidth 8
  pwdata := s.apb.lines.pwdata
  uartRx := i.uartRx

/-- the bus; the core, in the loop or in a syscall, sends nothing to the AXI-APB bridge -/
def sharedIn : SharedIn where
  req := Axi.Lines.quiet ⟨0, 0, 0⟩
  posix := s.periphRequest
  prdata := fun p => if p = .uart then s.uart.prdata (s.uartIn i) else i.prdata p

def posixIn : PosixIn :=
  { i.posix with
    ecallReq := s.writer.phase == .ecall
    syscallNum := s.writer.call.num
    syscallArg0 := s.writer.call.arg0
    syscallArg1 := s.writer.call.arg1
    syscallArg2 := s.writer.call.arg2
    periphRdata := s.apb.periphRdata (s.sharedIn i)
    periphReady := s.apb.periph.ready }

def step : UartWrite where
  writer := s.writer.step i.go s.posix.syscallDone
  posix := s.posix.step (s.posixIn i)
  apb := s.apb.step (s.sharedIn i)
  uart := s.uart.step (s.uartIn i)

def offered : List (BitVec 8) := (s.uartIn i).txPush.toList

def accepted : List (BitVec 8) := s.uart.tx.fifo.accepted (s.uartIn i).txPush

end Step

/-- the descriptor is open, on the UART -/
structure OpenUart (p : PosixLayer) (fd : Word) : Prop where
  lt : fd.toNat < 16
  valid : (p.fd (lowId 16 fd)).valid = true
  fdType : (p.fd (lowId 16 fd)).fdType = Posix.FD_TYPE_UART
  base : (p.fd (lowId 16 fd)).baseAddr = Posix.getDeviceBase (p.fd (lowId 16 fd)).fdType

/-- an entry in use has the base address of its type -/
def Bases (p : PosixLayer) : Prop := ∀ k, (p.fd k).valid = true →
  (p.fd k).baseAddr = Posix.getDeviceBase (p.fd k).fdType

theorem fdNext_cases (p : PosixLayer) : p.fdNext = p.fd ∨ ∃ j e, p.fdNext = Function.update p.fd j e ∧
    (e.valid = true → e.baseAddr = Posix.getDeviceBase e.fdType) := by
  obtain ⟨f, hf⟩ : ∃ f, p.fdNext = f := ⟨_, rfl⟩
  rw [hf]
  unfold PosixLayer.fdNext at hf
  split at hf
  · split at hf
    · split at hf
      · exact .inr ⟨_, _, hf.symm, fun _ => rfl⟩
      · exact .inl hf.symm
    · split at hf
      · exact .inr ⟨_, _, hf.symm, fun h => Bool.noConfusion h⟩
      · exact .inl hf.symm
    · exact .inl hf.symm
  · exact .inl hf.symm

theorem bases_step {p : PosixLayer} (h : Bases p) (i : PosixIn) : Bases (p.step i) := by
  intro k hvalid
  change (p.fdNext k).valid = true at hvalid
  change (p.fdNext k).baseAddr = Posix.getDeviceBase (p.fdNext k).fdType
  rcases fdNext_cases p with hsame | ⟨j, e, hnext, he⟩
  · rw [hsame] at hvalid ⊢
    exact h k hvalid
  · rw [hnext] at hvalid ⊢
    by_cases hk : k = j
    · subst hk
      rw [Function.update_self] at hvalid ⊢
      exact he hvalid
    · rw [Function.update_of_ne hk] at hvalid ⊢
      exact h k hvalid

/-- in every run of the layer a descriptor that is valid and of the type is open on the UART -/
theorem openUart_of_run (ins : ℕ → PosixIn) (n : ℕ) {fd : Word} (hlt : fd.toNat < 16)
    (hvalid : ((trace PosixLayer.step PosixLayer.reset ins n).fd (lowId 16 fd)).valid = true)
    (htype : ((trace PosixLayer.step PosixLayer.reset ins n).fd (lowId 16 fd)).fdType = Posix.FD_TYPE_UART) :
    OpenUart (trace PosixLayer.step PosixLayer.reset ins n) fd := by
  have hbases : Bases PosixLayer.reset := by
    intro k _
    fin_cases k <;> rfl
  exact ⟨hlt, hvalid, htype, trace_inv PosixLayer.step _ ins hbases (fun _ i h => bases_step h i) n _ hvalid⟩

/-- `write` is called while nothing else is going on -/
structure Called (fd : Word) (buf : List (BitVec 8)) (s : UartWrite) : Prop where
  writer : s.writer = Writer.start fd buf
  posix : s.posix.state = .idle
  periph : s.apb.periph.state = .idle
  bridge : s.apb.bridge.state = .idle
  isOpen : OpenUart s.posix fd

/-! ## The stages of a byte -/

inductive Stage where
  | code
  | asked
  | decode
  | fileOp
  | setup
  | access
  | done
  | complete
  | returned
  deriving DecidableEq, Repr

namespace Stage

def posix : Stage → PosixState
  | code => .idle
  | asked => .idle
  | decode => .decode
  | fileOp => .fileOp
  | setup => .periphWait
  | access => .periphWait
  | done => .periphWait
  | complete => .complete
  | returned => .idle

def periph : Stage → PeriphState
  | setup => .setup
  | access => .access
  | done => .done
  | _ => .idle

def Latched (st : Stage) : Prop := st ≠ code ∧ st ≠ asked ∧ st ≠ returned

def pending (st : Stage) (rest : List (BitVec 8)) : List (BitVec 8) :=
  match st with
  | done => rest.tail
  | complete => rest.tail
  | _ => rest

end Stage

structure At (fd : Word) (st : Stage) (s : UartWrite) : Prop where
  writerFd : s.writer.fd = fd
  phase : s.writer.phase = if st = .code then .code else if st = .returned then .returned s.writer.count else .ecall
  rest : st ≠ .code → (s.writer.rest = [] ↔ st = .returned)
  posix : s.posix.state = st.posix
  periph : s.apb.periph.state = st.periph
  bridge : s.apb.bridge.state = .idle
  isOpen : OpenUart s.posix fd
  latched : st.Latched → s.posix.latched = s.writer.call
  held : st = .setup ∨ st = .access → s.apb.periph.transfer = ⟨Posix.ADDR_UART_BASE, true, s.writer.call.arg1⟩
  result : st = .complete → s.posix.result = 0

section Cycle

variable {s : UartWrite} {i : UartWriteIn} {fd : Word} {st : Stage}

theorem bridge_stays (h : s.apb.bridge.state = .idle) : (s.step i).apb.bridge.state = .idle := by
  change s.apb.bridge.stateNext _ _ = .idle
  simp [ApbBridge.stateNext, h, sharedIn, Axi.Lines.quiet]

theorem isOpen_stays (h : OpenUart s.posix fd) (hs : s.posix.state ≠ .fileOp ∨ s.posix.num = 0x53) :
    OpenUart (s.step i).posix fd := by
  have hfd : (s.step i).posix.fd = s.posix.fd := by
    change s.posix.fdNext = s.posix.fd
    rcases hs with hs | hnum
    · simp [PosixLayer.fdNext, hs]
    · simp [PosixLayer.fdNext, PosixLayer.subop, hnum]
  obtain ⟨hlt, hvalid, htype, hbase⟩ := h
  exact ⟨hlt, by rw [hfd]; exact hvalid, by rw [hfd]; exact htype, by rw [hfd]; exact hbase⟩

theorem latched_stays (h : s.posix.state ≠ .idle) : (s.step i).posix.latched = s.posix.latched := by
  simp [step, PosixLayer.step, PosixLayer.latched, PosixLayer.latches, h]

theorem writer_waits (h : s.writer.phase = .ecall) (hs : s.posix.state ≠ .complete) : (s.step i).writer = s.writer := by
  have hdone : s.posix.syscallDone = none := by simp [PosixLayer.syscallDone, hs]
  simp [step, Writer.step, h, hdone]

theorem periph_waits (h : s.apb.periph.state = .idle) (hq : s.posix.periphReq = none) :
    (s.step i).apb.periph.state = .idle := by
  change s.apb.periph.stateNext _ _ = .idle
  simp [PeriphBridge.stateNext, h, sharedIn, periphRequest, hq]

theorem At.ecall (h : At fd st s) (hst : st.Latched) : s.writer.phase = .ecall := by
  rw [h.phase, if_neg hst.1, if_neg hst.2.2]

theorem At.num (h : At fd st s) (hst : st.Latched) : s.posix.num = 0x53 :=
  congrArg Syscall.num (h.latched hst)

theorem At.arg0 (h : At fd st s) (hst : st.Latched) : s.posix.arg0 = fd :=
  (congrArg Syscall.arg0 (h.latched hst)).trans h.writerFd

theorem At.arg1 (h : At fd st s) (hst : st.Latched) : s.posix.arg1 = s.writer.call.arg1 :=
  congrArg Syscall.arg1 (h.latched hst)

theorem At.writer_next (h : At fd st s) (hst : st.Latched) (hc : st ≠ .complete) : (s.step i).writer = s.writer := by
  apply writer_waits (h.ecall hst)
  rw [h.posix]
  cases st <;> simp [Stage.posix, Stage.Latched] at hst hc ⊢

/-- a latched stage goes to the next one: the library, the descriptor and the latches stay -/
theorem at_next (h : At fd st s) (hst : st.Latched) (hc : st ≠ .complete) {st' : Stage} (hst' : st'.Latched)
    (hposix : (s.step i).posix.state = st'.posix) (hperiph : (s.step i).apb.periph.state = st'.periph)
    (hheld : st' = .setup ∨ st' = .access →
      (s.step i).apb.periph.transfer = ⟨Posix.ADDR_UART_BASE, true, s.writer.call.arg1⟩)
    (hresult : st' = .complete → (s.step i).posix.result = 0) : At fd st' (s.step i) := by
  have hidle : s.posix.state ≠ .idle := by
    rw [h.posix]
    cases st <;> simp [Stage.posix, Stage.Latched] at hst ⊢
  have hwriter : (s.step i).writer = s.writer := h.writer_next hst hc
  refine ⟨?_, ?_, ?_, hposix, hperiph, bridge_stays h.bridge, isOpen_stays h.isOpen (.inr (h.num hst)), ?_, ?_, hresult⟩
  · rw [hwriter, h.writerFd]
  · rw [hwriter, h.ecall hst, if_neg hst'.1, if_neg hst'.2.2]
  · intro _
    rw [hwriter, h.rest hst.1]
    exact iff_of_false hst.2.2 hst'.2.2
  · intro _
    rw [latched_stays hidle, h.latched hst, hwriter]
  · intro hbus
    rw [hheld hbus, hwriter]

theorem at_code (h : At fd .code s) (hgo : i.go = false) : At fd .code (s.step i) ∧ (s.step i).writer = s.writer := by
  have hphase : s.writer.phase = .code := by simpa using h.phase
  have hposix : s.posix.state = .idle := h.posix
  have hwriter : (s.step i).writer = s.writer := by simp [step, Writer.step, hphase, hgo]
  have hstate : (s.step i).posix.state = .idle := by
    simp [step, PosixLayer.step, PosixLayer.stateNext, posixIn, hposix, hphase]
  have hreq : s.posix.periphReq = none := by simp [PosixLayer.periphReq, hposix]
  refine ⟨⟨?_, ?_, fun hne => absurd rfl hne, hstate, periph_waits h.periph hreq, bridge_stays h.bridge,
    isOpen_stays h.isOpen (.inl (by simp [hposix])), ?_, ?_, ?_⟩, hwriter⟩
  · rw [hwriter, h.writerFd]
  · rw [hwriter, h.phase]
  · exact fun hl => absurd rfl hl.1
  · exact fun hb => by rcases hb with hb | hb <;> exact Stage.noConfusion hb
  · exact fun hb => Stage.noConfusion hb

/-- the code of the loop ends in a syscall or in the caller -/
theorem at_go (h : At fd .code s) (hgo : i.go = true) :
    At fd (if s.writer.rest = [] then .returned else .asked) (s.step i) ∧ (s.step i).writer.rest = s.writer.rest ∧
      (s.step i).writer.count = s.writer.count := by
  have hphase : s.writer.phase = .code := by simpa using h.phase
  have hposix : s.posix.state = .idle := h.posix
  have hstate : (s.step i).posix.state = .idle := by
    simp [step, PosixLayer.step, PosixLayer.stateNext, posixIn, hposix, hphase]
  have hreq : s.posix.periphReq = none := by simp [PosixLayer.periphReq, hposix]
  have hperiph : (s.step i).apb.periph.state = .idle := periph_waits h.periph hreq
  have hopen : OpenUart (s.step i).posix fd := isOpen_stays h.isOpen (.inl (by simp [hposix]))
  have hfd := h.writerFd
  rcases hw : s.writer with ⟨wfd, rest, count, phase⟩
  rw [hw] at hphase hfd
  obtain rfl : phase = .code := hphase
  obtain rfl : wfd = fd := hfd
  cases rest with
  | nil =>
    have hwriter : (s.step i).writer = ⟨wfd, [], count, .returned count⟩ := by
      simp [step, Writer.step, hw, hgo]
    rw [if_pos rfl, hwriter]
    refine ⟨⟨?_, ?_, ?_, hstate, hperiph, bridge_stays h.bridge, hopen, ?_, ?_, ?_⟩, rfl, rfl⟩
    · rw [hwriter]
    · rw [hwriter]
      rfl
    · intro _
      simp [hwriter]
    · exact fun hl => absurd rfl hl.2.2
    · exact fun hb => by rcases hb with hb | hb <;> exact Stage.noConfusion hb
    · exact fun hb => Stage.noConfusion hb
  | cons b bs =>
    have hwriter : (s.step i).writer = ⟨wfd, b :: bs, count, .ecall⟩ := by
      simp [step, Writer.step, hw, hgo]
    rw [if_neg (List.cons_ne_nil b bs), hwriter]
    refine ⟨⟨?_, ?_, ?_, hstate, hperiph, bridge_stays h.bridge, hopen, ?_, ?_, ?_⟩, rfl, rfl⟩
    · rw [hwriter]
    · rw [hwriter]
      rfl
    · intro _
      simp [hwriter]
    · exact fun hl => absurd rfl hl.2.1
    · exact fun hb => by rcases hb with hb | hb <;> exact Stage.noConfusion hb
    · exact fun hb => Stage.noConfusion hb

theorem at_asked (h : At fd .asked s) : At fd .decode (s.step i) ∧ (s.step i).writer = s.writer := by
  have hphase : s.writer.phase = .ecall := by simpa using h.phase
  have hposix : s.posix.state = .idle := h.posix
  have hwriter : (s.step i).writer = s.writer := writer_waits hphase (by simp [hposix])
  have hreq : s.posix.periphReq = none := by simp [PosixLayer.periphReq, hposix]
  refine ⟨⟨?_, ?_, ?_, ?_, periph_waits h.periph hreq, bridge_stays h.bridge,
    isOpen_stays h.isOpen (.inl (by simp [hposix])), ?_, ?_, ?_⟩, hwriter⟩
  · rw [hwriter, h.writerFd]
  · rw [hwriter, hphase]
    rfl
  · intro _
    rw [hwriter, h.rest (by decide)]
    decide
  · simp [step, PosixLayer.step, PosixLayer.stateNext, posixIn, hposix, hphase, Stage.posix]
  · intro _
    rw [hwriter]
    simp [step, PosixLayer.step, PosixLayer.latched, PosixLayer.latches, posixIn, hposix, hphase]
  · exact fun hb => by rcases hb with hb | hb <;> exact Stage.noConfusion hb
  · exact fun hb => Stage.noConfusion hb

theorem at_decode (h : At fd .decode s) : At fd .fileOp (s.step i) := by
  have hl : Stage.Latched .decode := by simp [Stage.Latched]
  have hposix : s.posix.state = .decode := h.posix
  apply at_next h hl (by decide) (by simp [Stage.Latched])
  · simp [step, PosixLayer.step, PosixLayer.stateNext, PosixLayer.category, hposix, h.num hl, Stage.posix]
  · exact periph_waits h.periph (by simp [PosixLayer.periphReq, hposix])
  · exact fun hb => by rcases hb with hb | hb <;> exact Stage.noConfusion hb
  · exact fun hb => Stage.noConfusion hb

theorem fileReq_eq (h : At fd .fileOp s) :
    s.posix.fileReq = some ⟨Posix.ADDR_UART_BASE, s.writer.call.arg1, true⟩ := by
  have hl : Stage.Latched .fileOp := by simp [Stage.Latched]
  have hsub : s.posix.subop = 3 := by simp [PosixLayer.subop, h.num hl]
  have hbase : (s.posix.fd (lowId 16 fd)).baseAddr = Posix.ADDR_UART_BASE := by
    rw [h.isOpen.base, h.isOpen.fdType]
    rfl
  have hopen : s.posix.fdOpen = true := by
    simp [PosixLayer.fdOpen, h.arg0 hl, h.isOpen.lt, h.isOpen.valid]
  simp [PosixLayer.fileReq, hsub, hopen, h.arg0 hl, hbase, h.arg1 hl]

theorem at_fileOp (h : At fd .fileOp s) : At fd .setup (s.step i) := by
  have hl : Stage.Latched .fileOp := by simp [Stage.Latched]
  have hposix : s.posix.state = .fileOp := h.posix
  have hidle : s.apb.periph.state = .idle := h.periph
  have hreq : s.periphRequest = ⟨false, true, Posix.ADDR_UART_BASE, s.writer.call.arg1⟩ := by
    simp [periphRequest, PosixLayer.periphReq, hposix, fileReq_eq h]
  apply at_next h hl (by decide) (by simp [Stage.Latched])
  · simp [step, PosixLayer.step, PosixLayer.stateNext, hposix, fileReq_eq h, Stage.posix]
  · simp [step, SharedApb.step, PeriphBridge.step, PeriphBridge.stateNext, sharedIn, hidle, hreq, Stage.periph]
  · intro _
    simp [step, SharedApb.step, PeriphBridge.step, PeriphBridge.transfer, sharedIn, hidle, hreq]
  · exact fun hb => Stage.noConfusion hb

theorem at_setup (h : At fd .setup s) : At fd .access (s.step i) := by
  have hl : Stage.Latched .setup := by simp [Stage.Latched]
  have hposix : s.posix.state = .periphWait := h.posix
  have hsetup : s.apb.periph.state = .setup := h.periph
  apply at_next h hl (by decide) (by simp [Stage.Latched])
  · simp [step, PosixLayer.step, PosixLayer.stateNext, posixIn, hposix, PeriphBridge.ready, hsetup, Stage.posix]
  · simp [step, SharedApb.step, PeriphBridge.step, PeriphBridge.stateNext, hsetup, Stage.periph]
  · intro _
    rw [← h.held (.inl rfl)]
    simp [step, SharedApb.step, PeriphBridge.step, PeriphBridge.transfer, hsetup]
  · exact fun hb => Stage.noConfusion hb

theorem at_access (h : At fd .access s) : At fd .done (s.step i) := by
  have hl : Stage.Latched .access := by simp [Stage.Latched]
  have hposix : s.posix.state = .periphWait := h.posix
  have haccess : s.apb.periph.state = .access := h.periph
  apply at_next h hl (by decide) (by simp [Stage.Latched])
  · simp [step, PosixLayer.step, PosixLayer.stateNext, posixIn, hposix, PeriphBridge.ready, haccess, Stage.posix]
  · simp [step, SharedApb.step, PeriphBridge.step, PeriphBridge.stateNext, haccess,
      SharedApb.periphReady_access haccess, Stage.periph]
  · exact fun hb => by rcases hb with hb | hb <;> exact Stage.noConfusion hb
  · exact fun hb => Stage.noConfusion hb

/-- the result is what the bridge reads between transfers -/
theorem at_done (h : At fd .done s) : At fd .complete (s.step i) := by
  have hl : Stage.Latched .done := by simp [Stage.Latched]
  have hposix : s.posix.state = .periphWait := h.posix
  have hdone : s.apb.periph.state = .done := h.periph
  apply at_next h hl (by decide) (by simp [Stage.Latched])
  · simp [step, PosixLayer.step, PosixLayer.stateNext, posixIn, hposix, PeriphBridge.ready, hdone, Stage.posix]
  · simp [step, SharedApb.step, PeriphBridge.step, PeriphBridge.stateNext, hdone, Stage.periph]
  · exact fun hb => by rcases hb with hb | hb <;> exact Stage.noConfusion hb
  · intro _
    simp [step, PosixLayer.step, PosixLayer.resultNext, posixIn, hposix, PeriphBridge.ready, hdone,
      SharedApb.periphRdata_done hdone]

theorem at_complete (h : At fd .complete s) :
    At fd .code (s.step i) ∧ (s.step i).writer.rest = s.writer.rest.tail ∧
      (s.step i).writer.count = s.writer.count := by
  have hl : Stage.Latched .complete := by simp [Stage.Latched]
  have hposix : s.posix.state = .complete := h.posix
  have hdone : s.posix.syscallDone = some 0 := by simp [PosixLayer.syscallDone, hposix, h.result rfl]
  have hwriter : (s.step i).writer = { s.writer with rest := s.writer.rest.tail, phase := .code } := by
    simp [step, Writer.step, h.ecall hl, hdone]
  have hreq : s.posix.periphReq = none := by simp [PosixLayer.periphReq, hposix]
  rw [hwriter]
  refine ⟨⟨?_, ?_, fun hne => absurd rfl hne, ?_, periph_waits h.periph hreq, bridge_stays h.bridge,
    isOpen_stays h.isOpen (.inl (by simp [hposix])), fun hl => absurd rfl hl.1, ?_, fun hb => Stage.noConfusion hb⟩,
      rfl, rfl⟩
  · rw [hwriter]
    exact h.writerFd
  · rw [hwriter]
    rfl
  · simp [step, PosixLayer.step, PosixLayer.stateNext, hposix, Stage.posix]
  · exact fun hb => by rcases hb with hb | hb <;> exact Stage.noConfusion hb

/-- back in the caller nothing more happens -/
theorem at_returned (h : At fd .returned s) : At fd .returned (s.step i) ∧ (s.step i).writer = s.writer := by
  have hphase : s.writer.phase = .returned s.writer.count := by simpa using h.phase
  have hposix : s.posix.state = .idle := h.posix
  have hwriter : (s.step i).writer = s.writer := by simp [step, Writer.step, hphase]
  have hreq : s.posix.periphReq = none := by simp [PosixLayer.periphReq, hposix]
  refine ⟨⟨?_, ?_, ?_, ?_, periph_waits h.periph hreq, bridge_stays h.bridge,
    isOpen_stays h.isOpen (.inl (by simp [hposix])), fun hl => absurd rfl hl.2.2, ?_, fun hb => Stage.noConfusion hb⟩,
      hwriter⟩
  · rw [hwriter, h.writerFd]
  · rw [hwriter, h.phase]
  · rw [hwriter]
    exact h.rest
  · simp [step, PosixLayer.step, PosixLayer.stateNext, posixIn, hposix, hphase, Stage.posix]
  · exact fun hb => by rcases hb with hb | hb <;> exact Stage.noConfusion hb

/-- only `ACCESS` offers something to the FIFO: the byte of the syscall -/
theorem offered_eq (h : At fd st s) : s.offered i = if st = .access then [s.writer.rest.headD 0] else [] := by
  by_cases hst : st = .access
  · subst hst
    have haccess : s.apb.periph.state = .access := h.periph
    have hlines : s.apb.lines = s.apb.periph.lines := SharedApb.lines_posix (by simp [PeriphBridge.lines, haccess])
    have htransfer := h.held (.inr rfl)
    simp only [PeriphBridge.transfer, ApbTransfer.mk.injEq] at htransfer
    obtain ⟨haddr, hwrite, hdata⟩ := htransfer
    have hholds : Peripheral.Holds .uart s.apb.lines.paddr := by
      rw [hlines]
      change Peripheral.Holds .uart s.apb.periph.addr
      rw [haddr]
      decide
    have hpsel : s.apb.lines.psel = true := by simp [hlines, PeriphBridge.lines, haccess]
    have hsel : Peripheral.selects s.apb.lines .uart = true := by simp [Peripheral.selects, hpsel, hholds]
    have hpush : (s.uartIn i).txPush = some (s.writer.rest.headD 0) := by
      simp only [UartIn.txPush, UartIn.writeEn, uartIn, hsel]
      simp [hlines, PeriphBridge.lines, haccess, hwrite, haddr, hdata, Writer.call, Posix.ADDR_UART_BASE]
    rw [if_pos rfl, offered, hpush]
    rfl
  · have henable : s.apb.lines.penable = false ∨ s.apb.lines.psel = false := by
      have hb : s.apb.bridge.lines.penable = false := by simp [ApbBridge.lines, h.bridge]
      have hp : s.apb.periph.lines.penable = false := by
        simp only [PeriphBridge.lines, h.periph]
        cases st <;> simp [Stage.periph] at hst ⊢
      left
      unfold SharedApb.lines
      split
      · exact hp
      · exact hb
    have hpush : (s.uartIn i).txPush = none := by
      rcases henable with he | he <;> simp [UartIn.txPush, UartIn.writeEn, uartIn, Peripheral.selects, he]
    rw [if_neg hst, offered, hpush]
    rfl

end Cycle

/-! ## Runs -/

/-- the bytes offered so far are those of the buffer that are done with -/
def Progress (fd : Word) (buf : List (BitVec 8)) (s : UartWrite) (out : List (BitVec 8)) : Prop :=
  ∃ st, At fd st s ∧ out ++ st.pending s.writer.rest = buf ∧ s.writer.count = BitVec.ofNat 32 buf.length

section Run

variable {s : UartWrite} {fd : Word} {buf : List (BitVec 8)} {ins : ℕ → UartWriteIn}

theorem progress_called (hc : Called fd buf s) : Progress fd buf s [] := by
  obtain ⟨hwriter, hposix, hperiph, hbridge, hopen⟩ := hc
  refine ⟨.code, ⟨?_, ?_, fun hne => absurd rfl hne, hposix, hperiph, hbridge, hopen, fun hl => absurd rfl hl.1, ?_,
    fun hb => Stage.noConfusion hb⟩, ?_, ?_⟩
  · rw [hwriter]
    rfl
  · rw [hwriter]
    rfl
  · exact fun hb => by rcases hb with hb | hb <;> exact Stage.noConfusion hb
  · rw [hwriter]
    rfl
  · rw [hwriter]
    rfl

/-- a stage that offers nothing hands on what is pending -/
theorem progress_kept {out : List (BitVec 8)} {st st' : Stage} {i : UartWriteIn} (hat : At fd st' (s.step i))
    (hwriter : (s.step i).writer = s.writer) (hpending : ∀ rest, st'.pending rest = st.pending rest)
    (hout : out ++ st.pending s.writer.rest = buf) (hcount : s.writer.count = BitVec.ofNat 32 buf.length) :
    Progress fd buf (s.step i) (out ++ []) := by
  refine ⟨st', hat, ?_, ?_⟩
  · rw [hwriter, hpending, List.append_nil, hout]
  · rw [hwriter, hcount]

theorem step_progress {out : List (BitVec 8)} (i : UartWriteIn) (h : Progress fd buf s out) :
    Progress fd buf (s.step i) (out ++ s.offered i) := by
  obtain ⟨st, hat, hout, hcount⟩ := h
  rw [offered_eq hat]
  cases st with
  | code =>
    cases hgo : i.go with
    | false =>
      obtain ⟨hnext, hwriter⟩ := at_code hat hgo
      exact progress_kept hnext hwriter (fun _ => rfl) hout hcount
    | true =>
      obtain ⟨hnext, hrest, hcount'⟩ := at_go hat hgo
      refine ⟨_, hnext, ?_, by rw [hcount', hcount]⟩
      rw [hrest, ← hout]
      by_cases hnil : s.writer.rest = [] <;> simp [hnil, Stage.pending]
  | asked =>
    obtain ⟨hnext, hwriter⟩ := at_asked (i := i) hat
    exact progress_kept hnext hwriter (fun _ => rfl) hout hcount
  | returned =>
    obtain ⟨hnext, hwriter⟩ := at_returned (i := i) hat
    exact progress_kept hnext hwriter (fun _ => rfl) hout hcount
  | complete =>
    obtain ⟨hnext, hrest, hcount'⟩ := at_complete (i := i) hat
    refine ⟨_, hnext, ?_, by rw [hcount', hcount]⟩
    simpa [hrest, Stage.pending] using hout
  | decode =>
    have hwriter := hat.writer_next (i := i) (by simp [Stage.Latched]) (by decide)
    exact progress_kept (at_decode hat) hwriter (fun _ => rfl) hout hcount
  | fileOp =>
    have hwriter := hat.writer_next (i := i) (by simp [Stage.Latched]) (by decide)
    exact progress_kept (at_fileOp hat) hwriter (fun _ => rfl) hout hcount
  | setup =>
    have hwriter := hat.writer_next (i := i) (by simp [Stage.Latched]) (by decide)
    exact progress_kept (at_setup hat) hwriter (fun _ => rfl) hout hcount
  | access =>
    have hwriter := hat.writer_next (i := i) (by simp [Stage.Latched]) (by decide)
    have hne : s.writer.rest ≠ [] := fun hnil => Stage.noConfusion ((hat.rest (by decide)).1 hnil)
    refine ⟨_, at_access hat, ?_, by rw [hwriter, hcount]⟩
    obtain ⟨b, bs, hrest⟩ := List.exists_cons_of_ne_nil hne
    rw [← hout, if_pos rfl, hwriter, hrest, List.append_assoc]
    rfl
  | done =>
    have hwriter := hat.writer_next (i := i) (by simp [Stage.Latched]) (by decide)
    exact progress_kept (at_done hat) hwriter (fun _ => rfl) hout hcount

theorem run_progress (hc : Called fd buf s) (n : ℕ) :
    Progress fd buf (trace step s ins n) (log offered step s ins n) := by
  induction n with
  | zero => exact progress_called hc
  | succ n ih => exact step_progress (ins n) ih

/-- once `write` has returned, every byte has been offered, in order -/
theorem offered_of_returned (hc : Called fd buf s) (n : ℕ) {ret : Word}
    (hret : (trace step s ins n).writer.phase = .returned ret) :
    log offered step s ins n = buf ∧ ret = BitVec.ofNat 32 buf.length := by
  have hrun : Progress fd buf (trace step s ins n) (log offered step s ins n) := run_progress hc n
  obtain ⟨st, hat, hout, hcount⟩ := hrun
  have hst : st = .returned := by
    have hphase := hat.phase
    rw [hret] at hphase
    by_contra hne
    rw [if_neg hne] at hphase
    split at hphase <;> exact WriterPhase.noConfusion hphase
  subst hst
  have hrest : (trace step s ins n).writer.rest = [] := (hat.rest (by decide)).2 rfl
  have hphase := hat.phase
  rw [hret, hcount] at hphase
  refine ⟨by simpa [Stage.pending, hrest] using hout, ?_⟩
  simpa using hphase

theorem accepted_eq (t : UartWrite) (i : UartWriteIn) :
    t.accepted i = if t.uart.tx.fifo.full then [] else t.offered i := rfl

theorem accepted_sublist (t : UartWrite) (i : UartWriteIn) : (t.accepted i).Sublist (t.offered i) := by
  rw [accepted_eq]
  split
  · exact List.nil_sublist _
  · exact List.Sublist.refl _

/-- the bytes that the FIFO takes are all that are offered exactly if there is room in every `ACCESS` -/
theorem accepts_all_iff (hc : Called fd buf s) (n : ℕ) : log accepted step s ins n = log offered step s ins n ↔
    ∀ k < n, (trace step s ins k).apb.periph.state = .access → (trace step s ins k).uart.tx.fifo.full = false := by
  refine (log_eq_iff step s ins accepted_sublist n).trans (forall_congr' fun k => imp_congr_right fun _ => ?_)
  have hrun : Progress fd buf (trace step s ins k) (log offered step s ins k) := run_progress hc k
  obtain ⟨st, hat, -, -⟩ := hrun
  rw [accepted_eq, offered_eq hat]
  by_cases hst : st = .access
  · subst hst
    have haccess : (trace step s ins k).apb.periph.state = .access := hat.periph
    cases hf : (trace step s ins k).uart.tx.fifo.full <;> simp [haccess]
  · have haccess : (trace step s ins k).apb.periph.state ≠ .access := by
      rw [hat.periph]
      cases st <;> simp [Stage.periph] at hst ⊢
    simp [hst, haccess]

/-! ### The end of `write` -/

/-- a stage with what is left to do -/
structure Left (fd : Word) (st : Stage) (rest : List (BitVec 8)) (count : Word) (t : UartWrite) : Prop where
  stage : At fd st t
  rest : t.writer.rest = rest
  count : t.writer.count = count

variable {rest : List (BitVec 8)} {count : Word} {n : ℕ}

theorem left_syscall (h : Left fd .asked rest count (trace step s ins n)) :
    Left fd .code rest.tail count (trace step s ins (n + 7)) := by
  obtain ⟨h1, hw1⟩ := at_asked (i := ins n) h.stage
  have h2 : At fd .fileOp (trace step s ins (n + 2)) := at_decode (i := ins (n + 1)) h1
  have hw2 := h1.writer_next (i := ins (n + 1)) (by simp [Stage.Latched]) (by decide)
  have h3 : At fd .setup (trace step s ins (n + 3)) := at_fileOp (i := ins (n + 2)) h2
  have hw3 := h2.writer_next (i := ins (n + 2)) (by simp [Stage.Latched]) (by decide)
  have h4 : At fd .access (trace step s ins (n + 4)) := at_setup (i := ins (n + 3)) h3
  have hw4 := h3.writer_next (i := ins (n + 3)) (by simp [Stage.Latched]) (by decide)
  have h5 : At fd .done (trace step s ins (n + 5)) := at_access (i := ins (n + 4)) h4
  have hw5 := h4.writer_next (i := ins (n + 4)) (by simp [Stage.Latched]) (by decide)
  have h6 : At fd .complete (trace step s ins (n + 6)) := at_done (i := ins (n + 5)) h5
  have hw6 := h5.writer_next (i := ins (n + 5)) (by simp [Stage.Latched]) (by decide)
  obtain ⟨h7, hrest, hcount⟩ := at_complete (i := ins (n + 6)) h6
  have hwriter : (trace step s ins (n + 6)).writer = (trace step s ins n).writer :=
    hw6.trans (hw5.trans (hw4.trans (hw3.trans (hw2.trans hw1))))
  refine ⟨h7, ?_, ?_⟩
  · exact hrest.trans (by rw [hwriter, h.rest])
  · exact hcount.trans (by rw [hwriter, h.count])

theorem later_go (hgo : ∀ n, ∃ m ≥ n, (ins m).go = true) (h : Left fd .code rest count (trace step s ins n)) :
    Later step s ins (Left fd (if rest = [] then .returned else .asked) rest count) n := by
  refine later_of_wait (P := Left fd .code rest count) (F := fun _ i => i.go = true) h ?_ (hgo n) ?_
  · intro t i ht hf
    obtain ⟨hnext, hwriter⟩ := at_code ht.stage (by simpa using hf)
    exact ⟨hnext, by rw [hwriter, ht.rest], by rw [hwriter, ht.count]⟩
  · intro t i ht hf
    obtain ⟨hnext, hrest, hcount⟩ := at_go ht.stage hf
    rw [ht.rest] at hnext hrest
    exact ⟨hnext, hrest, hcount.trans ht.count⟩

theorem later_returned (hgo : ∀ n, ∃ m ≥ n, (ins m).go = true) (h : Left fd .code rest count (trace step s ins n)) :
    Later step s ins (Left fd .returned [] count) n := by
  induction rest generalizing n with
  | nil => exact later_go hgo h
  | cons b bs ih =>
    refine (later_go hgo h).trans ?_
    intro m _ hm
    obtain ⟨k, hk, hret⟩ := ih (left_syscall hm)
    exact ⟨k, by omega, hret⟩

theorem write_returns (hc : Called fd buf s) (hgo : ∀ n, ∃ m ≥ n, (ins m).go = true) :
    ∃ n, (trace step s ins n).writer.phase = .returned (BitVec.ofNat 32 buf.length) := by
  obtain ⟨st, hat, hout, hcount⟩ := progress_called hc
  have hst : st = .code := by
    have hphase := hat.phase
    rw [hc.writer] at hphase
    by_contra hne
    rw [if_neg hne] at hphase
    split at hphase <;> exact WriterPhase.noConfusion hphase
  subst hst
  obtain ⟨n, -, hleft⟩ := later_returned (n := 0) hgo ⟨hat, rfl, hcount⟩
  refine ⟨n, ?_⟩
  have hphase := hleft.stage.phase
  rw [hleft.count] at hphase
  simpa using hphase

/-- what the FIFO takes is what it holds then and what has been sent -/
theorem fifo_conserves (h : s.uart.tx.fifo.WellFormed) (n : ℕ) :
    s.uart.tx.fifo.contents ++ log accepted step s ins n =
      log (fun t _ => t.uart.tx.fifo.popped (t.uart.tx.pop t.uart.ctrl)) step s ins n ++
        (trace step s ins n).uart.tx.fifo.contents :=
  (@Ring.run_contents _ _ _ _ _ _ (fun t : UartWrite => t.uart.tx.fifo) _ _ ins
    (fun t i => Uart.step_txFifo t.uart (t.uartIn i)) h n).2

/-- **`write` returns `count`, whatever happens to the bytes**; the FIFO has taken exactly those of the buffer, in
order, if and only if it has room in every `ACCESS` of the peripheral bridge. -/
theorem write_accepts_iff (hc : Called fd buf s) (ins : ℕ → UartWriteIn) :
    ((∀ n, ∃ m ≥ n, (ins m).go = true) →
      ∃ n, (trace step s ins n).writer.phase = .returned (BitVec.ofNat 32 buf.length)) ∧
    ∀ n ret, (trace step s ins n).writer.phase = .returned ret → ret = BitVec.ofNat 32 buf.length ∧
      (log accepted step s ins n = buf ↔ ∀ k < n, (trace step s ins k).apb.periph.state = .access →
        (trace step s ins k).uart.tx.fifo.full = false) := by
  refine ⟨write_returns hc, ?_⟩
  intro n ret hret
  obtain ⟨hoffered, hcount⟩ := offered_of_returned hc n hret
  refine ⟨hcount, ?_⟩
  calc log accepted step s ins n = buf
      ↔ log accepted step s ins n = log offered step s ins n := by rw [hoffered]
    _ ↔ _ := accepts_all_iff hc n

end Run

/-- the layer and the bus at reset, and a UART with `count` bytes in its FIFO that sends the first bit of another -/
def idleBut (fd : Word) (buf : List (BitVec 8)) (count : BitVec 5) : UartWrite where
  writer := Writer.start fd buf
  posix := PosixLayer.reset
  apb := SharedApb.reset
  uart := { Uart.reset (fun _ => 0) (fun _ => 0) with
    tx := ⟨⟨fun _ => 0x55, count, 0, count⟩, .start, 0, 0x55, true⟩ }

/-- nothing else happens -/
def quietRun : ℕ → UartWriteIn := fun _ =>
  ⟨true, ⟨false, 0, 0, 0, 0, none, false, none, none, none, 0, 0, false⟩, fun _ => 0, true⟩

theorem called_idleBut (buf : List (BitVec 8)) (count : BitVec 5) : Called 1 buf (idleBut 1 buf count) where
  writer := rfl
  posix := rfl
  periph := rfl
  bridge := rfl
  isOpen := openUart_of_run (fun n => (quietRun n).posix) 0 (by decide) rfl rfl

/-- two bytes into a FIFO with fourteen -/
theorem write_accepts_iff_two :
    (∃ n, (trace step (idleBut 1 [0x48, 0x69] 14) quietRun n).writer.phase = .returned 2) ∧
    (log accepted step (idleBut 1 [0x48, 0x69] 14) quietRun 17 = [0x48, 0x69] ↔
      ∀ k < 17, (trace step (idleBut 1 [0x48, 0x69] 14) quietRun k).apb.periph.state = .access →
        (trace step (idleBut 1 [0x48, 0x69] 14) quietRun k).uart.tx.fifo.full = false) :=
  ⟨(write_accepts_iff (called_idleBut _ 14) quietRun).1 fun n => ⟨n, le_refl n, rfl⟩,
    ((write_accepts_iff (called_idleBut _ 14) quietRun).2 17 2 (by decide +kernel)).2⟩

/-- **A byte is dropped**: the FIFO is full, the bridge takes the write as done, and `write` returns 1. -/
theorem byte_dropped : ¬ ∀ fd buf s ins n, Called fd buf s →
    (trace step s ins n).writer.phase = .returned (BitVec.ofNat 32 buf.length) → log accepted step s ins n = buf := by
  intro h
  have hall := h 1 [0x41] (idleBut 1 [0x41] 16) quietRun 9 (called_idleBut _ 16) (by decide +kernel)
  exact absurd hall (by decide +kernel)

end UartWrite

end Vsync
