/-
`hyperram_ctrl.sv` with the device model of its testbench.

The device gives or takes one byte in each cycle of `ST_DATA`, at `txn_addr + data_cnt`, and a byte whose strobe is down
is masked by `hb_rwds_o`. Whether the latency is doubled is an input of every cycle. `txn_error` is never set; the id,
the clock enable and `additional_latency` are read by nothing: they are left out.
-/
import Vsync.Bus.Transfer

namespace Vsync

/-- the latency of the device in cycles -/
def LATENCY : BitVec 8 := 6

/-- `ST_IDLE`, …, `ST_DONE` -/
inductive HyperState where
  | idle
  | cmd
  | latency
  | data
  | done
  deriving DecidableEq, Repr

abbrev HyperMem := Word → BitVec 8

/-- four bytes, the lowest address in the lowest byte -/
def HyperMem.word (mem : HyperMem) (addr : Word) : Word :=
  mem (addr + 3) ++ mem (addr + 2) ++ mem (addr + 1) ++ mem addr

structure HyperRam where
  state : HyperState
  cmdCnt : BitVec 4
  latCnt : BitVec 8
  dataCnt : BitVec 4
  isRead : Bool
  txnAddr : Word
  wrData : Word
  wrStrb : BitVec 4
  rdData : Word
  latTotal : BitVec 8
  mem : HyperMem

namespace HyperRam

def reset (mem : HyperMem) : HyperRam := ⟨.idle, 0, 0, 0, false, 0, 0, 0, 0, 0, mem⟩

section Step

variable (s : HyperRam) (m : BusRequest)

def response : BusResponse where
  arready := s.state == .idle && m.arvalid
  rvalid := s.state == .done && s.isRead
  rdata := s.rdData
  rresp := 0b00
  awready := s.state == .idle && !m.arvalid && m.awvalid
  wready := s.state == .idle && !m.arvalid && m.awvalid && m.wvalid
  bvalid := s.state == .done && !s.isRead
  bresp := 0b00

/-- `lat_cnt >= lat_total - 1`, in 32 bits -/
def latencyOver : Bool := (s.latTotal.setWidth 32 - 1#32).ule (s.latCnt.setWidth 32)

def dataOver : Bool := (3#4).ule s.dataCnt

def stateNext : HyperState :=
  match s.state with
  | .idle => if m.arvalid then .cmd else if m.awvalid && m.wvalid then .cmd else .idle
  | .cmd => if s.cmdCnt = 5 then .latency else .cmd
  | .latency => if s.latencyOver then .data else .latency
  | .data => if s.dataOver then .done else .data
  | .done => if s.isRead then (if m.rready then .idle else .done) else (if m.bready then .idle else .done)

def byteAddr : Word := s.txnAddr + s.dataCnt.setWidth 32

/-- the byte `data_cnt[1:0]` of the data, as a bit position -/
def lane : ℕ := (s.dataCnt.extractLsb' 0 2).toNat

/-- `hb_dq_i` -/
def dqIn : BitVec 8 := s.mem s.byteAddr

/-- `hb_dq_o` -/
def dqOut : BitVec 8 := s.wrData.extractLsb' (8 * s.lane) 8

/-- `hb_rwds_o` masks the byte -/
def masked : Bool := !s.wrStrb.getLsbD s.lane

/-- `rd_data` with the byte of this cycle -/
def capture : Word :=
  match s.lane with
  | 0 => s.rdData.extractLsb' 8 24 ++ s.dqIn
  | 1 => s.rdData.extractLsb' 16 16 ++ s.dqIn ++ s.rdData.extractLsb' 0 8
  | 2 => s.rdData.extractLsb' 24 8 ++ s.dqIn ++ s.rdData.extractLsb' 0 16
  | _ => s.dqIn ++ s.rdData.extractLsb' 0 24

/-- one clock edge; `rwds` is `hb_rwds_i` -/
def step (rwds : Bool) : HyperRam where
  state := s.stateNext m
  cmdCnt :=
    match s.state with
    | .idle => 0
    | .cmd => if s.cmdCnt.ult 5 then s.cmdCnt + 1 else s.cmdCnt
    | _ => s.cmdCnt
  latCnt :=
    match s.state with
    | .idle => 0
    | .latency => s.latCnt + 1
    | _ => s.latCnt
  dataCnt :=
    match s.state with
    | .idle => 0
    | .data => s.dataCnt + 1
    | _ => s.dataCnt
  isRead :=
    match s.state with
    | .idle => if m.arvalid then true else if m.awvalid && m.wvalid then false else s.isRead
    | _ => s.isRead
  txnAddr :=
    match s.state with
    | .idle => if m.arvalid then m.araddr else if m.awvalid && m.wvalid then m.awaddr else s.txnAddr
    | _ => s.txnAddr
  wrData :=
    match s.state with
    | .idle => if !m.arvalid && m.awvalid && m.wvalid then m.wdata else s.wrData
    | _ => s.wrData
  wrStrb :=
    match s.state with
    | .idle => if !m.arvalid && m.awvalid && m.wvalid then m.wstrb else s.wrStrb
    | _ => s.wrStrb
  rdData :=
    match s.state with
    | .idle => 0
    | .data => if s.isRead then s.capture else s.rdData
    | _ => s.rdData
  latTotal :=
    match s.state with
    | .latency => if s.latCnt = 0 then (if rwds then LATENCY * 2 else LATENCY) else s.latTotal
    | _ => s.latTotal
  mem := if s.state == .data && !s.isRead && !s.masked then Function.update s.mem s.byteAddr s.dqOut else s.mem

/-- the transfer is over with its last byte -/
def access : List BusAccess :=
  if s.state == .data && s.dataOver then
    (if s.isRead then [.read s.txnAddr (s.mem.word s.txnAddr)] else [.write s.txnAddr s.wrData (some s.wrStrb)])
  else []

end Step

def slave (mem : HyperMem) : BusSlave where
  State := HyperRam
  Env := Bool
  reset := reset mem
  out := response
  step := step
  access s _ _ := s.access
  holds s _ a := s.mem.word a
  strobed := true

/-- between transactions: the latency is that of the last one -/
structure Idle (s : HyperRam) : Prop where
  state : s.state = .idle
  latTotal : s.latTotal = 0 ∨ s.latTotal = LATENCY ∨ s.latTotal = LATENCY * 2

section Phases

theorem toNat_succ {w : ℕ} {x : BitVec w} (h : x.toNat + 1 < 2 ^ w) : (x + 1).toNat = x.toNat + 1 := by
  have hlt : 1 < 2 ^ w := by omega
  have hone : (1 : BitVec w).toNat = 1 := by simp [Nat.mod_eq_of_lt hlt]
  rw [BitVec.toNat_add_of_lt (by rw [hone]; exact h), hone]

variable {s : HyperRam} {mem : HyperMem} {m : BusRequest} {p : BusResponse → Bool} {Q : List BusAccess → HyperRam →
  Prop}

/-- a cycle without an answer and without an access -/
theorem until_later (hp : p (s.response m) = false) (ha : s.access = [])
    (h : ∀ rwds : Bool, (slave mem).Until m p Q (s.step m rwds)) : (slave mem).Until m p Q s :=
  Machine.reaches_silent hp (fun _ => ha) h

theorem step_cmd (hs : s.state = .cmd) (hn : s.cmdCnt.toNat < 5) (rwds : Bool) :
    s.step m rwds = { s with cmdCnt := s.cmdCnt + 1 } := by
  rcases s with ⟨state, c, _, _, _, _, _, _, _, _, _⟩
  obtain rfl : state = .cmd := hs
  have hne : c ≠ 5#4 := by
    rintro rfl
    simp at hn
  have hlt : c.ult 5#4 = true := by simpa [BitVec.ult] using hn
  simp [step, stateNext, hne, hlt]

theorem step_cmd_last (hs : s.state = .cmd) (hn : s.cmdCnt = 5#4) (rwds : Bool) :
    s.step m rwds = { s with state := .latency, cmdCnt := 5#4 } := by
  rcases s with ⟨state, c, _, _, _, _, _, _, _, _, _⟩
  obtain rfl : state = .cmd := hs
  obtain rfl : c = 5#4 := hn
  simp [step, stateNext, BitVec.ult]

theorem until_cmd (hp : ∀ s : HyperRam, s.state ≠ .done → p (s.response m) = false) (n : ℕ) (hs : s.state = .cmd)
    (hn : s.cmdCnt.toNat + n = 5)
    (h : (slave mem).Until m p Q ({ s with state := .latency, cmdCnt := 5#4 } : HyperRam)) :
      (slave mem).Until m p Q s := by
  induction n generalizing s with
  | zero =>
    have hcnt : s.cmdCnt = 5#4 := BitVec.eq_of_toNat_eq (by simpa using hn)
    refine until_later (hp s (by simp [hs])) (by simp [access, hs]) fun rwds => ?_
    rw [step_cmd_last hs hcnt]
    exact h
  | succ n ih =>
    refine until_later (hp s (by simp [hs])) (by simp [access, hs]) fun rwds => ?_
    rw [step_cmd hs (by omega)]
    refine ih hs ?_ h
    rw [toNat_succ (by omega)]
    omega

theorem latencyOver_iff (h : 0 < s.latTotal.toNat) : s.latencyOver = true ↔ s.latTotal.toNat ≤ s.latCnt.toNat + 1 := by
  have h1 := s.latTotal.isLt
  have h2 := s.latCnt.isLt
  have hsub : (s.latTotal.setWidth 32 - 1#32).toNat = s.latTotal.toNat - 1 := by
    rw [BitVec.toNat_sub_of_le] <;> simp [BitVec.le_def] <;> omega
  have hcnt : (s.latCnt.setWidth 32).toNat = s.latCnt.toNat := by simp; omega
  rw [latencyOver, BitVec.ule_iff_le, BitVec.le_def, hsub, hcnt]
  omega

/-- `lat_total` after the first cycle -/
def latency (rwds : Bool) : BitVec 8 := if rwds then LATENCY * 2 else LATENCY

/-- the first cycle of the latency -/
theorem step_latency_first (hs : s.state = .latency) (hn : s.latCnt = 0#8)
    (hl : s.latTotal = 0 ∨ s.latTotal = LATENCY ∨ s.latTotal = LATENCY * 2) (rwds : Bool) :
    s.step m rwds = { s with latCnt := 1#8, latTotal := latency rwds } := by
  have hover : s.latencyOver = false := by
    rw [latencyOver, hn]
    rcases hl with h | h | h <;> rw [h] <;> rfl
  simp [step, stateNext, hs, hn, hover, latency]

theorem step_latency (hs : s.state = .latency) (hn : s.latCnt ≠ 0#8) (rwds : Bool) :
    s.step m rwds = { s with state := if s.latencyOver then .data else .latency, latCnt := s.latCnt + 1 } := by
  rcases s with ⟨state, _, c, _, _, _, _, _, _, _, _⟩
  obtain rfl : state = .latency := hs
  have hc : c ≠ 0#8 := hn
  simp [step, stateNext, hc]

theorem until_latency_rest (hp : ∀ s : HyperRam, s.state ≠ .done → p (s.response m) = false) (n : ℕ)
    (hs : s.state = .latency) (hpos : 0 < s.latCnt.toNat) (hn : s.latCnt.toNat + n + 1 = s.latTotal.toNat)
    (h : (slave mem).Until m p Q ({ s with state := .data, latCnt := s.latTotal } : HyperRam)) :
    (slave mem).Until m p Q s := by
  have hne : s.latCnt ≠ 0#8 := by
    intro h0
    simp [h0] at hpos
  have htotal := s.latTotal.isLt
  have hadd : (s.latCnt + 1).toNat = s.latCnt.toNat + 1 := toNat_succ (by omega)
  induction n generalizing s with
  | zero =>
    refine until_later (hp s (by simp [hs])) (by simp [access, hs]) fun rwds => ?_
    have hover : s.latencyOver = true := (latencyOver_iff (by omega)).2 (by omega)
    have hlast : s.latCnt + 1 = s.latTotal := BitVec.eq_of_toNat_eq (by omega)
    rw [step_latency hs hne, hover, hlast]
    exact h
  | succ n ih =>
    refine until_later (hp s (by simp [hs])) (by simp [access, hs]) fun rwds => ?_
    have hover : s.latencyOver = false := by
      rw [← Bool.not_eq_true, latencyOver_iff (by omega)]
      omega
    rw [step_latency hs hne, hover]
    have hnext : s.latCnt + 1 ≠ 0#8 := by
      intro h0
      rw [h0] at hadd
      simp at hadd
    have hadd' : (s.latCnt + 1 + 1).toNat = (s.latCnt + 1).toNat + 1 := toNat_succ (by omega)
    exact ih rfl (show 0 < (s.latCnt + 1).toNat by omega)
      (show (s.latCnt + 1).toNat + n + 1 = s.latTotal.toNat by omega) h
      hnext htotal hadd'

theorem until_latency (hp : ∀ s : HyperRam, s.state ≠ .done → p (s.response m) = false) (hs : s.state = .latency)
    (hn : s.latCnt = 0#8) (hl : s.latTotal = 0 ∨ s.latTotal = LATENCY ∨ s.latTotal = LATENCY * 2)
    (h : ∀ rwds, (slave mem).Until m p Q
      ({ s with state := .data, latCnt := latency rwds, latTotal := latency rwds } : HyperRam)) :
    (slave mem).Until m p Q s := by
  refine until_later (hp s (by simp [hs])) (by simp [access, hs]) fun rwds => ?_
  rw [step_latency_first hs hn hl]
  exact until_latency_rest hp ((latency rwds).toNat - 2) hs (show 0 < (1#8).toNat by decide)
    (by cases rwds <;> rfl) (h rwds)

theorem step_data_read (hs : s.state = .data) (hr : s.isRead = true) (rwds : Bool) : s.step m rwds =
    { s with state := if s.dataOver then .done else .data, dataCnt := s.dataCnt + 1, rdData := s.capture } := by
  simp [step, stateNext, hs, hr]

/-- the four bytes, each put into its place, are the word -/
theorem capture_word (r : Word) (b₀ b₁ b₂ b₃ : BitVec 8) :
    let r₁ : Word := r.extractLsb' 8 24 ++ b₀
    let r₂ : Word := r₁.extractLsb' 16 16 ++ b₁ ++ r₁.extractLsb' 0 8
    let r₃ : Word := r₂.extractLsb' 24 8 ++ b₂ ++ r₂.extractLsb' 0 16
    b₃ ++ r₃.extractLsb' 0 24 = b₃ ++ b₂ ++ b₁ ++ b₀ := by
  intro r₁ r₂ r₃
  apply BitVec.eq_of_getLsbD_eq
  intro i hi
  simp only [r₃, r₂, r₁, BitVec.getLsbD_append, BitVec.getLsbD_extractLsb', Nat.zero_add]
  rcases show i < 8 ∨ (8 ≤ i ∧ i < 16) ∨ (16 ≤ i ∧ i < 24) ∨ 24 ≤ i by omega with h | h | h | h
  · simp [h, show i < 24 by omega, show i < 16 by omega]
  · simp [h, show ¬ i < 8 by omega, show i < 24 by omega, show i - 8 < 8 by omega]
  · simp [h, show ¬ i < 8 by omega, show ¬ i < 16 by omega, show i - 16 < 8 by omega, show ¬ i - 8 < 8 by omega,
      show i - 8 - 8 = i - 16 by omega]
  · simp [show ¬ i < 8 by omega, show ¬ i < 24 by omega, show ¬ i - 8 < 8 by omega, show i - 8 - 8 = i - 16 by omega,
      show ¬ i - 16 < 8 by omega, show i - 16 - 8 = i - 24 by omega]

/-- **The four bytes of a read** are the word of the device. -/
theorem until_data (hp : ∀ s : HyperRam, s.state ≠ .done → p (s.response m) = false) (hs : s.state = .data)
    (hd : s.dataCnt = 0#4) (hr : s.isRead = true)
    (hdone : p (({ s with state := .done, dataCnt := 4#4, rdData := s.mem.word s.txnAddr } : HyperRam).response m) =
      true)
    (h : Q [.read s.txnAddr (s.mem.word s.txnAddr)]
      { s with state := .done, dataCnt := 4#4, rdData := s.mem.word s.txnAddr }) : (slave mem).Until m p Q s := by
  rcases s with ⟨state, c, lc, dc, rd, a, w, st, r, t, dev⟩
  obtain rfl : state = .data := hs
  obtain rfl : dc = 0#4 := hd
  obtain rfl : rd = true := hr
  obtain ⟨r₁, hr₁⟩ : ∃ r₁ : Word, r₁ = r.extractLsb' 8 24 ++ dev (a + 0) := ⟨_, rfl⟩
  obtain ⟨r₂, hr₂⟩ : ∃ r₂ : Word, r₂ = r₁.extractLsb' 16 16 ++ dev (a + 1) ++ r₁.extractLsb' 0 8 := ⟨_, rfl⟩
  obtain ⟨r₃, hr₃⟩ : ∃ r₃ : Word, r₃ = r₂.extractLsb' 24 8 ++ dev (a + 2) ++ r₂.extractLsb' 0 16 := ⟨_, rfl⟩
  have hword : dev (a + 3) ++ r₃.extractLsb' 0 24 = HyperMem.word dev a := by
    have h := capture_word r (dev (a + 0)) (dev (a + 1)) (dev (a + 2)) (dev (a + 3))
    rw [HyperMem.word, hr₃, hr₂, hr₁]
    simpa using h
  refine until_later (hp _ (by simp)) rfl fun rwds => ?_
  rw [step_data_read rfl rfl]
  change (slave mem).Until m p Q ⟨.data, c, lc, 1#4, true, a, w, st, r.extractLsb' 8 24 ++ dev (a + 0), t, dev⟩
  rw [← hr₁]
  refine until_later (hp _ (by simp)) rfl fun rwds => ?_
  rw [step_data_read rfl rfl]
  change (slave mem).Until m p Q ⟨.data, c, lc, 2#4, true, a, w, st,
    r₁.extractLsb' 16 16 ++ dev (a + 1) ++ r₁.extractLsb' 0 8, t, dev⟩
  rw [← hr₂]
  refine until_later (hp _ (by simp)) rfl fun rwds => ?_
  rw [step_data_read rfl rfl]
  change (slave mem).Until m p Q ⟨.data, c, lc, 3#4, true, a, w, st,
    r₂.extractLsb' 24 8 ++ dev (a + 2) ++ r₂.extractLsb' 0 16, t, dev⟩
  rw [← hr₃]
  refine Machine.reaches_later (hp _ (by simp)) fun rwds => ?_
  change (slave mem).Until m p _ ⟨.done, c, lc, 4#4, true, a, w, st, dev (a + 3) ++ r₃.extractLsb' 0 24, t, dev⟩
  rw [hword]
  exact Machine.reaches_here hdone h

end Phases

section Contract

variable {s : HyperRam} (mem : HyperMem) (l : BusLines)

theorem step_quiet (hs : Idle s) (rwds : Bool) : Idle (s.step l.quiet rwds) := by
  have hstate := hs.state
  refine ⟨?_, ?_⟩
  · simp [step, stateNext, hstate, Axi.Lines.quiet]
  · simpa [step, hstate] using hs.latTotal

theorem step_ar (hs : Idle s) (rwds : Bool) : s.step l.ar rwds =
    ⟨.cmd, 0#4, 0#8, 0#4, true, l.addr, s.wrData, s.wrStrb, 0, s.latTotal, s.mem⟩ := by
  simp [step, stateNext, hs.state, Axi.Lines.ar, Axi.Lines.quiet]

theorem readsHeld : (slave mem).ReadsHeld := by
  intro s _ _ a d h
  change Axi.Access.read a d ∈ s.access at h
  change d = s.mem.word a
  unfold access at h
  split at h
  · split at h
    · simp only [List.mem_singleton, Axi.Access.read.injEq] at h
      rw [h.1, h.2]
    · simp at h
  · simp at h

theorem rests : (slave mem).Rests Idle where
  reset := ⟨rfl, .inl rfl⟩
  stays _ l e hs := step_quiet l hs e
  silent s _ _ hs := by
    change s.access = []
    simp [access, hs.state]

theorem servesReads : (slave mem).ServesReads Idle := by
  intro s l e hs
  have hp (s : HyperRam) (h : s.state ≠ .done) : (s.response l.r).rvalid = false := by simp [response, h]
  refine ⟨?_, ?_, ?_⟩
  · change (s.response l.ar).arready = true
    simp [response, hs.state, Axi.Lines.ar]
  · change s.access = []
    simp [access, hs.state]
  · have hstep : (slave mem).step s l.ar e = ⟨.cmd, 0#4, 0#8, 0#4, true, l.addr, s.wrData, s.wrStrb, 0, s.latTotal,
        s.mem⟩ :=
      step_ar l hs e
    rw [hstep]
    refine until_cmd hp 5 rfl rfl ?_
    refine until_latency hp rfl rfl hs.latTotal fun rwds => ?_
    refine until_data hp rfl rfl rfl rfl ⟨rfl, fun _ => ⟨rfl, rfl, ?_⟩⟩
    cases rwds with
    | false => exact .inr (.inl rfl)
    | true => exact .inr (.inr rfl)

/-- a write address without data, or data without an address: the controller stays where it is -/
theorem stays_idle {m : BusRequest} (hs : s.state = .idle) (ha : m.arvalid = false)
    (hw : (m.awvalid && m.wvalid) = false) (rwds : Bool) : (s.step m rwds).state = .idle := by
  simp [step, stateNext, hs, ha, hw]

/-- **The controller accepts data together with its address only**, and the address before the data. -/
theorem dropsWrites : (slave mem).DropsWrites Idle := by
  intro s l hs
  have hready : (s.response l.aw).awready = true := by simp [response, hs.state, Axi.Lines.aw, Axi.Lines.quiet]
  refine Machine.reaches_here hready fun e => ?_
  have hstate : (s.step l.aw e).state = .idle := stays_idle hs.state rfl rfl e
  refine Machine.avoids_of_inv (P := fun t : HyperRam => t.state = .idle) hstate (fun t i ht => ?_) (fun t ht => ?_)
  · exact stays_idle ht rfl rfl i
  · change (t.response l.w).wready = false
    simp [response, Axi.Lines.w, Axi.Lines.quiet]

end Contract

end HyperRam

end Vsync
