/-
HyperRAM as a byte memory: what the accesses of the core are on a device that takes the address of the command as the
address of a 16-bit word.

- `DeviceMem.flat`: the four bytes of a word are the four bytes from the 16-bit word with the number of its address on.
- `serve_flat`: an access at the address of a word is one on the flat memory.
- `load_differs`, `store_differs`: one at any other address is not.
- `flat_iff`: which sequences are those of a flat memory.
-/
import Vsync.Bus.HyperBus

namespace Vsync

open DataMemory (lane)

/-- the access at the port: the byte address, with data and strobes in the lanes of its word -/
def BusCmd.port (c : BusCmd) : PortOp := if c.read then .read c.addr else .write c.addr c.wdata c.strobe

namespace DeviceMem

/-- the first byte of the word with `x` in it -/
def base (x : Word) : Word := x.extractLsb' 2 30 ++ 0#2

/-- the device as a byte memory, in the one order of the bytes that whole-word accesses admit: they read the byte at `x`
in its lane of the word at `base x` -/
def flat (mem : DeviceMem) : ByteMem 32 := fun x => mem.byte (base x) (lane x)

theorem base_toNat (x : Word) : (base x).toNat = 4 * (x.toNat / 4) := by
  have hx := x.isLt
  rw [base, BitVec.toNat_append, BitVec.extractLsb'_toNat, Nat.shiftRight_eq_div_pow]
  simp [Nat.shiftLeft_eq]
  omega

theorem lane_lt (x : Word) : lane x < 4 := by
  rw [DataMemory.lane_eq]
  omega

/-- a byte of the flat memory, in the bytes from a word on -/
theorem place_flat {a x : Word} (ha : 4 ∣ a.toNat) :
    place a (base x + BitVec.ofNat 32 (lane x / 2)) (lane x % 2 == 1) < 4 ↔
    x.toNat / 4 = a.toNat / 4 := by
  have hx := x.isLt
  have hlt := a.isLt
  have hbase := base_toNat x
  rw [place, BitVec.toNat_sub, BitVec.toNat_add, hbase, BitVec.toNat_ofNat, DataMemory.lane_eq]
  rcases show x.toNat % 4 = 0 ∨ x.toNat % 4 = 1 ∨ x.toNat % 4 = 2 ∨ x.toNat % 4 = 3 by omega with h | h | h | h <;>
    rw [h] <;> simp <;> omega

/-- in the word at `a` -/
theorem base_eq {a x : Word} (ha : 4 ∣ a.toNat) (h : x.toNat / 4 = a.toNat / 4) : base x = a := by
  apply BitVec.eq_of_toNat_eq
  rw [base_toNat]
  omega

theorem place_lane {a x : Word} (ha : 4 ∣ a.toNat) (h : x.toNat / 4 = a.toNat / 4) :
    place a (base x + BitVec.ofNat 32 (lane x / 2)) (lane x % 2 == 1) = lane x := by
  rw [place_eq_iff (lane_lt x), base_eq ha h]
  exact ⟨rfl, rfl⟩

/-- **A store at the address of a word** -/
theorem flat_write (mem : DeviceMem) (k : StoreKind) {a : Word} (d : Word) (ha : 4 ∣ a.toNat) :
    (mem.write a (MemoryStage.storeData k.funct3 a d) (axiCmdWstrb k.funct3 a) 4).flat = mem.flat.store a k.size d := by
  have hk : k.size ∣ a.toNat := Nat.dvd_trans k.size_dvd ha
  have hzero : lane a = 0 := by
    rw [DataMemory.lane_eq]
    omega
  funext x
  have hplace := place_flat (x := x) ha
  rw [flat, byte, write, ByteMem.store]
  by_cases hword : x.toNat / 4 = a.toNat / 4
  · have hoffset : (x - a).toNat = lane x := by
      rw [DataMemory.offset_eq hword (by omega), hzero, Nat.sub_zero]
    have hstrb := DataMemory.axiCmdWstrb_lane k hk (lane_lt x)
    rw [place_lane ha hword, hoffset]
    by_cases hin : lane x < k.size
    · have hup : lane a ≤ lane x ∧ lane x < lane a + k.size := by omega
      rw [if_pos hin, if_pos ⟨lane_lt x, hstrb.2 hup⟩, DataMemory.byteOf_storeData k d hk hup.1 hup.2, hzero,
        Nat.sub_zero]
    · rw [if_neg hin, if_neg fun h => hin (by have hup := hstrb.1 h.2; omega)]
      rfl
  · have hout : ¬ (x - a).toNat < k.size := by
      have hle := Nat.le_of_dvd (by decide) k.size_dvd
      have hx := x.isLt
      have hlt := a.isLt
      rw [BitVec.toNat_sub]
      omega
    rw [if_neg hout, if_neg fun h => hword (hplace.1 h.1)]
    rfl

/-- **A load at the address of a word** -/
theorem flat_load (mem : DeviceMem) {n : ℕ} (hn : n ≤ 4) {a : Word} (ha : 4 ∣ a.toNat) :
    mem.flat.load a n = (mem.word a).extractLsb' (8 * lane a) (8 * n) := by
  refine ByteMem.load_eq_extract mem.flat a _ (lane a) n fun i hi => ?_
  have hlt := a.isLt
  have hadd : (a + BitVec.ofNat 32 i).toNat = a.toNat + i := by
    rw [BitVec.toNat_add, BitVec.toNat_ofNat]
    omega
  have hzero : lane a = 0 := by
    rw [DataMemory.lane_eq]
    omega
  have hlane : lane (a + BitVec.ofNat 32 i) = i := by
    rw [DataMemory.lane_eq, hadd]
    omega
  have hbase : base (a + BitVec.ofNat 32 i) = a := base_eq ha (by rw [hadd]; omega)
  rw [hzero, Nat.zero_add, byteOf_word mem a (by omega), flat, hlane, hbase]

end DeviceMem

namespace MemOp

/-- **An access at the address of a word** is one on the flat memory. -/
theorem serve_flat (mem : DeviceMem) (op : MemOp) (ha : 4 ∣ op.addr.toNat) :
    (op.cmd.port.serve mem).1.flat = (op.flat mem.flat).1 ∧
      op.result (op.cmd.port.serve mem).2 = (op.flat mem.flat).2 := by
  cases op with
  | load k a =>
    have hk : k.size ∣ a.toNat := Nat.dvd_trans k.size_dvd ha
    have hle : k.size ≤ 4 := Nat.le_of_dvd (by decide) k.size_dvd
    exact ⟨rfl, congrArg some (DataMemory.loadData_of_field k hk (mem.flat_load hle ha))⟩
  | store k a d => exact ⟨mem.flat_write k d ha, rfl⟩

/-- accesses at addresses of words, in order -/
theorem serveRun_flat (mem : DeviceMem) (ops : List MemOp) (hops : ∀ op ∈ ops, 4 ∣ op.addr.toNat) :
    (PortOp.serveRun mem (ops.map fun op => op.cmd.port)).1.flat = (flatRun mem.flat ops).1 ∧
      List.zipWith result ops (PortOp.serveRun mem (ops.map fun op => op.cmd.port)).2 = (flatRun mem.flat ops).2 := by
  induction ops generalizing mem with
  | nil => exact ⟨rfl, rfl⟩
  | cons op ops ih =>
    obtain ⟨hmem, hresult⟩ := serve_flat mem op (hops op List.mem_cons_self)
    obtain ⟨hmem', hresults⟩ := ih (op.cmd.port.serve mem).1 fun o ho => hops o (List.mem_cons_of_mem op ho)
    rw [hmem] at hmem' hresults
    refine ⟨hmem', ?_⟩
    change op.result _ :: List.zipWith result ops _ = (op.flat mem.flat).2 :: (flatRun (op.flat mem.flat).1 ops).2
    rw [hresult, hresults]

/-! ## Any other address -/

theorem loaded_bit (f : ByteMem 32) (a : Word) (k : LoadKind) : (loaded f a k).getLsbD 0 = (f a).getLsbD 0 := by
  have hload {n : ℕ} (hn : 0 < 8 * n) : (f.load a n).getLsbD 0 = (f a).getLsbD 0 := by
    rw [ByteMem.getLsbD_load f a n hn]
    simp
  cases k with
  | lb | lh =>
    rw [loaded, BitVec.getLsbD_signExtend, decide_eq_true (by decide), Bool.true_and, if_pos (by decide)]
    exact hload (by decide)
  | lbu | lhu =>
    rw [loaded, BitVec.getLsbD_setWidth, decide_eq_true (by decide), Bool.true_and]
    exact hload (by decide)
  | lw => exact hload (by decide)

/-- a load looks at the lane of its address -/
theorem loadData_bit (k : LoadKind) {a : Word} (hk : k.size ∣ a.toNat) (w : Word) :
    (MemoryStage.loadData k.funct3 a w).getLsbD 0 = (byteOf w (lane a)).getLsbD 0 := by
  have hfield : ByteMem.load (fun x : Word => byteOf w (lane x)) a k.size = w.extractLsb' (8 * lane a)
      (8 * k.size) := by
    refine ByteMem.load_eq_extract _ a w (lane a) k.size fun i hi => ?_
    have hdvd := DataMemory.dvd_lane k.size_dvd hk
    have hle := Nat.le_of_dvd (by decide) k.size_dvd
    have hlane : lane (a + BitVec.ofNat 32 i) = lane a + i := by
      rw [DataMemory.lane_eq] at hdvd ⊢
      rw [DataMemory.lane_eq, BitVec.toNat_add, BitVec.toNat_ofNat]
      obtain ⟨n, hn⟩ : ∃ n, n = k.size := ⟨_, rfl⟩
      have hcases : n = 1 ∨ n = 2 ∨ n = 4 := by
        rw [hn]
        cases k <;> decide
      rw [← hn] at hdvd hi
      rcases hcases with rfl | rfl | rfl <;> omega
    rw [hlane]
  rw [DataMemory.loadData_of_field k hk hfield, loaded_bit]

theorem base_ne {a : Word} (ha : ¬ 4 ∣ a.toNat) : DeviceMem.base a ≠ a := by
  intro h
  have hbase := DeviceMem.base_toNat a
  rw [h] at hbase
  exact ha ⟨_, hbase⟩

/-- **A load at another address** gives a byte that is not its own. -/
theorem load_differs (k : LoadKind) {a : Word} (hk : k.size ∣ a.toNat) (ha : ¬ 4 ∣ a.toNat) :
    ∃ mem : DeviceMem, MemoryStage.loadData k.funct3 a (mem.word a) ≠ loaded mem.flat a k := by
  obtain ⟨mem, hmem⟩ : ∃ mem : DeviceMem, mem = DeviceMem.put (fun _ _ => 0) (DeviceMem.base a) (lane a) 1 := ⟨_, rfl⟩
  refine ⟨mem, fun h => ?_⟩
  have hbit := congrArg (fun x => x.getLsbD 0) h
  simp only [loadData_bit k hk, loaded_bit, DeviceMem.byteOf_word mem a (DeviceMem.lane_lt a)] at hbit
  have hhere : mem.flat a = 1 := by
    rw [hmem, DeviceMem.flat, DeviceMem.byte, DeviceMem.put, if_pos ⟨rfl, rfl⟩]
  have hthere : mem.byte a (lane a) = 0 := by
    rw [hmem, DeviceMem.byte, DeviceMem.put, if_neg]
    rintro ⟨haddr, -⟩
    exact base_ne ha ((BitVec.add_left_inj _).1 haddr).symm
  rw [hhere, hthere] at hbit
  exact absurd hbit (by decide)

/-- **A store at another address** leaves its byte as it was. -/
theorem store_differs (k : StoreKind) {a : Word} (ha : ¬ 4 ∣ a.toNat) :
    ((store k a 1).cmd.port.serve fun _ _ => 0).1.flat a ≠ (DeviceMem.flat fun _ _ => 0).store a k.size
      (1 : Word) a := by
  have hfar : ¬ DeviceMem.place a (DeviceMem.base a + BitVec.ofNat 32 (lane a / 2)) (lane a % 2 == 1) < 4 := by
    have hlt := a.isLt
    have hbase := DeviceMem.base_toNat a
    rw [DeviceMem.place, BitVec.toNat_sub, BitVec.toNat_add, hbase, BitVec.toNat_ofNat, DataMemory.lane_eq]
    rcases show a.toNat % 4 = 1 ∨ a.toNat % 4 = 2 ∨ a.toNat % 4 = 3 by omega with h | h | h <;> rw [h] <;> simp <;>
      omega
  have hcode : ((store k a 1).cmd.port.serve fun _ _ => 0).1.flat a = 0 := if_neg fun h => hfar h.1
  have hflat : (DeviceMem.flat fun _ _ => 0).store a k.size (1 : Word) a = 1 := by
    have hzero : (a - a).toNat = 0 := by simp
    have hpos : 0 < k.size := by cases k <;> decide
    rw [ByteMem.store, hzero, if_pos hpos]
    rfl
  rw [hcode, hflat]
  decide

/-! ## Sequences -/

def shape : MemOp → MemOp
  | load k a => load k a
  | store k a _ => store k a 0

/-- a store of what is there already -/
def refill (mem : DeviceMem) : MemOp → MemOp
  | load k a => load k a
  | store k a _ => store k a (mem.word a)

@[simp] theorem shape_refill (mem : DeviceMem) (op : MemOp) : (op.refill mem).shape = op.shape := by
  cases op <;> rfl

@[simp] theorem addr_refill (mem : DeviceMem) (op : MemOp) : (op.refill mem).addr = op.addr := by
  cases op <;> rfl

/-- at the address of a word, it changes nothing -/
theorem serve_refill (mem : DeviceMem) (op : MemOp) (ha : 4 ∣ op.addr.toNat) :
    ((op.refill mem).cmd.port.serve mem).1 = mem := by
  cases op with
  | load k a => rfl
  | store k a d =>
    have ha : 4 ∣ a.toNat := ha
    have hk : k.size ∣ a.toNat := Nat.dvd_trans k.size_dvd ha
    have hzero : lane a = 0 := by
      rw [DataMemory.lane_eq]
      omega
    funext x high
    change mem.write a (MemoryStage.storeData k.funct3 a (mem.word a)) (axiCmdWstrb k.funct3 a) 4 x high = mem x high
    rw [DeviceMem.write]
    split
    case isFalse => rfl
    case isTrue h =>
      obtain ⟨hplace, hstrb⟩ := h
      obtain ⟨hlo, hhi⟩ := (DataMemory.axiCmdWstrb_lane k hk hplace).1 hstrb
      obtain ⟨hx, hhigh⟩ := (DeviceMem.place_eq_iff hplace).1 rfl
      rw [DataMemory.byteOf_storeData k _ hk hlo hhi, hzero, Nat.sub_zero, DeviceMem.byteOf_word mem a hplace,
        DeviceMem.byte, ← hx, ← hhigh]

def ports (ops : List MemOp) : List PortOp := ops.map fun op => op.cmd.port

theorem serveRun_refill (mem : DeviceMem) (ops : List MemOp) (hops : ∀ op ∈ ops, 4 ∣ op.addr.toNat) :
    (PortOp.serveRun mem (ports (ops.map (refill mem)))).1 = mem := by
  induction ops with
  | nil => rfl
  | cons op ops ih =>
    change (PortOp.serveRun ((op.refill mem).cmd.port.serve mem).1 (ports (ops.map (refill mem)))).1 = mem
    rw [serve_refill mem op (hops op List.mem_cons_self)]
    exact ih fun o ho => hops o (List.mem_cons_of_mem op ho)

theorem flatRun_append (f : ByteMem 32) (ops ops' : List MemOp) : flatRun f (ops ++ ops') =
    ((flatRun (flatRun f ops).1 ops').1, (flatRun f ops).2 ++ (flatRun (flatRun f ops).1 ops').2) := by
  induction ops generalizing f with
  | nil => rfl
  | cons op ops ih => simp [flatRun, ih]

end MemOp

namespace HyperBus

open MemOp (ports flatRun)

variable {latency : BitVec 8}

def request : PortOp → HyperIn
  | .read a => ⟨⟨true, a, true, false, 0, false, 0, 0, true⟩, false⟩
  | .write a d strb => ⟨⟨false, 0, true, true, a, true, d, strb, true⟩, false⟩

def quiet : HyperIn := ⟨⟨false, 0, true, false, 0, false, 0, 0, true⟩, false⟩

theorem accepted_request {s : HyperBus} (hs : s.ctrl.state = .idle) (op : PortOp) : s.accepted (request op) = [op] := by
  cases op <;> simp [accepted, hs, request]

theorem accepted_quiet (s : HyperBus) : s.accepted quiet = [] := by simp [accepted, quiet]

theorem run_exists (hlat : 2 ≤ latency.toNat ∧ latency.toNat ≤ 127) (mem : DeviceMem) (ops : List PortOp) :
    ∃ ins n, acceptLog latency mem ins n = ops ∧ (after latency mem ins n).ctrl.state = .idle := by
  induction ops using List.reverseRecOn with
  | nil => exact ⟨fun _ => quiet, 0, rfl, rfl⟩
  | append_singleton ops op ih =>
    obtain ⟨ins, n, haccept, hidle⟩ := ih
    obtain ⟨ins', hins'⟩ : ∃ ins' : ℕ → HyperIn, ins' = fun k =>
        if k < n then ins k else if k = n then request op else quiet :=
      ⟨_, rfl⟩
    have hbefore : ∀ k < n, ins' k = ins k := fun k hk => by rw [hins']; exact if_pos hk
    have hnow : ins' n = request op := by simp [hins']
    have hafter (k : ℕ) : ins' (n + 1 + k) = quiet := by
      rw [hins']
      exact (if_neg (by omega)).trans (if_neg (by omega))
    have hlog : acceptLog latency mem ins' n = ops := (Machine.log_congr _ _ _ n hbefore).trans haccept
    have hstate : (after latency mem ins' n).ctrl.state = .idle := by
      rw [after, Machine.trace_congr _ _ _ n hbefore]
      exact hidle
    have hlog' : acceptLog latency mem ins' (n + 1) = ops ++ [op] := by
      rw [acceptLog, Machine.log_succ, hnow]
      exact congrArg₂ (· ++ ·) hlog (accepted_request hstate op)
    obtain ⟨_, -, -, hstage⟩ := run_serves latency mem ins' (n + 1)
    obtain ⟨m, hm⟩ := reaches_idle hlat hstage (counts_after latency mem ins' (n + 1))
      (fun k => ins' (n + 1 + k)) fun k => by
      rw [hafter k]
      exact ⟨rfl, rfl⟩
    refine ⟨ins', n + 1 + m, ?_, ?_⟩
    · rw [acceptLog, Machine.log_add]
      have hnone : Machine.log accepted (step latency) (after latency mem ins' (n + 1))
          (fun k => ins' (n + 1 + k)) m = [] := by
        refine List.eq_nil_iff_forall_not_mem.2 fun e he => ?_
        obtain ⟨k, -, hk⟩ := (Machine.mem_log _ _ _).1 he
        rw [hafter k, accepted_quiet] at hk
        exact absurd hk List.not_mem_nil
      exact (congrArg₂ (· ++ ·) hlog' hnone).trans (List.append_nil _)
    · rw [after, Machine.trace_add]
      exact hm

/-- what a flat memory promises about a sequence of accesses, in every cycle of every run that takes them over -/
structure FlatRuns (latency : BitVec 8) (mem : DeviceMem) (ops : List MemOp) : Prop where
  results : ∀ ins n, acceptLog latency mem ins n <+: ports ops →
    List.zipWith MemOp.result ops (answerLog latency mem ins n) =
    (flatRun mem.flat (ops.take (answerLog latency mem ins n).length)).2
  contents : ∀ ins n, acceptLog latency mem ins n <+: ports ops → (after latency mem ins n).ctrl.state = .idle →
    (answerLog latency mem ins n).length = (acceptLog latency mem ins n).length ∧
      (after latency mem ins n).dev.mem.flat = (flatRun mem.flat (ops.take (answerLog latency mem ins n).length)).1
  ends : ∀ (ins : ℕ → HyperIn) (n : ℕ), (∀ k ≥ n, (ins k).m.rready = true ∧ (ins k).m.bready = true) →
    ∃ m ≥ n, (after latency mem ins m).ctrl.state = .idle

/-- an idle controller has answered everything -/
theorem run_serves_idle (mem : DeviceMem) (ins : ℕ → HyperIn) (n : ℕ)
    (h : (after latency mem ins n).ctrl.state = .idle) :
    answerLog latency mem ins n = (PortOp.serveRun mem (acceptLog latency mem ins n)).2 ∧
      (after latency mem ins n).dev.mem = (PortOp.serveRun mem (acceptLog latency mem ins n)).1 := by
  obtain ⟨ops, haccept, hanswer, hstage⟩ := run_serves latency mem ins n
  have hnone : (after latency mem ins n).underWay = [] := if_pos h
  rw [hnone, List.append_nil] at haccept
  rw [haccept]
  refine ⟨hanswer, ?_⟩
  cases hstage with
  | idle _ hmem => exact hmem
  | cmd hs | latency hs | read _ hs | write _ hs | done hs =>
    rw [h] at hs
    exact HyperState.noConfusion hs

theorem zipWith_take {α β γ : Type*} (f : α → β → γ) (l : List α) (l' : List β) :
    List.zipWith f l l' = List.zipWith f (l.take l'.length) l' := by
  induction l generalizing l' with
  | nil => simp
  | cons a l ih =>
    cases l' with
    | nil => rfl
    | cons b l' => exact congrArg (f a b :: ·) (ih l')

theorem flat_of_aligned (hlat : 2 ≤ latency.toNat ∧ latency.toNat ≤ 127) (mem : DeviceMem) (ops : List MemOp)
    (hops : ∀ op ∈ ops, 4 ∣ op.addr.toNat) : FlatRuns latency mem ops := by
  -- the accesses that have been answered are the first ones
  have hserved (ins : ℕ → HyperIn) (n : ℕ) (h : acceptLog latency mem ins n <+: ports ops) :
      answerLog latency mem ins n =
      (PortOp.serveRun mem (ports (ops.take (answerLog latency mem ins n).length))).2 := by
    obtain ⟨served, haccept, hanswer, -⟩ := run_serves latency mem ins n
    have hlength : (answerLog latency mem ins n).length = served.length := by rw [hanswer, PortOp.length_serveRun]
    have hprefix : served <+: ports ops := (List.prefix_append served _).trans (haccept ▸ h)
    have htake : served = ports (ops.take served.length) := by
      rw [ports, List.map_take]
      exact List.prefix_iff_eq_take.1 hprefix
    rw [hlength, ← htake]
    exact hanswer
  have hfirst (k : ℕ) : ∀ op ∈ ops.take k, 4 ∣ op.addr.toNat := fun op hop => hops op (List.mem_of_mem_take hop)
  refine ⟨fun ins n h => ?_, fun ins n h hidle => ?_, fun ins n => run_idle hlat mem ins n⟩
  · obtain ⟨-, hresults⟩ := MemOp.serveRun_flat mem _ (hfirst (answerLog latency mem ins n).length)
    rw [zipWith_take, ← hresults]
    exact congrArg _ (hserved ins n h)
  · obtain ⟨hanswer, hmem⟩ := run_serves_idle mem ins n hidle
    have hlength : (answerLog latency mem ins n).length = (acceptLog latency mem ins n).length := by
      rw [hanswer, PortOp.length_serveRun]
    refine ⟨hlength, ?_⟩
    have htake : acceptLog latency mem ins n = ports (ops.take (answerLog latency mem ins n).length) := by
      rw [ports, List.map_take, hlength]
      exact List.prefix_iff_eq_take.1 h
    obtain ⟨hflat, -⟩ := MemOp.serveRun_flat mem _ (hfirst (answerLog latency mem ins n).length)
    rw [hmem, htake, ← hflat]
    rfl

/-- **One wrong access is enough**: after accesses that change nothing, an access that is not one on the flat memory. -/
theorem not_flat (hlat : 2 ≤ latency.toNat ∧ latency.toNat ≤ 127) (mem : DeviceMem) {pre post : List MemOp} {op : MemOp}
    (hpre : ∀ o ∈ pre, 4 ∣ o.addr.toNat) (hbad : (op.cmd.port.serve mem).1.flat ≠ (op.flat mem.flat).1 ∨
      op.result (op.cmd.port.serve mem).2 ≠ (op.flat mem.flat).2) :
    ¬ FlatRuns latency mem (pre.map (MemOp.refill mem) ++ op :: post) := by
  intro h
  obtain ⟨pre', hpre'⟩ : ∃ pre', pre' = pre.map (MemOp.refill mem) := ⟨_, rfl⟩
  rw [← hpre'] at h
  have hwords : ∀ o ∈ pre', 4 ∣ o.addr.toNat := by
    intro o ho
    rw [hpre', List.mem_map] at ho
    obtain ⟨o', ho', rfl⟩ := ho
    rw [MemOp.addr_refill]
    exact hpre o' ho'
  have hsame : (PortOp.serveRun mem (ports pre')).1 = mem := by
    rw [hpre']
    exact MemOp.serveRun_refill mem pre hpre
  have hflat : (flatRun mem.flat pre').1 = mem.flat := by
    rw [← (MemOp.serveRun_flat mem pre' hwords).1]
    exact congrArg DeviceMem.flat hsame
  obtain ⟨ins, n, haccept, hidle⟩ := run_exists hlat mem (ports (pre' ++ [op]))
  obtain ⟨hanswer, hmem⟩ := run_serves_idle mem ins n hidle
  have happend : ports (pre' ++ [op]) = ports pre' ++ [op.cmd.port] := List.map_append
  have hserve : PortOp.serveRun mem (ports (pre' ++ [op])) =
      ((op.cmd.port.serve mem).1, (PortOp.serveRun mem (ports pre')).2 ++ [(op.cmd.port.serve mem).2]) := by
    rw [happend, PortOp.serveRun_append, hsame]
    rfl
  have hflatRun : flatRun mem.flat (pre' ++ [op]) =
      ((op.flat mem.flat).1, (flatRun mem.flat pre').2 ++ [(op.flat mem.flat).2]) := by
    rw [MemOp.flatRun_append, hflat]
    rfl
  rw [haccept, hserve] at hanswer hmem
  have hprefix : acceptLog latency mem ins n <+: ports (pre' ++ op :: post) := by
    rw [haccept]
    exact ⟨ports post, by simp [ports]⟩
  have hlength : (PortOp.serveRun mem (ports pre')).2.length = pre'.length := by simp [ports]
  have htake : (pre' ++ op :: post).take (answerLog latency mem ins n).length = pre' ++ [op] := by
    rw [hanswer, List.length_append, hlength]
    simp [List.take_append]
  rcases hbad with hbad | hbad
  · have hcontents := (h.contents ins n hprefix hidle).2
    rw [hmem, htake, hflatRun] at hcontents
    exact hbad hcontents
  · have hresults := h.results ins n hprefix
    rw [htake, hflatRun, hanswer, List.zipWith_append hlength.symm] at hresults
    have hlast := (List.append_inj' hresults (by simp)).2
    exact hbad (List.cons.inj hlast).1

/-- the first access at another address than that of a word -/
theorem first_unaligned {ops : List MemOp} (h : ¬ ∀ op ∈ ops, 4 ∣ op.addr.toNat) :
    ∃ pre op post, ops = pre ++ op :: post ∧ (∀ o ∈ pre, 4 ∣ o.addr.toNat) ∧ ¬ 4 ∣ op.addr.toNat := by
  induction ops with
  | nil => exact absurd (fun op hop => absurd hop List.not_mem_nil) h
  | cons op ops ih =>
    by_cases hop : 4 ∣ op.addr.toNat
    · obtain ⟨pre, bad, post, rfl, hpre, hbad⟩ := ih fun hall => h (List.forall_mem_cons.2 ⟨hop, hall⟩)
      exact ⟨op :: pre, bad, post, rfl, List.forall_mem_cons.2 ⟨hop, hpre⟩, hbad⟩
    · exact ⟨[], op, ops, rfl, fun o ho => absurd ho List.not_mem_nil, hop⟩

/-- **HyperRAM is a flat byte memory for the accesses at addresses of words, and for no others**: a sequence of aligned
accesses behaves as on a flat memory in every run, with any data and on any contents, exactly if each of its addresses
is a multiple of 4. Flat is relative to the byte map `flat` of word accesses: a sequence without them could also be flat
under another map. -/
theorem flat_iff (hlat : 2 ≤ latency.toNat ∧ latency.toNat ≤ 127) (ops : List MemOp)
    (haligned : ∀ op ∈ ops, op.size ∣ op.addr.toNat) :
    (∀ mem ops', ops'.map MemOp.shape = ops.map MemOp.shape → FlatRuns latency mem ops') ↔
      ∀ op ∈ ops, 4 ∣ op.addr.toNat := by
  have haddr {ops' : List MemOp} (h : ops'.map MemOp.shape = ops.map MemOp.shape) :
      ops'.map MemOp.addr = ops.map MemOp.addr := by
    have hshape : (MemOp.addr ∘ MemOp.shape) = MemOp.addr := by
      funext op
      cases op <;> rfl
    have hmap := congrArg (List.map MemOp.addr) h
    rwa [List.map_map, List.map_map, hshape] at hmap
  refine ⟨fun h => ?_, fun h mem ops' hshape => ?_⟩
  · by_contra hnot
    obtain ⟨pre, op, post, hops, hpre, hop⟩ := first_unaligned hnot
    have hk : op.size ∣ op.addr.toNat := haligned op (by rw [hops]; simp)
    have hrefilled (mem : DeviceMem) : (pre.map (MemOp.refill mem)).map MemOp.shape = pre.map MemOp.shape := by
      rw [List.map_map]
      exact List.map_congr_left fun o _ => MemOp.shape_refill mem o
    cases op with
    | load k a =>
      obtain ⟨mem, hdiffers⟩ := MemOp.load_differs k hk hop
      have hbad : (MemOp.load k a).result ((MemOp.load k a).cmd.port.serve mem).2 ≠
          ((MemOp.load k a).flat mem.flat).2 :=
        fun heq => hdiffers (Option.some.inj heq)
      refine not_flat hlat mem hpre (.inr hbad) (h mem (pre.map (MemOp.refill mem) ++ .load k a :: post) ?_)
      rw [hops, List.map_append, List.map_append, hrefilled]
    | store k a d =>
      have hbad : ((MemOp.store k a 1).cmd.port.serve fun _ _ => 0).1.flat ≠
          ((MemOp.store k a 1).flat (DeviceMem.flat fun _ _ => 0)).1 :=
        fun heq => MemOp.store_differs k hop (congrFun heq a)
      refine not_flat hlat (fun _ _ => 0) hpre (.inl hbad) (h _ (pre.map (MemOp.refill _) ++ .store k a 1 :: post) ?_)
      rw [hops, List.map_append, List.map_append, hrefilled]
      rfl
  · refine flat_of_aligned hlat mem ops' fun op hop => ?_
    have hmem : op.addr ∈ ops.map MemOp.addr := by
      rw [← haddr hshape]
      exact List.mem_map_of_mem hop
    obtain ⟨op', hop', heq⟩ := List.mem_map.1 hmem
    rw [← heq]
    exact h op' hop'

def wordByte : List MemOp := [.store .sw 0x20000000 0x03020100, .load .lbu 0x20000001]

def twoWords : List MemOp := [.store .sw 0x20000004 0x11223344, .load .lw 0x20000004, .load .lbu 0x20000008]

theorem flat_iff_twoWords : (∀ mem ops', ops'.map MemOp.shape = twoWords.map MemOp.shape → FlatRuns LATENCY mem ops') ↔
    ∀ op ∈ twoWords, 4 ∣ op.addr.toNat :=
  flat_iff ⟨by decide, by decide⟩ twoWords (by decide)

/-- the device gives the fourth byte of the word for the second -/
theorem wordByte_not_flat : (∀ op ∈ wordByte, op.size ∣ op.addr.toNat) ∧
    ¬ FlatRuns LATENCY (fun _ _ => 0) wordByte := by
  refine ⟨by decide, fun h => ?_⟩
  have hlat : 2 ≤ LATENCY.toNat ∧ LATENCY.toNat ≤ 127 := by decide
  obtain ⟨ins, n, haccept, hidle⟩ := run_exists hlat (fun _ _ => 0) (ports wordByte)
  obtain ⟨hanswer, -⟩ := run_serves_idle (fun _ _ => 0) ins n hidle
  have hresults := h.results ins n (haccept ▸ List.prefix_refl _)
  rw [hanswer, haccept] at hresults
  exact absurd hresults (by decide)

end HyperBus

end Vsync
