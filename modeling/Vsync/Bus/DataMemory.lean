/-
Loads and stores of the data memory: `memory_stage`, the strobes of `vsync_top.sv`, the bus and `bram_dmem`, against a
flat byte memory.

An operation is at the memory stage from some cycle on, and stays there until `cmd_done`; between two operations, any
number of cycles may pass.

- `Session`: operations that are carried through one after the other.
- `agrees_store`, `load_agrees`: the lanes of one operation.
- `session_flat`: every session gives what the flat memory gives.
-/
import Vsync.ByteMem
import Vsync.Bus.Bram
import Vsync.Core.MemoryStage

namespace Vsync

open Interconnect (decode)

def axiCmdWstrb (size : BitVec 3) (addr : Word) : BitVec 4 :=
  if size = 0b000#3 then 0b0001#4 <<< (addr.extractLsb' 0 2)
  else if size = 0b001#3 then 0b0011#4 <<< (addr.extractLsb' 0 2)
  else 0b1111

inductive LoadKind where
  | lb
  | lbu
  | lh
  | lhu
  | lw
  deriving DecidableEq, Repr

inductive StoreKind where
  | sb
  | sh
  | sw
  deriving DecidableEq, Repr

def LoadKind.funct3 : LoadKind → BitVec 3
  | lb => 0b000
  | lbu => 0b100
  | lh => 0b001
  | lhu => 0b101
  | lw => 0b010

def StoreKind.funct3 : StoreKind → BitVec 3
  | sb => 0b000
  | sh => 0b001
  | sw => 0b010

/-- the bytes of an operation -/
def LoadKind.size : LoadKind → ℕ
  | lb | lbu => 1
  | lh | lhu => 2
  | lw => 4

def StoreKind.size : StoreKind → ℕ
  | sb => 1
  | sh => 2
  | sw => 4

theorem StoreKind.size_dvd (k : StoreKind) : k.size ∣ 4 := by
  cases k <;> decide

theorem LoadKind.size_dvd (k : LoadKind) : k.size ∣ 4 := by
  cases k <;> decide

inductive MemOp where
  | load (kind : LoadKind) (addr : Word)
  | store (kind : StoreKind) (addr data : Word)
  deriving DecidableEq, Repr

namespace MemOp

def addr : MemOp → Word
  | load _ a => a
  | store _ a _ => a

def size : MemOp → ℕ
  | load k _ => k.size
  | store k _ _ => k.size

/-- the address range of the data memory -/
def InDmem (x : Word) : Prop := 0x00010000 ≤ x ∧ x ≤ 0x00013FFF

structure Ok (op : MemOp) : Prop where
  aligned : op.size ∣ op.addr.toNat
  range : InDmem op.addr

/-- the command lines with the operation at the memory stage -/
def cmd : MemOp → BusCmd
  | load k a => ⟨true, false, a, 0, axiCmdWstrb k.funct3 a⟩
  | store k a d => ⟨false, true, a, MemoryStage.storeData k.funct3 a d, axiCmdWstrb k.funct3 a⟩

/-- `load_data` of a load -/
def result : MemOp → Word → Option Word
  | load k a, rdata => some (MemoryStage.loadData k.funct3 a rdata)
  | store _ _ _, _ => none

/-! ## The flat memory -/

def loaded (m : ByteMem 32) (addr : Word) : LoadKind → Word
  | .lb => (m.load addr 1).signExtend 32
  | .lbu => (m.load addr 1).setWidth 32
  | .lh => (m.load addr 2).signExtend 32
  | .lhu => (m.load addr 2).setWidth 32
  | .lw => m.load addr 4

def flat (m : ByteMem 32) : MemOp → ByteMem 32 × Option Word
  | load k a => (m, some (loaded m a k))
  | store k a d => (m.store a k.size d, none)

/-- operations, in order -/
def flatRun (m : ByteMem 32) : List MemOp → ByteMem 32 × List (Option Word)
  | [] => (m, [])
  | op :: ops => ((flatRun (op.flat m).1 ops).1, (op.flat m).2 :: (flatRun (op.flat m).1 ops).2)

end MemOp

/-! ## Sessions -/

/-- no operation at the memory stage -/
def BusCmd.none : BusCmd := ⟨false, false, 0, 0, 0⟩

namespace DataMemory

variable {mem : BitVec 12 → Word}

def bytes (m : BitVec 12 → Word) : ByteMem 32 := fun x => byteOf (m (x.extractLsb' 2 12)) (x.extractLsb' 0 2).toNat

/-- the inputs with an operation at the memory stage -/
def held (op : MemOp) : ℕ → BusIn (bramDmem mem) := fun _ => ⟨op.cmd, ()⟩

/-- the operation is held until `cmd_done`; the bus after that cycle, and the result in it -/
def Carried (b : Bus (bramDmem mem)) (op : MemOp) (b' : Bus (bramDmem mem)) (r : Option Word) : Prop :=
  ∃ n, (∀ j < n, (b.after 0 (held op) j).master.cmdDone = false) ∧ (b.after 0 (held op) n).master.cmdDone = true ∧
    b' = b.after 0 (held op) (n + 1) ∧ r = op.result (b.after 0 (held op) n).master.cmdRdata

/-- operations carried through one after the other, with their results -/
inductive Session : Bus (bramDmem mem) → List MemOp → Bus (bramDmem mem) → List (Option Word) → Prop where
  | nil (b : Bus (bramDmem mem)) : Session b [] b []
  | wait {b b' : Bus (bramDmem mem)} {ops : List MemOp} {rs : List (Option Word)}
      (h : Session (b.step 0 ⟨.none, ()⟩) ops b' rs) : Session b ops b' rs
  | op {b b₁ b' : Bus (bramDmem mem)} {op : MemOp} {ops : List MemOp} {r : Option Word} {rs : List (Option Word)}
      (hop : Carried b op b₁ r) (h : Session b₁ ops b' rs) : Session b (op :: ops) b' (r :: rs)

/-! ## Lanes -/

/-- the lane of an address in its word -/
def lane (x : Word) : ℕ := (x.extractLsb' 0 2).toNat

theorem lane_eq (x : Word) : lane x = x.toNat % 4 := by simp [lane]

theorem index_toNat (x : Word) : (x.extractLsb' 2 12).toNat = x.toNat / 4 % 4096 := by
  simp [BitVec.extractLsb'_toNat, Nat.shiftRight_eq_div_pow]

theorem inDmem_iff {x : Word} : MemOp.InDmem x ↔ 65536 ≤ x.toNat ∧ x.toNat < 81920 := by
  simp only [MemOp.InDmem, BitVec.le_def]
  simp
  omega

/-- alignment is a matter of the lane -/
theorem dvd_lane {n : ℕ} (hn : n ∣ 4) {a : Word} (ha : n ∣ a.toNat) : n ∣ lane a := by
  rw [lane_eq]
  exact (Nat.dvd_mod_iff hn).2 ha

/-- the upper half of a word -/
theorem getLsbD_one {a : Word} (ha : 2 ∣ lane a) : a.getLsbD 1 = decide (lane a = 2) := by
  have hall : ∀ l : BitVec 2, 2 ∣ l.toNat → l.getLsbD 1 = decide (l.toNat = 2) := by decide
  have hbit : (a.extractLsb' 0 2).getLsbD 1 = a.getLsbD 1 := by rw [BitVec.getLsbD_extractLsb']; rfl
  rw [← hbit]
  exact hall _ ha

/-- the strobes of an aligned store are up in its lanes -/
theorem axiCmdWstrb_lane (k : StoreKind) {a : Word} (ha : k.size ∣ a.toNat) {i : ℕ} (hi : i < 4) :
    (axiCmdWstrb k.funct3 a).getLsbD i = true ↔ lane a ≤ i ∧ i < lane a + k.size := by
  have hall : ∀ (l : BitVec 2) (j : Fin 4), k.size ∣ l.toNat →
      ((if k.funct3 = 0b000#3 then 0b0001#4 <<< l else if k.funct3 = 0b001#3 then 0b0011#4 <<< l
        else 0b1111#4).getLsbD j = true ↔
        l.toNat ≤ j ∧ j < l.toNat + k.size) := by
    cases k <;> decide
  exact hall (a.extractLsb' 0 2) ⟨i, hi⟩ (dvd_lane k.size_dvd ha)

/-- the data of an aligned store is in its lanes -/
theorem byteOf_storeData (k : StoreKind) {a : Word} (d : Word) (ha : k.size ∣ a.toNat) {i : ℕ} (hlo : lane a ≤ i)
    (hhi : i < lane a + k.size) : byteOf (MemoryStage.storeData k.funct3 a d) i = byteOf d (i - lane a) := by
  have hlane : lane a < 4 := by
    rw [lane_eq]
    omega
  have hdvd := dvd_lane k.size_dvd ha
  apply BitVec.eq_of_getLsbD_eq
  intro j hj
  rw [getLsbD_byteOf _ _ hj, getLsbD_byteOf _ _ hj]
  cases k with
  | sb =>
    have hi : i = lane a := by
      simp only [StoreKind.size] at hhi
      omega
    have hdata : MemoryStage.storeData StoreKind.sb.funct3 a d = (d.extractLsb' 0 8).setWidth 32 <<< (lane a * 8) := rfl
    rw [hdata, hi, BitVec.getLsbD_shiftLeft, BitVec.getLsbD_setWidth, BitVec.getLsbD_extractLsb']
    simp [show 8 * lane a + j < 32 by omega, show ¬ 8 * lane a + j < lane a * 8 by omega,
      show 8 * lane a + j - lane a * 8 = j by omega, hj, show j < 32 by omega]
  | sh =>
    have hdata : MemoryStage.storeData StoreKind.sh.funct3 a d =
        if a.getLsbD 1 then d.extractLsb' 0 16 ++ 0#16 else (d.extractLsb' 0 16).setWidth 32 := rfl
    rw [hdata, getLsbD_one hdvd]
    simp only [StoreKind.size] at hhi hdvd
    rcases show lane a = 0 ∨ lane a = 2 by omega with h | h
    · rw [h, decide_eq_false (by omega), if_neg Bool.false_ne_true, BitVec.getLsbD_setWidth, BitVec.getLsbD_extractLsb']
      simp [show 8 * i + j < 32 by omega, show 8 * i + j < 16 by omega]
    · have happend : (d.extractLsb' 0 16 ++ 0#16).getLsbD (8 * i + j) = d.getLsbD (8 * (i - 2) + j) := by
        rw [BitVec.getLsbD_append, if_neg (by omega), BitVec.getLsbD_extractLsb', decide_eq_true (by omega),
          Bool.true_and]
        congr 1
        omega
      rw [h, decide_eq_true rfl, if_pos rfl]
      exact happend
  | sw =>
    have hzero : lane a = 0 := by
      simp only [StoreKind.size] at hdvd
      omega
    rw [hzero, Nat.sub_zero]
    rfl

/-! ## One operation -/

/-- the words hold the bytes of the flat memory, in the range of the data memory -/
def Agrees (m : BitVec 12 → Word) (f : ByteMem 32) : Prop := ∀ x, MemOp.InDmem x → bytes m x = f x

theorem agrees_bytes (m : BitVec 12 → Word) : Agrees m (bytes m) := fun _ _ => rfl

/-- two addresses of the data memory in one word -/
theorem index_eq_iff {x a : Word} (hx : MemOp.InDmem x) (ha : MemOp.InDmem a) :
    x.extractLsb' 2 12 = a.extractLsb' 2 12 ↔ x.toNat / 4 = a.toNat / 4 := by
  rw [inDmem_iff] at hx ha
  rw [← BitVec.toNat_inj, index_toNat, index_toNat]
  omega

/-- the bytes of an aligned access are the lanes of its word -/
theorem offset_lt_iff {n : ℕ} (hn : n ∣ 4) {x a : Word} (hx : MemOp.InDmem x) (ha : MemOp.InDmem a)
    (hdvd : n ∣ a.toNat) :
    (x - a).toNat < n ↔ x.toNat / 4 = a.toNat / 4 ∧ lane a ≤ lane x ∧ lane x < lane a + n := by
  have hdvd' := dvd_lane hn hdvd
  rw [inDmem_iff] at hx ha
  rw [lane_eq] at hdvd' ⊢
  rw [lane_eq, BitVec.toNat_sub]
  have hcases : n = 1 ∨ n = 2 ∨ n = 4 := by
    have hle := Nat.le_of_dvd (by omega) hn
    interval_cases n <;> omega
  rcases hcases with rfl | rfl | rfl <;> omega

theorem offset_eq {x a : Word} (h : x.toNat / 4 = a.toNat / 4) (hlane : lane a ≤ lane x) :
    (x - a).toNat = lane x - lane a := by
  rw [lane_eq] at hlane ⊢
  rw [lane_eq] at hlane ⊢
  rw [BitVec.toNat_sub]
  have hx := x.isLt
  have ha := a.isLt
  omega

/-- **An aligned store writes its bytes, and no others.** -/
theorem agrees_store {m : BitVec 12 → Word} {f : ByteMem 32} (h : Agrees m f) (k : StoreKind) {a : Word} (d : Word)
    (hk : k.size ∣ a.toNat) (ha : MemOp.InDmem a) :
    Agrees (Function.update m (a.extractLsb' 2 12) (mergeBytes (axiCmdWstrb k.funct3 a) (m (a.extractLsb' 2 12))
      (MemoryStage.storeData k.funct3 a d))) (f.store a k.size d) := by
  intro x hx
  have hlane : lane x < 4 := by
    rw [lane_eq]
    omega
  have hoffset := offset_lt_iff k.size_dvd hx ha hk
  rw [ByteMem.store, bytes]
  by_cases hindex : x.extractLsb' 2 12 = a.extractLsb' 2 12
  · have hword := (index_eq_iff hx ha).1 hindex
    rw [hindex, Function.update_self]
    change byteOf _ (lane x) = _
    rw [byteOf_mergeBytes _ _ _ hlane]
    by_cases hin : lane a ≤ lane x ∧ lane x < lane a + k.size
    · rw [if_pos ((axiCmdWstrb_lane k hk hlane).2 hin), if_pos (hoffset.2 ⟨hword, hin⟩), offset_eq hword hin.1,
        byteOf_storeData k d hk hin.1 hin.2]
    · rw [if_neg fun hs => hin ((axiCmdWstrb_lane k hk hlane).1 hs), if_neg fun ho => hin (hoffset.1 ho).2, ← hindex]
      exact h x hx
  · rw [Function.update_of_ne hindex, if_neg fun ho => hindex ((index_eq_iff hx ha).2 (hoffset.1 ho).1)]
    exact h x hx

/-- the bytes from an aligned address on, as a field of its word -/
theorem load_field {m : BitVec 12 → Word} {f : ByteMem 32} (h : Agrees m f) {n : ℕ} (hn : n ∣ 4) {a : Word}
    (hdvd : n ∣ a.toNat) (ha : MemOp.InDmem a) :
    f.load a n = (m (a.extractLsb' 2 12)).extractLsb' (8 * lane a) (8 * n) := by
  refine ByteMem.load_eq_extract f a _ (lane a) n fun i hi => ?_
  have hlane := dvd_lane hn hdvd
  have hle := Nat.le_of_dvd (by omega) hn
  have hfit : lane a + n ≤ 4 := by
    rw [lane_eq] at hlane ⊢
    interval_cases n <;> omega
  have hrange := inDmem_iff.1 ha
  have hadd : (a + BitVec.ofNat 32 i).toNat = a.toNat + i := by
    rw [BitVec.toNat_add, BitVec.toNat_ofNat]
    omega
  have hx : MemOp.InDmem (a + BitVec.ofNat 32 i) := by
    rw [inDmem_iff, hadd]
    rw [lane_eq] at hfit
    omega
  have hword : (a + BitVec.ofNat 32 i).extractLsb' 2 12 = a.extractLsb' 2 12 := by
    rw [index_eq_iff hx ha, hadd]
    rw [lane_eq] at hfit
    omega
  have hlanes : lane (a + BitVec.ofNat 32 i) = lane a + i := by
    rw [lane_eq, hadd]
    rw [lane_eq] at hfit ⊢
    omega
  rw [← h _ hx, bytes, hword]
  change byteOf _ (lane (a + BitVec.ofNat 32 i)) = _
  rw [hlanes]

/-- `load_data` of an aligned load is the field of its bytes, extended -/
theorem loadData_of_field {f : ByteMem 32} (k : LoadKind) {a : Word} (hk : k.size ∣ a.toNat) {w : Word}
    (hfield : f.load a k.size = w.extractLsb' (8 * lane a) (8 * k.size)) :
    MemoryStage.loadData k.funct3 a w = MemOp.loaded f a k := by
  have hdvd := dvd_lane k.size_dvd hk
  have hbyte : (w >>> (lane a * 8)).extractLsb' 0 8 = w.extractLsb' (8 * lane a) 8 := by
    apply BitVec.eq_of_getLsbD_eq
    intro j hj
    rw [BitVec.getLsbD_extractLsb', BitVec.getLsbD_extractLsb', BitVec.getLsbD_ushiftRight, Nat.zero_add,
      Nat.mul_comm 8]
  have hhalf (hdvd : 2 ∣ lane a) :
      (if a.getLsbD 1 then w.extractLsb' 16 16 else w.extractLsb' 0 16) = w.extractLsb' (8 * lane a) 16 := by
    have hlane : lane a < 4 := by
      rw [lane_eq]
      omega
    rw [getLsbD_one hdvd]
    rcases show lane a = 0 ∨ lane a = 2 by omega with h | h <;> rw [h] <;> rfl
  cases k with
  | lb =>
    change ((w >>> (lane a * 8)).extractLsb' 0 8).signExtend 32 = (f.load a 1).signExtend 32
    rw [hbyte]
    exact congrArg (BitVec.signExtend 32) hfield.symm
  | lbu =>
    change ((w >>> (lane a * 8)).extractLsb' 0 8).setWidth 32 = (f.load a 1).setWidth 32
    rw [hbyte]
    exact congrArg (BitVec.setWidth 32) hfield.symm
  | lh =>
    have hload : (if a.getLsbD 1 then w.extractLsb' 16 16 else w.extractLsb' 0 16) = f.load a 2 :=
      (hhalf hdvd).trans hfield.symm
    change (if a.getLsbD 1 then (w.extractLsb' 16 16).signExtend 32 else (w.extractLsb' 0 16).signExtend 32) =
      (f.load a 2).signExtend 32
    rw [← hload]
    split <;> rfl
  | lhu =>
    have hload : (if a.getLsbD 1 then w.extractLsb' 16 16 else w.extractLsb' 0 16) = f.load a 2 :=
      (hhalf hdvd).trans hfield.symm
    change (if a.getLsbD 1 then (w.extractLsb' 16 16).setWidth 32 else (w.extractLsb' 0 16).setWidth 32) =
      (f.load a 2).setWidth 32
    rw [← hload]
    split <;> rfl
  | lw =>
    have hzero : lane a = 0 := by
      have hlane := lane_eq a
      simp only [LoadKind.size] at hdvd
      omega
    change w = f.load a 4
    have hword : f.load a 4 = w.extractLsb' 0 32 := by
      rw [hzero] at hfield
      exact hfield
    rw [hword]
    simp

/-- **An aligned load gives its bytes**, extended. -/
theorem load_agrees {m : BitVec 12 → Word} {f : ByteMem 32} (h : Agrees m f) (k : LoadKind) {a : Word}
    (hk : k.size ∣ a.toNat) (ha : MemOp.InDmem a) :
    MemoryStage.loadData k.funct3 a (m (a.extractLsb' 2 12)) = MemOp.loaded f a k :=
  loadData_of_field k hk (load_field h k.size_dvd hk ha)

/-! ## Sessions against the flat memory -/

theorem decode_of_inDmem {x : Word} (h : MemOp.InDmem x) : decode x = some 0 := by
  rw [Interconnect.decode]
  exact if_pos h

/-- the bus between two operations, with contents that agree with the flat memory -/
structure Between (b : Bus (bramDmem mem)) (f : ByteMem 32) : Prop where
  ready : Bus.Ready BramBridge.Idle b
  agrees : Agrees (BramBridge.contents b) f

theorem between_reset (mem : BitVec 12 → Word) : Between (Bus.reset : Bus (bramDmem mem)) (bytes mem) :=
  ⟨⟨rfl, rfl, rfl⟩, agrees_bytes mem⟩

section Carried

variable {b b' : Bus (bramDmem mem)} {f : ByteMem 32} {op : MemOp}

/-- the cycle of `cmd_done` -/
theorem between_after {ins : ℕ → BusIn (bramDmem mem)} {n : ℕ}
    (hfinished : Bus.Finished BramBridge.Idle (b.after 0 ins n))
    (hagrees : Agrees ((b.eventLog 0 ins n).foldl BramBridge.afterEvent (BramBridge.contents b)) f) :
    Between (b.after 0 ins (n + 1)) f := by
  have hrests := (BramBridge.contract false mem 0).rests
  refine ⟨Bus.ready_of_finished hrests hfinished (ins n), ?_⟩
  have hlog : b.eventLog 0 ins (n + 1) = b.eventLog 0 ins n ++ (b.after 0 ins n).events 0 (ins n) := rfl
  have hsilent : (b.after 0 ins n).events 0 (ins n) = [] := Bus.events_finished hrests hfinished (ins n)
  have hcontents := BramBridge.contents_after 0 b ins (n + 1)
  rw [hlog, hsilent, List.append_nil] at hcontents
  rw [hcontents]
  exact hagrees

/-- **One operation** on the bus is one operation on the flat memory. -/
theorem carries (hb : Between b f) (hop : op.Ok) :
    ∃ n, (∀ j < n, (b.after 0 (held op) j).master.cmdDone = false) ∧ (b.after 0 (held op) n).master.cmdDone = true ∧
      Between (b.after 0 (held op) (n + 1)) (op.flat f).1 ∧
      op.result (b.after 0 (held op) n).master.cmdRdata = (op.flat f).2 := by
  have hC := BramBridge.contract false mem 0
  have hdecode := decode_of_inDmem hop.range
  cases op with
  | load k a =>
    obtain ⟨n, hdone, hfinished⟩ :=
      Bus.read_done hC (BramBridge.servesReads false mem) hb.ready (held (.load k a)) rfl hdecode
    obtain ⟨j, hj, hheld⟩ := hdone.held
    have hreads : ∀ e ∈ b.eventLog 0 (held (.load k a)) n, ∀ a' d strb, e ≠ .access (.write a' d strb) := by
      intro e he a' d strb
      rw [hdone.events] at he
      rintro rfl
      simp at he
    -- up to the access, nothing has been written
    have hprefix : ∀ e ∈ b.eventLog 0 (held (.load k a)) j, ∀ a' d strb, e ≠ .access (.write a' d strb) := by
      intro e he
      obtain ⟨i, hi, hmem⟩ := (Machine.mem_log _ _ _).1 he
      exact hreads e ((Machine.mem_log _ _ _).2 ⟨i, by omega, hmem⟩)
    have hcontents : BramBridge.contents (b.after 0 (held (.load k a)) j) = BramBridge.contents b := by
      rw [BramBridge.contents_after, BramBridge.foldl_afterEvent_of_reads _ hprefix]
    have hdata : (b.after 0 (held (.load k a)) n).master.cmdRdata = BramBridge.contents b (a.extractLsb' 2 12) := by
      rw [← hcontents]
      exact hheld
    refine ⟨n, hdone.first, hdone.done, between_after hfinished ?_, ?_⟩
    · rw [BramBridge.foldl_afterEvent_of_reads _ hreads]
      exact hb.agrees
    · rw [hdata]
      exact congrArg some (load_agrees hb.agrees k hop.aligned hop.range)
  | store k a d =>
    obtain ⟨n, hdone, hfinished⟩ :=
      Bus.write_done hC (BramBridge.servesWrites false mem _) hb.ready (held (.store k a d)) rfl rfl hdecode
    refine ⟨n, hdone.first, hdone.done, between_after hfinished ?_, rfl⟩
    rw [hdone.events]
    exact agrees_store hb.agrees k d hop.aligned hop.range

theorem carried_exists (hb : Between b f) (hop : op.Ok) : ∃ b₁ r, Carried b op b₁ r := by
  obtain ⟨n, hfirst, hdone, -, -⟩ := carries hb hop
  exact ⟨_, _, n, hfirst, hdone, rfl, rfl⟩

theorem carried_flat {r : Option Word} (hb : Between b f) (hop : op.Ok) (h : Carried b op b' r) :
    Between b' (op.flat f).1 ∧ r = (op.flat f).2 := by
  obtain ⟨n, hfirst, hdone, hbetween, hresult⟩ := carries hb hop
  obtain ⟨n', hfirst', hdone', rfl, rfl⟩ := h
  -- `cmd_done` comes for the first time once
  have hsame : n' = n := by
    rcases Nat.lt_trichotomy n' n with hlt | heq | hgt
    · exact absurd (hdone'.symm.trans (hfirst n' hlt)) (by decide)
    · exact heq
    · exact absurd (hdone.symm.trans (hfirst' n hgt)) (by decide)
  subst hsame
  exact ⟨hbetween, hresult⟩

theorem between_wait (hb : Between b f) : Between (b.step 0 ⟨.none, ()⟩) f := by
  have hC := BramBridge.contract false mem 0
  obtain ⟨hm, hx, hs⟩ := Bus.accepting (k := 0) hC.rests hb.ready (⟨.none, ()⟩ : BusIn (bramDmem mem))
  have hidle : (b.step 0 ⟨.none, ()⟩).master.state = .idle := by
    rw [hm, AxiMaster.step_none hb.ready.master rfl rfl]
  refine ⟨⟨hidle, hx, hs⟩, ?_⟩
  have hsilent : b.events 0 ⟨.none, ()⟩ = [] := Bus.events_ready hC.rests hb.ready _
  have hcontents := BramBridge.contents_after 0 b (fun _ => ⟨.none, ()⟩) 1
  have hlog : b.eventLog 0 (fun _ => ⟨.none, ()⟩) 1 = [] := by
    rw [Bus.eventLog, Machine.log_succ, Machine.log_zero, List.nil_append]
    exact hsilent
  rw [hlog] at hcontents
  have hsame : BramBridge.contents (b.step 0 ⟨.none, ()⟩) = BramBridge.contents b := hcontents
  rw [hsame]
  exact hb.agrees

end Carried

section Sessions

variable {b b' : Bus (bramDmem mem)} {f : ByteMem 32} {ops : List MemOp} {rs : List (Option Word)}

theorem session_exists (hb : Between b f) (hops : ∀ op ∈ ops, op.Ok) : ∃ b' rs, Session b ops b' rs := by
  induction ops generalizing b f with
  | nil => exact ⟨b, [], .nil b⟩
  | cons op ops ih =>
    have hop := hops op List.mem_cons_self
    obtain ⟨b₁, r, hcarried⟩ := carried_exists hb hop
    obtain ⟨b', rs, hrest⟩ := ih (carried_flat hb hop hcarried).1 fun o ho => hops o (List.mem_cons_of_mem op ho)
    exact ⟨b', r :: rs, .op hcarried hrest⟩

theorem session_between (h : Session b ops b' rs) (hb : Between b f) (hops : ∀ op ∈ ops, op.Ok) :
    rs = (MemOp.flatRun f ops).2 ∧ Between b' (MemOp.flatRun f ops).1 := by
  induction h generalizing f with
  | nil b => exact ⟨rfl, hb⟩
  | wait _ ih => exact ih (between_wait hb) hops
  | op hcarried _ ih =>
    obtain ⟨hb₁, hr⟩ := carried_flat hb (hops _ List.mem_cons_self) hcarried
    obtain ⟨hrs, hb'⟩ := ih hb₁ fun o ho => hops o (List.mem_cons_of_mem _ ho)
    refine ⟨?_, hb'⟩
    rw [hr, hrs]
    rfl

end Sessions

/-- **Data memory is a flat little-endian byte memory.** Aligned operations of its address range, from reset, in any
order and number, are all carried through; every load gives what the flat memory gives, and afterwards the memory holds
what the flat memory holds. -/
theorem session_flat (mem : BitVec 12 → Word) (ops : List MemOp) (hops : ∀ op ∈ ops, op.Ok) :
    (∃ b' rs, Session (Bus.reset : Bus (bramDmem mem)) ops b' rs) ∧
    ∀ b' rs, Session (Bus.reset : Bus (bramDmem mem)) ops b' rs →
      rs = (MemOp.flatRun (bytes mem) ops).2 ∧ Agrees (BramBridge.contents b') (MemOp.flatRun (bytes mem) ops).1 := by
  refine ⟨session_exists (between_reset mem) hops, fun b' rs h => ?_⟩
  obtain ⟨hrs, hb'⟩ := session_between h (between_reset mem) hops
  exact ⟨hrs, hb'.agrees⟩

def mixed : List MemOp :=
  [.store .sw 0x00010004 0x11223344, .store .sb 0x00010006 0xFFFFFF80, .load .lh 0x00010006, .load .lbu 0x00010004]

theorem mixed_ok : ∀ op ∈ mixed, op.Ok := by
  intro op h
  simp only [mixed, List.mem_cons, List.not_mem_nil, or_false] at h
  rcases h with rfl | rfl | rfl | rfl <;> exact ⟨by decide, by decide, by decide⟩

example : (MemOp.flatRun (bytes fun _ => 0) mixed).2 = [none, none, some 0x00001180, some 0x00000044] := by decide

theorem session_flat_mixed :
    (∃ b' rs, Session (Bus.reset : Bus (bramDmem fun _ => 0)) mixed b' rs) ∧
    ∀ b' rs, Session (Bus.reset : Bus (bramDmem fun _ => 0)) mixed b' rs →
      rs = (MemOp.flatRun (bytes fun _ => 0) mixed).2 ∧
        Agrees (BramBridge.contents b') (MemOp.flatRun (bytes fun _ => 0) mixed).1 :=
  session_flat (fun _ => 0) mixed mixed_ok

end DataMemory

end Vsync
