/-
Reads and writes of the six slaves, in every run from reset.

The interconnect gives a slave one cycle to accept a read address, and passes the address of a write on before its data.
The register slaves of the kernel and of the POSIX layer take longer than that to accept a read; the HyperRAM controller
takes an address and its data together only.

- `contract`: what each slave does with every transaction.
- `read_completes_iff`: a read completes if and only if its slave is neither `hw_rtos` nor `posix_hw_layer`.
- `write_completes_iff`: a write completes if and only if its slave is not the HyperRAM controller.
-/
import Vsync.Bus.Bram
import Vsync.Bus.HyperRam
import Vsync.Bus.ApbBridge
import Vsync.Bus.LiteSlaves

namespace Vsync

open Interconnect (decode)

/-- the slaves of the interconnect -/
inductive SlaveKind where
  | dmem
  | hyperram
  | apb
  | hwRtos
  | posix
  | imem
  deriving DecidableEq, Repr

/-- the initial contents of the memories -/
structure Contents where
  dmem : BitVec 12 → Word
  hyperram : HyperMem
  imem : BitVec 14 → Word

namespace SlaveKind

/-- the port of a slave -/
def port : SlaveKind → Port
  | dmem => 0
  | hyperram => 1
  | apb => 2
  | hwRtos => 3
  | posix => 4
  | imem => 5

variable (c : Contents)

def slave : SlaveKind → BusSlave
  | dmem => bramDmem c.dmem
  | hyperram => HyperRam.slave c.hyperram
  | apb => ApbBridge.slave
  | hwRtos => RtosLite.slave
  | posix => PosixLite.slave
  | imem => bramImem c.imem

def Rest : (kd : SlaveKind) → (kd.slave c).State → Prop
  | dmem => BramBridge.Idle
  | hyperram => HyperRam.Idle
  | apb => ApbBridge.Idle
  | hwRtos => RtosLite.Idle
  | posix => PosixLite.Idle
  | imem => BramBridge.Idle

/-- the slave accepts a read address in the cycle in which it comes -/
def acceptsReads (kd : SlaveKind) : Prop := kd ≠ hwRtos ∧ kd ≠ posix

/-- the slave accepts a write address before its data -/
def acceptsWrites (kd : SlaveKind) : Prop := kd ≠ hyperram

theorem servesReads {kd : SlaveKind} (h : kd.acceptsReads) : (kd.slave c).ServesReads (kd.Rest c) := by
  cases kd with
  | dmem => exact BramBridge.servesReads false c.dmem
  | hyperram => exact HyperRam.servesReads c.hyperram
  | apb => exact ApbBridge.servesReads
  | hwRtos => exact absurd rfl h.1
  | posix => exact absurd rfl h.2
  | imem => exact BramBridge.servesReads true c.imem

theorem dropsReads {kd : SlaveKind} (h : ¬ kd.acceptsReads) : (kd.slave c).DropsReads (kd.Rest c) := by
  cases kd with
  | hwRtos => exact RtosLite.dropsReads
  | posix => exact PosixLite.dropsReads
  | _ => exact absurd (by simp [acceptsReads]) h

theorem servesWrites {kd : SlaveKind} (h : kd.acceptsWrites) :
    (kd.slave c).ServesWrites (kd.Rest c) (fun a => decode a = some kd.port) := by
  cases kd with
  | dmem => exact BramBridge.servesWrites false c.dmem _
  | hyperram => exact absurd rfl h
  | apb => exact ApbBridge.servesWrites _
  | hwRtos => exact RtosLite.servesWrites _
  | posix => exact PosixLite.servesWrites
  | imem => exact BramBridge.servesWrites true c.imem _

theorem dropsWrites {kd : SlaveKind} (h : ¬ kd.acceptsWrites) : (kd.slave c).DropsWrites (kd.Rest c) := by
  cases kd with
  | hyperram => exact HyperRam.dropsWrites c.hyperram
  | _ => exact absurd (by simp [acceptsWrites]) h

theorem readsHeld (kd : SlaveKind) : (kd.slave c).ReadsHeld := by
  cases kd with
  | dmem => exact BramBridge.readsHeld false c.dmem
  | hyperram => exact HyperRam.readsHeld c.hyperram
  | apb => exact ApbBridge.readsHeld
  | hwRtos => exact RtosLite.readsHeld
  | posix => exact PosixLite.readsHeld
  | imem => exact BramBridge.readsHeld true c.imem

theorem rests (kd : SlaveKind) : (kd.slave c).Rests (kd.Rest c) := by
  cases kd with
  | dmem => exact BramBridge.rests false c.dmem
  | hyperram => exact HyperRam.rests c.hyperram
  | apb => exact ApbBridge.rests
  | hwRtos => exact RtosLite.rests
  | posix => exact PosixLite.rests
  | imem => exact BramBridge.rests true c.imem

/-- **What each slave does with every transaction.** -/
theorem contract (kd : SlaveKind) : Bus.Contract (kd.slave c) kd.port (kd.Rest c) where
  held := readsHeld c kd
  rests := rests c kd
  reads := by
    by_cases h : kd.acceptsReads
    · exact .inl (servesReads c h)
    · exact .inr (dropsReads c h)
  writes := by
    by_cases h : kd.acceptsWrites
    · exact .inl (servesWrites c h)
    · exact .inr (dropsWrites c h)

def busAt (kd : SlaveKind) (ins : ℕ → BusIn (kd.slave c)) (n : ℕ) : Bus (kd.slave c) := Bus.stateAt kd.port ins n

/-! ## Reads -/

/-- **A read completes if and only if its slave is neither `hw_rtos` nor `posix_hw_layer`**: in every run from reset,
from every cycle in which the master accepts a read of an address of the slave. -/
theorem read_completes_iff (kd : SlaveKind) (ins : ℕ → BusIn (kd.slave c)) (n : ℕ)
    (hidle : (busAt c kd ins n).master.state = .idle) (hread : (ins n).cmd.read = true)
    (haddr : decode (ins n).cmd.addr = some kd.port) :
    (∃ m, Bus.ReadDone kd.port (busAt c kd ins n) (fun j => ins (n + j)) (ins n).cmd.addr m) ↔
      kd ≠ hwRtos ∧ kd ≠ posix := by
  have hready := Bus.idle_ready (contract c kd) ins n hidle
  constructor
  · rintro ⟨m, hm⟩
    by_contra hdrops
    have hnever := Bus.read_hangs (contract c kd) (dropsReads c hdrops) hready (fun j => ins (n + j)) hread haddr m
    exact Bool.false_ne_true (hnever.symm.trans hm.done)
  · intro haccepts
    obtain ⟨m, hdone, -⟩ := Bus.read_done (contract c kd) (servesReads c haccepts) hready
      (fun j => ins (n + j)) hread haddr
    exact ⟨m, hdone⟩

def blank : Contents := ⟨fun _ => 0, fun _ => 0, fun _ => 0⟩

def dmemRead : ℕ → BusIn (dmem.slave blank) := fun _ => ⟨⟨true, false, 0x00010000, 0, 0⟩, ()⟩

theorem read_completes_iff_dmemRead :
    (∃ m, Bus.ReadDone dmem.port (busAt blank dmem dmemRead 0) (fun j => dmemRead (0 + j)) (dmemRead 0).cmd.addr m) ↔
      dmem ≠ hwRtos ∧ dmem ≠ posix :=
  read_completes_iff blank dmem dmemRead 0 rfl rfl (by decide)

def rtosRead : ℕ → BusIn (hwRtos.slave blank) :=
  fun _ => ⟨⟨true, false, 0x11000000, 0, 0⟩, ⟨true, 0b10, 0, 0, false, 0, 0, 0, false, false⟩⟩

/-- **A read of a kernel register never completes.** -/
theorem rtosRead_hangs : ¬ ∀ (kd : SlaveKind) (ins : ℕ → BusIn (kd.slave blank)) (n : ℕ),
    (busAt blank kd ins n).master.state = .idle → (ins n).cmd.read = true → decode (ins n).cmd.addr = some kd.port →
    ∃ m, Bus.ReadDone kd.port (busAt blank kd ins n) (fun j => ins (n + j)) (ins n).cmd.addr m := by
  intro h
  obtain ⟨m, hm⟩ := h hwRtos rtosRead 0 rfl rfl (by decide)
  have hready : Bus.Ready (Rest blank hwRtos) (busAt blank hwRtos rtosRead 0) := ⟨rfl, rfl, RtosLite.rests.reset⟩
  have hnever := Bus.read_hangs (contract blank hwRtos) RtosLite.dropsReads hready rtosRead rfl (by decide) m
  have hrun : (fun j => rtosRead (0 + j)) = rtosRead := rfl
  rw [hrun] at hm
  exact Bool.false_ne_true (hnever.symm.trans hm.done)

/-! ## Writes -/

/-- **A write completes if and only if its slave is not the HyperRAM controller**: in every run from reset, from every
cycle in which the master accepts a write of an address of the slave. -/
theorem write_completes_iff (kd : SlaveKind) (ins : ℕ → BusIn (kd.slave c)) (n : ℕ)
    (hidle : (busAt c kd ins n).master.state = .idle) (hread : (ins n).cmd.read = false)
    (hwrite : (ins n).cmd.write = true) (haddr : decode (ins n).cmd.addr = some kd.port) :
    (∃ m, Bus.WriteDone kd.port (busAt c kd ins n) (fun j => ins (n + j)) (ins n).cmd m) ↔ kd ≠ hyperram := by
  have hready := Bus.idle_ready (contract c kd) ins n hidle
  constructor
  · rintro ⟨m, hm⟩
    by_contra hdrops
    have hkd : ¬ kd.acceptsWrites := fun haccepts => haccepts hdrops
    have hnever := Bus.write_hangs (contract c kd) (dropsWrites c hkd) hready
      (fun j => ins (n + j)) hread hwrite haddr m
    exact Bool.false_ne_true (hnever.symm.trans hm.done)
  · intro haccepts
    obtain ⟨m, hdone, -⟩ :=
      Bus.write_done (contract c kd) (servesWrites c haccepts) hready (fun j => ins (n + j)) hread hwrite haddr
    exact ⟨m, hdone⟩

def dmemWrite : ℕ → BusIn (dmem.slave blank) := fun _ => ⟨⟨false, true, 0x00010000, 0xCAFE, 0b1111⟩, ()⟩

theorem write_completes_iff_dmemWrite :
    (∃ m, Bus.WriteDone dmem.port (busAt blank dmem dmemWrite 0) (fun j => dmemWrite (0 + j)) (dmemWrite 0).cmd m) ↔
      dmem ≠ hyperram :=
  write_completes_iff blank dmem dmemWrite 0 rfl rfl rfl (by decide)

def hyperWrite : ℕ → BusIn (hyperram.slave blank) := fun _ => ⟨⟨false, true, 0x20000000, 0xCAFE, 0b1111⟩, false⟩

/-- **A write of the HyperRAM never completes.** -/
theorem hyperWrite_hangs : ¬ ∀ (kd : SlaveKind) (ins : ℕ → BusIn (kd.slave blank)) (n : ℕ),
    (busAt blank kd ins n).master.state = .idle → (ins n).cmd.read = false → (ins n).cmd.write = true →
    decode (ins n).cmd.addr = some kd.port →
    ∃ m, Bus.WriteDone kd.port (busAt blank kd ins n) (fun j => ins (n + j)) (ins n).cmd m := by
  intro h
  obtain ⟨m, hm⟩ := h hyperram hyperWrite 0 rfl rfl rfl (by decide)
  have hready : Bus.Ready (Rest blank hyperram) (busAt blank hyperram hyperWrite 0) :=
    ⟨rfl, rfl, (HyperRam.rests blank.hyperram).reset⟩
  have hnever := Bus.write_hangs (contract blank hyperram)
    (HyperRam.dropsWrites blank.hyperram) hready hyperWrite rfl rfl
    (by decide) m
  have hrun : (fun j => hyperWrite (0 + j)) = hyperWrite := rfl
  rw [hrun] at hm
  exact Bool.false_ne_true (hnever.symm.trans hm.done)

end SlaveKind

end Vsync
