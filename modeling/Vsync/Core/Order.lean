/-
The registers in program order.

`orderReg` is what the instruction in EX reads in program order: what the instructions in EX/MEM and MEM/WB write, and
what the register file holds otherwise.

- `busData`: what the bus holds of the access in EX/MEM.
- `memDone_rdData`: what enters WB is the program-order value.
- `step_visible`: what one cycle does to the registers behind EX/MEM.
-/
import Vsync.Core.Lockstep
import Vsync.Core.Redirect

namespace Vsync

instance (s : Rv32imCore) (x : RegAddr) : Decidable (s.wbWrites x) := by unfold Rv32imCore.wbWrites; infer_instance

namespace Ledger

section Names

variable (w : Ledger)

def MemWrites (x : RegAddr) : Prop := w.exMem.isWrite = true ∧ w.exMem.rdAddr = x

instance (x : RegAddr) : Decidable (w.MemWrites x) := by unfold MemWrites; infer_instance

/-- what the instruction in EX/MEM writes; a load takes the word that the memory holds -/
def memValue : Word :=
  ((w.exMem.toWb) (w.board.bus.mem (wordAddr w.exMem.aluResult))).rdData

def orderReg (x : RegAddr) : Word := if w.MemWrites x then w.memValue else w.core.visible x

def orderMem : DataMem :=
  if w.exMem.isAccess = true ∧ w.exMem.memRead = false then
    w.board.bus.mem.write w.exMem.aluResult w.core.memWdata w.core.memBe
  else w.board.bus.mem

end Names

/-! ## What the bus holds of the access -/

/-- the access in progress: its word has been read, or its store is in the memory -/
structure BusData (w : Ledger) : Prop where
  fetched : w.board.bus.busy = true → w.exMem.memRead = true →
    w.board.bus.rdata = w.board.bus.mem (wordAddr w.exMem.aluResult)
  stored : w.board.bus.busy = true → w.orderMem = w.board.bus.mem

/-- a register write is no store, and the data of a load is that of a read -/
def WriteKind (regWrite memWrite memRead : Bool) (wbSel : BitVec 2) : Prop :=
  regWrite = true → memWrite = false ∧ (wbSel = 0b01#2 → memRead = true)

theorem writeKind_ctrl (instr : Word) : WriteKind (Decode.ctrl instr).regWrite (Decode.ctrl instr).memWrite
    (Decode.ctrl instr).memRead (Decode.ctrl instr).wbSel := by
  have h := Decode.decoded_ctrl instr
  generalize Decode.ctrl instr = c at h
  cases h <;> simp [WriteKind, Ctrl.idle]

/-- the register writes in ID/EX and EX/MEM come from decoded instructions -/
structure Kinds (w : Ledger) : Prop where
  idEx : WriteKind w.core.idEx.ctrl.regWrite w.core.idEx.ctrl.memWrite w.core.idEx.ctrl.memRead w.core.idEx.ctrl.wbSel
  exMem : WriteKind w.exMem.regWrite w.exMem.memWrite w.exMem.memRead w.exMem.wbSel

section Cycle

variable {prog : Program} {w : Ledger} {i : BoardIn}

def Storing (w : Ledger) : Prop := w.exMem.isAccess = true ∧ w.exMem.memRead = false

theorem orderMem_of_storing (h : w.Storing) :
    w.orderMem = w.board.bus.mem.write w.exMem.aluResult w.core.memWdata w.core.memBe := if_pos h

theorem orderMem_of_not_storing (h : ¬ w.Storing) : w.orderMem = w.board.bus.mem := if_neg h

/-- what the bus does in one cycle: it waits for its answer, takes the load or the store in EX/MEM, or nothing -/
theorem step_bus (prog : Program) :
    (w.board.bus.busy = true ∧ (step prog w i).board.bus = { w.board.bus with busy := !i.answer }) ∨
      (w.board.bus.busy = false ∧ w.exMem.isAccess = true ∧ w.exMem.memRead = true ∧
        (step prog w i).board.bus = ⟨true, w.board.bus.mem (wordAddr w.exMem.aluResult), w.board.bus.mem⟩) ∨
      (w.board.bus.busy = false ∧ w.Storing ∧ (step prog w i).board.bus = ⟨true, w.board.bus.rdata, w.orderMem⟩) ∨
      (w.board.bus.busy = false ∧ (step prog w i).board.bus = w.board.bus) := by
  have hbus : (step prog w i).board.bus = w.board.bus.step (w.board.cmd i) i.answer := rfl
  rw [hbus]
  cases hb : w.board.bus.busy with
  | true =>
    left
    refine ⟨rfl, ?_⟩
    cases ha : i.answer <;> simp [DataBus.step, hb]
    rw [← hb]
  | false =>
    right
    cases hr : (w.board.cmd i).read with
    | true =>
      left
      have hr' := hr
      simp only [Board.cmd, Rv32imCore.memRead, Bool.and_eq_true] at hr'
      have hread : w.exMem.memRead = true := hr'.1
      have hvalid : w.exMem.valid = true := hr'.2
      refine ⟨rfl, by simp [ExMem.isAccess, hread, hvalid], hread, ?_⟩
      simp only [DataBus.step, hb, hr, if_true, Bool.false_eq_true, if_false]
      rfl
    | false =>
      right
      cases hw : (w.board.cmd i).write with
      | false => right; simp [DataBus.step, hb, hr, hw]
      | true =>
        left
        have hw' := hw
        have hr' := hr
        simp only [Board.cmd, Rv32imCore.memRead, Rv32imCore.memWrite, Bool.and_eq_true] at hw' hr'
        have hvalid : w.exMem.valid = true := hw'.1.2
        have hwrite : w.exMem.memWrite = true := hw'.1.1
        have hread : w.exMem.memRead = false := by
          by_contra hc
          have hc' : w.board.core.exMem.memRead = true := Bool.eq_true_of_not_eq_false hc
          simp [hc', hw'.1.2] at hr'
        have hs : w.Storing := ⟨by simp [ExMem.isAccess, hwrite, hvalid], hread⟩
        refine ⟨rfl, hs, ?_⟩
        rw [orderMem_of_storing hs]
        simp only [DataBus.step, hb, hr, hw, Bool.false_eq_true, if_false, if_true]
        rfl

theorem step_mem (prog : Program) : (step prog w i).board.bus.mem = w.board.bus.mem ∨
    (w.Storing ∧ (step prog w i).board.bus.mem = w.orderMem) := by
  rcases step_bus prog (w := w) (i := i) with ⟨-, h⟩ | ⟨-, -, -, h⟩ | ⟨-, hs, h⟩ | ⟨-, h⟩
  · exact Or.inl (by rw [h])
  · exact Or.inl (by rw [h])
  · exact Or.inr ⟨hs, by rw [h]⟩
  · exact Or.inl (by rw [h])

theorem orderMem_congr {w' : Ledger} (hx : w'.exMem = w.exMem) (hm : w'.board.bus.mem = w.board.bus.mem) :
    w'.orderMem = w.orderMem := by
  have hx' : w'.core.exMem = w.core.exMem := hx
  unfold orderMem
  simp only [hx, hm, Rv32imCore.memWdata, Rv32imCore.memBe, hx']

/-- while EX/MEM is held, the memory behind its store stays -/
theorem step_orderMem_of_held (prog : Program) (hst : w.stallEx i = true) : (step prog w i).orderMem = w.orderMem := by
  have hx : (step prog w i).exMem = w.exMem := step_held hst
  rcases step_mem prog (w := w) (i := i) with hm | ⟨hs, hm⟩
  · exact orderMem_congr hx hm
  · have hs' : (step prog w i).Storing := by unfold Storing; rw [hx]; exact hs
    have hx' : (step prog w i).core.exMem = w.core.exMem := hx
    rw [orderMem_of_storing hs', hm, orderMem_of_storing hs, hx]
    simp only [Rv32imCore.memWdata, Rv32imCore.memBe, hx', DataMem.write_write]

theorem step_mem_of_moves (prog : Program) (hd : BusData w) (hst : w.stallEx i = false) :
    (step prog w i).board.bus.mem = w.orderMem := by
  rcases step_mem prog (w := w) (i := i) with hm | ⟨-, hm⟩
  · rw [hm]
    by_cases hs : w.Storing
    · exact (hd.stored (answered_of_moves hst hs.1).2.1).symm
    · exact (orderMem_of_not_storing hs).symm
  · exact hm

/-- when the bus is busy behind the edge, EX/MEM is held -/
theorem held_of_busy (hb : BusInv w) (hbusy : (step prog w i).board.bus.busy = true) : w.stallEx i = true := by
  by_contra hst
  have hst : w.stallEx i = false := by simpa using hst
  rw [step_busy] at hbusy
  cases hbw : w.board.bus.busy with
  | true =>
    have := (answered_of_moves hst (hb.sent (hb.busy hbw))).2.2
    simp [hbw, this] at hbusy
  | false =>
    have hacc : w.accepts i = true := by simpa [hbw] using hbusy
    have := (answered_of_moves hst (isAccess_of_accepts hacc).1).2.1
    simp [hbw] at this

theorem step_busData (hb : BusInv w) (hd : BusData w) : BusData (step prog w i) := by
  constructor
  · intro hbusy hr
    have hx : (step prog w i).exMem = w.exMem := step_held (held_of_busy hb hbusy)
    rw [hx] at hr ⊢
    rcases step_bus prog (w := w) (i := i) with ⟨hbw, h⟩ | ⟨-, -, -, h⟩ | ⟨-, hs, -⟩ | ⟨hbw, h⟩
    · rw [h]
      exact hd.fetched hbw hr
    · rw [h]
    · simp [hs.2] at hr
    · simp [h, hbw] at hbusy
  · intro hbusy
    have hx : (step prog w i).exMem = w.exMem := step_held (held_of_busy hb hbusy)
    rw [step_orderMem_of_held prog (held_of_busy hb hbusy)]
    rcases step_bus prog (w := w) (i := i) with ⟨hbw, h⟩ | ⟨-, -, hr, h⟩ | ⟨-, -, h⟩ | ⟨hbw, h⟩
    · rw [h]
      exact hd.stored hbw
    · rw [h]
      exact orderMem_of_not_storing fun hs => by simp [hs.2] at hr
    · rw [h]
    · simp [h, hbw] at hbusy

theorem step_kinds (h : Kinds w) : Kinds (step prog w i) := by
  constructor
  · change WriteKind (w.core.idExNext (w.coreIn i)).ctrl.regWrite (w.core.idExNext (w.coreIn i)).ctrl.memWrite
      (w.core.idExNext (w.coreIn i)).ctrl.memRead (w.core.idExNext (w.coreIn i)).ctrl.wbSel
    unfold Rv32imCore.idExNext
    split_ifs
    · simp [WriteKind, IdEx.bubble, Ctrl.idle]
    · exact h.idEx
    · exact writeKind_ctrl _
  · rw [step_exMem]
    unfold Rv32imCore.exMemNext
    split_ifs
    · exact h.exMem
    · simp [WriteKind, ExMem.bubble]
    · intro hw
      simp only [Rv32imCore.executed, Bool.and_eq_true] at hw ⊢
      obtain ⟨h1, h2⟩ := h.idEx hw.1
      exact ⟨by simp [h1], fun hs => ⟨h2 hs, hw.2⟩⟩

/-! ## The registers behind EX/MEM -/

theorem step_regs (prog : Program) (hpl : w.board.Plain) (hsys : w.core.sysState ≠ .writeback) {x : RegAddr}
    (hx : x ≠ 0#5) : (step prog w i).core.regs x = w.core.visible x := by
  have hc : w.core.ctxState = .idle := hpl.1
  have hw : w.core.writePort (w.coreIn i) =
      if w.core.memWb.writes then some (w.core.memWb.rdAddr, w.core.memWb.rdData) else none := by
    simp [Rv32imCore.writePort, hc, hsys]
  change w.core.regsNext (w.coreIn i) x = _
  rw [Rv32imCore.regsNext, hw, Rv32imCore.visible]
  cases hwr : w.core.memWb.writes with
  | false => simp [hx]
  | true =>
    by_cases hrd : w.core.memWb.rdAddr = 0#5
    · simp [hrd, hx, Ne.symm hx]
    · by_cases hrx : w.core.memWb.rdAddr = x
      · subst hrx
        simp [hrd]
      · simp [hrd, hx, hrx, Ne.symm hrx]

theorem memDone_rdData (hd : BusData w) (hk : Kinds w) (hst : w.core.memStall (w.coreIn i) = false)
    (hw : w.exMem.isWrite = true) : (w.core.memDone (w.coreIn i)).rdData = w.memValue := by
  have hdone : (w.core.memDone (w.coreIn i)).rdData = (w.exMem.toWb w.board.bus.rdata).rdData := rfl
  rw [hdone, memValue]
  simp only [ExMem.isWrite, Bool.and_eq_true] at hw
  by_cases hsel : w.exMem.wbSel = 0b01#2
  · have hr := (hk.exMem hw.1.1).2 hsel
    have ha : w.exMem.isAccess = true := by simp [ExMem.isAccess, hr, hw.1.2]
    have hbusy : w.board.bus.busy = true := by
      simp only [Rv32imCore.memStall, memOpActive_eq, ha, Bool.true_and, Bool.not_eq_false', Bool.and_eq_true] at hst
      have hready := hst.2
      simp [coreIn, Board.coreIn, DataBus.done] at hready
      exact hready.1
    rw [hd.fetched hbusy hr]
  · simp [ExMem.toWb, MemWb.rdData, hsel]
    rfl

theorem orderReg_of_writes {x : RegAddr} (h : w.MemWrites x) : w.orderReg x = w.memValue := if_pos h

theorem orderReg_of_not_writes {x : RegAddr} (h : ¬ w.MemWrites x) : w.orderReg x = w.core.visible x := if_neg h

theorem visible_of_ne (s : Rv32imCore) {x : RegAddr} (hx : x ≠ 0#5) :
    s.visible x = if s.memWb.writes && s.memWb.rdAddr == x then s.memWb.rdData else s.regs x := if_neg hx

theorem memDone_writes : (w.core.memDone (w.coreIn i)).writes = (w.exMem.regWrite && w.exMem.valid) := by
  simp only [MemWb.writes, Rv32imCore.memDone, Bool.and_assoc, Bool.and_self]
  rfl

/-- the instruction that enters WB brings the program-order value of its register -/
theorem memDone_order (hd : BusData w) (hk : Kinds w) (hst : w.core.memStall (w.coreIn i) = false) {x : RegAddr}
    (hx : x ≠ 0#5) :
    (if (w.core.memDone (w.coreIn i)).writes && (w.core.memDone (w.coreIn i)).rdAddr == x then
      (w.core.memDone (w.coreIn i)).rdData else w.core.visible x) = w.orderReg x := by
  have hrd : (w.core.memDone (w.coreIn i)).rdAddr = w.exMem.rdAddr := rfl
  rw [memDone_writes, hrd]
  by_cases hm : w.MemWrites x
  · obtain ⟨hw, rfl⟩ := hm
    have hw' := hw
    simp only [ExMem.isWrite, Bool.and_eq_true] at hw'
    rw [orderReg_of_writes ⟨hw, rfl⟩, ← memDone_rdData hd hk hst hw]
    simp [hw'.1]
  · have hno : ((w.exMem.regWrite && w.exMem.valid) && w.exMem.rdAddr == x) = false := by
      by_contra hc
      simp only [Bool.not_eq_false, Bool.and_eq_true, beq_iff_eq] at hc
      refine hm ⟨?_, hc.2⟩
      simp [ExMem.isWrite, hc.1.1, hc.1.2, hc.2]
      exact hx
    rw [orderReg_of_not_writes hm, hno, if_neg (by decide)]

/-- **The registers behind EX/MEM take the program-order values as its instruction enters WB, and stay otherwise.** -/
theorem step_visible (prog : Program) (hd : BusData w) (hk : Kinds w) (hpl : w.board.Plain)
    (hsys : w.core.sysState ≠ .writeback) (x : RegAddr) :
    (step prog w i).core.visible x = if w.entersWb i then w.orderReg x else w.core.visible x := by
  by_cases hx : x = 0#5
  · subst hx
    have hno : ¬ w.MemWrites 0#5 := fun h => by simp [MemWrites, ExMem.isWrite] at h; simp [h.2] at h
    simp [Rv32imCore.visible, orderReg, hno]
  have hr := step_regs prog hpl hsys hx (w := w) (i := i)
  have hwb : (step prog w i).core.memWb = w.core.memWbNext (w.coreIn i) := rfl
  cases hf : w.flushMem i with
  | true =>
    have hf' : w.core.flushMem (w.coreIn i) = true := hf
    have hn : w.entersWb i = false := by simp [entersWb, hf]
    rw [hn, if_neg (by decide)]
    rw [visible_of_ne _ hx, hwb, Rv32imCore.memWbNext, if_pos hf', hr]
    simp [MemWb.bubble, MemWb.writes]
  | false =>
    have hf' : w.core.flushMem (w.coreIn i) = false := hf
    cases hs : w.core.stallMem (w.coreIn i) with
    | true =>
      have hn : w.entersWb i = false := by simp [entersWb, hs]
      rw [hn, if_neg (by decide)]
      rw [visible_of_ne _ hx, hwb, Rv32imCore.memWbNext, hf', hs, hr, visible_of_ne _ hx]
      simp only [Bool.false_eq_true, if_false, if_true]
      split_ifs <;> rfl
    | false =>
      have he : w.entersWb i = true := by simp [entersWb, hf, hs]
      have hst : w.core.memStall (w.coreIn i) = false := by
        simp only [Rv32imCore.stallMem, Bool.or_eq_false_iff] at hs
        exact hs.1.1.1
      rw [he, if_pos rfl]
      rw [visible_of_ne _ hx, hwb, Rv32imCore.memWbNext, hf', hs, hr]
      simp only [Bool.false_eq_true, if_false]
      exact memDone_order hd hk hst hx

/-- the word of a load in EX/MEM stays in the memory -/
theorem step_memValue (prog : Program) (hk : Kinds w) (hw : w.exMem.isWrite = true)
    (hx : (step prog w i).exMem = w.exMem) : (step prog w i).memValue = w.memValue := by
  have hns : ¬ w.Storing := by
    rintro ⟨ha, hr⟩
    simp only [ExMem.isWrite, ExMem.isAccess, Bool.and_eq_true, Bool.or_eq_true] at hw ha
    have := (hk.exMem hw.1.1).1
    rcases ha.1 with h | h
    · simp [hr] at h
    · simp [this] at h
  have hm : (step prog w i).board.bus.mem = w.board.bus.mem := by
    rcases step_mem prog (w := w) (i := i) with hm | ⟨hs, -⟩
    · exact hm
    · exact absurd hs hns
  rw [memValue, memValue, hx, hm]

/-- outside of its own write, a syscall reads the registers behind EX/MEM -/
theorem readPort_eq (hpl : w.board.Plain) (hsys : w.core.sysState ≠ .writeback) (x : RegAddr) :
    w.core.readPort (w.coreIn i) x = w.core.visible x := by
  have hc : w.core.ctxState = .idle := hpl.1
  have hw : w.core.writePort (w.coreIn i) =
      if w.core.memWb.writes then some (w.core.memWb.rdAddr, w.core.memWb.rdData) else none := by
    simp [Rv32imCore.writePort, hc, hsys]
  unfold Rv32imCore.readPort Rv32imCore.visible
  rw [hw]
  cases w.core.memWb.writes <;> simp

theorem step_wbWrites (prog : Program) (x : RegAddr) :
    (step prog w i).core.wbWrites x ↔
      if w.entersWb i then w.MemWrites x else w.flushMem i = false ∧ w.core.wbWrites x := by
  have hwb : (step prog w i).core.memWb = w.core.memWbNext (w.coreIn i) := rfl
  unfold Rv32imCore.wbWrites
  rw [hwb, Rv32imCore.memWbNext]
  cases hf : w.flushMem i with
  | true =>
    have hf' : w.core.flushMem (w.coreIn i) = true := hf
    simp [hf', entersWb, hf, MemWb.bubble, MemWb.writes]
  | false =>
    have hf' : w.core.flushMem (w.coreIn i) = false := hf
    cases hs : w.core.stallMem (w.coreIn i) with
    | true => simp [hf', entersWb, hf, hs]
    | false =>
      have h1 : w.core.exMem = w.exMem := rfl
      simp only [hf', entersWb, hf, hs, MemWrites, ExMem.isWrite, MemWb.writes, Rv32imCore.memDone, h1]
      simp
      constructor
      · rintro ⟨hw, rfl, hx⟩
        exact ⟨⟨hw, hx⟩, rfl⟩
      · rintro ⟨⟨hw, hx⟩, rfl⟩
        exact ⟨hw, rfl, hx⟩

theorem visible_of_wbWrites {s : Rv32imCore} {x : RegAddr} (h : s.wbWrites x) : s.visible x = s.memWb.rdData := by
  obtain ⟨h1, rfl, hx⟩ := h
  rw [visible_of_ne _ hx]
  simp [h1]

end Cycle

section Run

variable (prog : Program) (mem : DataMem) (ins : ℕ → BoardIn) (n : ℕ)

theorem busData : BusData (stateAt prog mem ins n) := by
  induction n with
  | zero => exact ⟨fun h => Bool.noConfusion h, fun h => Bool.noConfusion h⟩
  | succ n ih => exact step_busData (busInv prog mem ins n) ih

theorem kinds : Kinds (stateAt prog mem ins n) := by
  induction n with
  | zero => constructor <;> exact fun h => Bool.noConfusion h
  | succ n ih => exact step_kinds ih

end Run

end Ledger

end Vsync
