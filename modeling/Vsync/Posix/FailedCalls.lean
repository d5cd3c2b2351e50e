/-
File and signal calls that fail, and the tables of `posix_hw_layer.sv`. The result and the table updates are computed in
separate processes.

- `callError`: the error code that the result logic selects.
- `HalfApplied`: the failing calls that the table processes carry out all the same: an `open` of a device type above 4,
  and a `sigprocmask` with `how` above 2, of which they look at the low two bits.
- `failed_call_iff`: a failed call leaves every table as it was exactly if it is not one of these.
-/
import Vsync.Machine
import Vsync.Posix.Layer

namespace Vsync

/-- the tables that a failed call is to leave alone -/
structure PosixTables where
  fd : Fd → FdEntry
  signalPending : TaskId → Word
  signalMask : TaskId → Word
  sigHandler : TaskId → Word
  sigwaitSet : TaskId → Word

namespace PosixLayer

open Machine Posix

section Errors

variable (s : PosixLayer)

def tables : PosixTables := ⟨s.fd, s.signalPending, s.signalMask, s.sigHandler, s.sigwaitSet⟩

def fileError : Option Word :=
  match s.subop with
  | 0 => if s.arg0.toNat % 8 < 5 then (if s.freeFd = none then some EMFILE else none) else some ENOENT
  | 1 => if s.fdOpen = false then some EBADF else if (lowId 16 s.arg0).val ≤ 2 then some EPERM else none
  | 2 | 3 | 4 => if s.fdOpen = false then some EBADF else none
  | 5 =>
    if s.fdOpen = false then some EBADF
    else if (s.fd (lowId 16 s.arg0)).fdType ≠ FD_TYPE_MEM then some ESPIPE
    else none
  | _ => some ENOSYS

def signalError : Option Word :=
  match s.subop with
  | 0 => if 16 ≤ s.arg0.toNat then some ESRCH else if validSignal s.arg1 = false then some EINVAL else none
  | 1 => if validSignal s.arg0 = false ∨ s.arg0 = 9 then some EINVAL else none
  | 2 => if 2 < s.arg0.toNat then some EINVAL else none
  | 3 => if s.arg0 = 0 then some EINVAL else none
  | 4 => if validSignal s.arg0 = false then some EINVAL else none
  | _ => some ENOSYS

/-- the error code that the result logic selects in this cycle -/
def callError : Option Word :=
  match s.state with
  | .fileOp => s.fileError
  | .signalOp => s.signalError
  | _ => none

/-- `sigprocmask` leaves a mask as it is: the bit of `SIGKILL`, which it clears, is down, and the others are as they
would be -/
def MaskKept (how : ℕ) (set mask : Word) : Prop :=
  match how with
  | 0 => mask.getLsbD 9 = false ∧ ∀ j < 32, j ≠ 9 → set.getLsbD j = true → mask.getLsbD j = true
  | 1 => mask.getLsbD 9 = false ∧ ∀ j < 32, j ≠ 9 → set.getLsbD j = true → mask.getLsbD j = false
  | 2 => mask.getLsbD 9 = false ∧ ∀ j < 32, j ≠ 9 → set.getLsbD j = mask.getLsbD j
  | _ => True

/-- the call fails, and a table process carries it out -/
def HalfApplied : Prop :=
  (s.state = .fileOp ∧ s.subop = 0 ∧ 5 ≤ s.arg0.toNat % 8 ∧ s.freeFd ≠ none) ∨
    (s.state = .signalOp ∧ s.subop = 2 ∧ 2 < s.arg0.toNat ∧
      ¬ MaskKept (s.arg0.toNat % 4) s.arg1 (s.signalMask s.currentTidR))

end Errors

section Cycle

variable {s : PosixLayer} {e : Word}

theorem fileResult_of_error (h : s.fileError = some e) : s.fileResult = e := by
  rw [fileError] at h
  rw [fileResult]
  generalize s.subop = k at h ⊢
  match k, h with
  | 0, h =>
    simp only at h ⊢
    split_ifs at h ⊢ with htype hfree
    · rw [hfree]
      exact Option.some.inj h
    · exact Option.some.inj h
  | 1, h =>
    simp only at h ⊢
    split_ifs at h ⊢ with hopen hstd <;> exact Option.some.inj h
  | 2, h | 3, h | 4, h =>
    simp only at h ⊢
    split_ifs at h ⊢
    exact Option.some.inj h
  | 5, h =>
    simp only at h ⊢
    split_ifs at h ⊢ with hopen hmem <;> exact Option.some.inj h
  | k + 6, h => exact Option.some.inj h

theorem signalResult_of_error (h : s.signalError = some e) : s.signalResult = e := by
  rw [signalError] at h
  rw [signalResult]
  generalize s.subop = k at h ⊢
  match k, h with
  | 0, h =>
    simp only at h ⊢
    split_ifs at h ⊢ with hid hsig <;> exact Option.some.inj h
  | 1, h | 2, h | 3, h | 4, h =>
    simp only at h ⊢
    split_ifs at h ⊢
    exact Option.some.inj h
  | k + 5, h => exact Option.some.inj h

theorem fileReq_of_error (h : s.fileError = some e) : s.fileReq = none := by
  rw [fileError] at h
  rw [fileReq]
  generalize s.subop = k at h ⊢
  match k, h with
  | 0, _ | 1, _ | 5, _ => rfl
  | 2, h | 3, h | 4, h =>
    simp only at h ⊢
    split_ifs at h ⊢ with hclosed hopen
    · exact absurd hclosed (by simp [hopen])
    · rfl
  | k + 6, _ => rfl

/-! ## The table processes -/

theorem fdNext_ne {j : Fd} (hs : s.state = .fileOp) (hsub : s.subop = 0) (hfree : s.freeFd = some j) :
    s.fdNext ≠ s.fd := by
  intro h
  have hvalid : (s.fd j).valid = false := by simpa using (List.find?_some hfree)
  have hnew : (s.fdNext j).valid = true := by simp [fdNext, hs, hsub, hfree]
  rw [h, hvalid] at hnew
  exact Bool.noConfusion hnew

/-- **A failed file call** changes the table exactly if it is an `open` that finds a free entry. -/
theorem fdNext_eq_iff (hs : s.state = .fileOp) (h : s.fileError = some e) :
    s.fdNext = s.fd ↔ ¬ (s.subop = 0 ∧ 5 ≤ s.arg0.toNat % 8 ∧ s.freeFd ≠ none) := by
  by_cases h0 : s.subop = 0
  · cases hfree : s.freeFd with
    | none => simp [fdNext, hs, h0, hfree]
    | some j =>
      have htype : 5 ≤ s.arg0.toNat % 8 := by
        by_contra hlt
        have hok : s.fileError = none := by simp [fileError, h0, hfree, show s.arg0.toNat % 8 < 5 by omega]
        simp [hok] at h
      refine ⟨fun heq => absurd heq (fdNext_ne hs h0 hfree), fun hnot => ?_⟩
      exact absurd ⟨h0, htype, Option.some_ne_none j⟩ hnot
  · have hkeep : s.fdNext = s.fd := by
      by_cases h1 : s.subop = 1
      · have hnot : (s.fdOpen && decide (2 < (lowId 16 s.arg0).val)) = false := by
          simp only [fileError, h1] at h
          split_ifs at h with hclosed hstd
          · rw [hclosed, Bool.false_and]
          · rw [decide_eq_false (by omega), Bool.and_false]
        simp only [fdNext, hs, h1, if_true, hnot, Bool.false_eq_true, if_false]
      · rw [fdNext, if_pos hs]
        generalize s.subop = k at h0 h1 ⊢
        match k with
        | 0 => exact absurd rfl h0
        | 1 => exact absurd rfl h1
        | k + 2 => rfl
    exact ⟨fun _ hopen => h0 hopen.1, fun _ => hkeep⟩

theorem getLsbD_bit_nine {j : ℕ} (hj : j < 32) : (bit 9).getLsbD j = decide (j = 9) := by
  have hall : ∀ j : Fin 32, (bit 9).getLsbD j = decide (j.val = 9) := by decide
  exact hall ⟨j, hj⟩

theorem clear_nine_eq_iff (x mask : Word) :
    x &&& ~~~ bit 9 = mask ↔ mask.getLsbD 9 = false ∧ ∀ j < 32, j ≠ 9 → x.getLsbD j = mask.getLsbD j := by
  have hbit {j : ℕ} (hj : j < 32) : (x &&& ~~~ bit 9).getLsbD j = (x.getLsbD j && !decide (j = 9)) := by
    rw [BitVec.getLsbD_and, BitVec.getLsbD_not, getLsbD_bit_nine hj, decide_eq_true hj, Bool.true_and]
  refine ⟨fun h => ⟨?_, fun j hj hne => ?_⟩, fun h => ?_⟩
  · rw [← h, hbit (by decide)]
    simp
  · rw [← h, hbit hj]
    simp [hne]
  · apply BitVec.eq_of_getLsbD_eq
    intro j hj
    rw [hbit hj]
    by_cases hnine : j = 9
    · subst hnine
      rw [h.1]
      simp
    · simp [hnine, h.2 j hj hnine]

/-- **`sigprocmask`** changes the mask of the task exactly if it is not `MaskKept`. -/
theorem signalMaskNext_eq_iff (hs : s.state = .signalOp) (hsub : s.subop = 2) :
    s.signalMaskNext = s.signalMask ↔ MaskKept (s.arg0.toNat % 4) s.arg1 (s.signalMask s.currentTidR) := by
  rw [signalMaskNext, if_pos ⟨hs, hsub⟩]
  have hlt : s.arg0.toNat % 4 < 4 := Nat.mod_lt _ (by decide)
  generalize s.arg0.toNat % 4 = how at hlt ⊢
  match how, hlt with
  | 0, _ =>
    simp only [Function.update_eq_self_iff, MaskKept, clear_nine_eq_iff, BitVec.getLsbD_or]
    refine and_congr_right fun _ => forall₃_congr fun j _ _ => ?_
    cases (s.signalMask s.currentTidR).getLsbD j <;> cases s.arg1.getLsbD j <;> decide
  | 1, _ =>
    simp only [Function.update_eq_self_iff, MaskKept, clear_nine_eq_iff, BitVec.getLsbD_and, BitVec.getLsbD_not]
    refine and_congr_right fun _ => forall₃_congr fun j hj _ => ?_
    rw [decide_eq_true hj]
    cases (s.signalMask s.currentTidR).getLsbD j <;> cases s.arg1.getLsbD j <;> decide
  | 2, _ =>
    simp only [Function.update_eq_self_iff, MaskKept, clear_nine_eq_iff]
  | 3, _ => simp [MaskKept]

/-- **A failed signal call** changes the tables exactly if it is a `sigprocmask` that changes the mask. -/
theorem signalTables_eq_iff (hs : s.state = .signalOp) (h : s.signalError = some e) :
    (s.signalPendingNext = s.signalPending ∧ s.sigHandlerNext = s.sigHandler ∧ s.sigwaitSetNext = s.sigwaitSet) ∧
      (s.signalMaskNext = s.signalMask ↔ ¬ (s.subop = 2 ∧ 2 < s.arg0.toNat ∧
        ¬ MaskKept (s.arg0.toNat % 4) s.arg1 (s.signalMask s.currentTidR))) := by
  refine ⟨⟨?_, ?_, ?_⟩, ?_⟩
  · rw [signalPendingNext, if_pos hs]
    rw [signalError] at h
    generalize s.subop = k at h ⊢
    match k, h with
    | 0, h =>
      simp only at h ⊢
      split_ifs at h with hid hsig
      · rw [decide_eq_false (by omega), Bool.false_and, if_neg Bool.false_ne_true]
      · rw [hsig, Bool.and_false, if_neg Bool.false_ne_true]
    | 4, h =>
      simp only at h ⊢
      split_ifs at h with hsig
      rw [hsig, if_neg Bool.false_ne_true]
    | 1, _ | 2, _ | 3, _ => rfl
    | k + 5, _ => rfl
  · rw [sigHandlerNext, if_neg]
    rintro ⟨-, hsub, hsig, hkill⟩
    have hvalid : ¬ (validSignal s.arg0 = false ∨ s.arg0 = 9) := by
      rw [hsig]
      exact fun hbad => hbad.elim (fun hno => Bool.noConfusion hno) hkill
    have hnone : s.signalError = none := by simp only [signalError, hsub, if_neg hvalid]
    rw [hnone] at h
    cases h
  · rw [sigwaitSetNext, if_neg]
    rintro ⟨-, hsub, hset⟩
    simp only [signalError, hsub] at h
    split_ifs at h with hzero
    exact hset hzero
  · by_cases hsub : s.subop = 2
    · have hhow : 2 < s.arg0.toNat := by
        by_contra hle
        simp [signalError, hsub, hle] at h
      rw [signalMaskNext_eq_iff hs hsub]
      exact ⟨fun hkept hnot => hnot.2.2 hkept, fun hnot => not_not.1 fun hkept => hnot ⟨hsub, hhow, hkept⟩⟩
    · have hkeep : s.signalMaskNext = s.signalMask := by
        rw [signalMaskNext, if_neg]
        exact fun hop => hsub hop.2
      exact ⟨fun _ hnot => hsub hnot.1, fun _ => hkeep⟩

/-- **The cycle of a failed call** -/
theorem tables_step_iff (i : PosixIn) (h : s.callError = some e) : (s.step i).tables = s.tables ↔ ¬ s.HalfApplied := by
  have hfields : (s.step i).tables = s.tables ↔ s.fdNext = s.fd ∧ s.signalPendingNext = s.signalPending ∧
      s.signalMaskNext = s.signalMask ∧ s.sigHandlerNext = s.sigHandler ∧ s.sigwaitSetNext = s.sigwaitSet := by
    simp only [tables, step, PosixTables.mk.injEq]
  rw [hfields, HalfApplied]
  unfold callError at h
  split at h
  · next hs =>
    have hfd := fdNext_eq_iff hs h
    have hquiet : s.signalPendingNext = s.signalPending ∧ s.signalMaskNext = s.signalMask ∧
        s.sigHandlerNext = s.sigHandler ∧
        s.sigwaitSetNext = s.sigwaitSet := by
      simp [signalPendingNext, signalMaskNext, sigHandlerNext, sigwaitSetNext, hs]
    rw [and_iff_left hquiet, hfd, hs]
    simp
  · next hs =>
    obtain ⟨⟨hpending, hhandler, hwait⟩, hmask⟩ := signalTables_eq_iff hs h
    have hfd : s.fdNext = s.fd := by simp [fdNext, hs]
    rw [and_iff_right hfd, and_iff_right hpending, and_iff_left ⟨hhandler, hwait⟩, hmask, hs]
    simp
  · exact absurd h (by simp)

end Cycle

/-! ## A call -/

section Call

variable {s : PosixLayer} {e : Word}

/-- only the operation states of file and signal calls touch the tables -/
theorem tables_step {i : PosixIn} (hf : s.state ≠ .fileOp) (hs : s.state ≠ .signalOp) :
    (s.step i).tables = s.tables := by
  simp [tables, step, fdNext, signalPendingNext, signalMaskNext, sigHandlerNext, sigwaitSetNext, hf, hs]

/-- the layer before cycle `n` of a run from `s` -/
def run (s : PosixLayer) (ins : ℕ → PosixIn) (n : ℕ) : PosixLayer := trace step s ins n

/-- **A failed file or signal call leaves every table as it was, exactly if the table processes do not carry it out.**
The call is taken in cycle 0, selects its error in cycle 2, gives it in cycle 3 and is over in cycle 4. -/
theorem failed_call_iff (hs : s.state = .idle) (ins : ℕ → PosixIn) (hreq : (ins 0).ecallReq = true)
    (herror : (s.run ins 2).callError = some e) :
    (s.run ins 3).syscallDone = some e ∧ (s.run ins 4).state = .idle ∧
      ((s.run ins 4).tables = s.tables ↔ ¬ (s.run ins 2).HalfApplied) := by
  have h1 : s.run ins 1 = s.step (ins 0) := rfl
  have h2 : s.run ins 2 = (s.run ins 1).step (ins 1) := rfl
  have h3 : s.run ins 3 = (s.run ins 2).step (ins 2) := rfl
  have h4 : s.run ins 4 = (s.run ins 3).step (ins 3) := rfl
  have hdecode : (s.run ins 1).state = .decode := by simp [h1, step, stateNext, hs, hreq]
  have hstart : (s.run ins 2).tables = s.tables := by
    rw [h2, tables_step (by simp [hdecode]) (by simp [hdecode]), h1, tables_step (by simp [hs]) (by simp [hs])]
  have hdone : (s.run ins 3).state = .complete ∧ (s.run ins 3).result = e := by
    rw [h3]
    unfold callError at herror
    split at herror
    · next hop =>
      have hresult := fileResult_of_error herror
      have hnone := fileReq_of_error herror
      exact ⟨by simp [step, stateNext, hop, hnone], by simp [step, resultNext, hop, hresult]⟩
    · next hop =>
      have hresult := signalResult_of_error herror
      exact ⟨by simp [step, stateNext, hop], by simp [step, resultNext, hop, hresult]⟩
    · exact absurd herror (by simp)
  have hend : (s.run ins 4).tables = (s.run ins 3).tables := by
    rw [h4]
    exact tables_step (by simp [hdone.1]) (by simp [hdone.1])
  refine ⟨?_, ?_, ?_⟩
  · simp [syscallDone, hdone.1, hdone.2]
  · simp [h4, step, stateNext, hdone.1]
  · rw [hend, h3, ← hstart]
    exact tables_step_iff (ins 2) herror

end Call

def callIn (num : BitVec 8) (arg0 arg1 : Word) : PosixIn :=
  ⟨true, num, arg0, arg1, 0, none, false, none, none, none, 0, 0, false⟩

/-- a `close` of a descriptor that is not open -/
theorem failed_call_iff_close : (reset.run (fun _ => callIn 0x51 9 0) 3).syscallDone = some EBADF ∧
    (reset.run (fun _ => callIn 0x51 9 0) 4).state = .idle ∧
      ((reset.run (fun _ => callIn 0x51 9 0) 4).tables = reset.tables ↔
        ¬ (reset.run (fun _ => callIn 0x51 9 0) 2).HalfApplied) :=
  failed_call_iff rfl (fun _ => callIn 0x51 9 0) rfl (by decide)

/-- an `open` of device type 5 answers ENOENT and takes descriptor 3; a `sigprocmask` with `how` 4 answers EINVAL and
blocks signal 1 -/
theorem failed_call_applied :
    ((reset.run (fun _ => callIn 0x50 5 0) 3).syscallDone = some ENOENT ∧
      (reset.run (fun _ => callIn 0x50 5 0) 4).tables ≠ reset.tables) ∧
    ((reset.run (fun _ => callIn 0x62 4 2) 3).syscallDone = some EINVAL ∧
      (reset.run (fun _ => callIn 0x62 4 2) 4).tables ≠ reset.tables) := by
  refine ⟨⟨by decide, fun h => ?_⟩, ⟨by decide, fun h => ?_⟩⟩
  · have hvalid := congrArg (fun t : PosixTables => (t.fd 3).valid) h
    exact absurd hvalid (by decide)
  · have hmask := congrArg (fun t : PosixTables => t.signalMask 0) h
    exact absurd hmask (by decide)

end PosixLayer

end Vsync
