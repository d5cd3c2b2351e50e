/-
The AXI4-Lite writes of `hw_rtos.sv` over whole runs, under any master that keeps to the protocol.

The slave takes address and data each on its own, in the cycle after it has seen them valid, and makes the write in the
cycle in which it has both. It has latched the address by then, and not the data: the write takes what `s_axi_wdata`
shows.

- `RtosBus`: the kernel with its write channel; `awBy`, `wBy`, `bBy`: the beats handed over; `appliedBy`: what the
  registers took.
- `Channel`: one of the two channels, against the beats of the writes that are made; `step_keep`, `step_make`: one
  cycle.
- `Paired`: both of them; `paired_step`: the write of a cycle is the next address with the next data.
- `Kept`: where the address comes behind its data, the bus still shows the data.
- `register_writes_iff`: **every write reaches its register with its data exactly if all are kept.**
-/
import Vsync.Bus.LiteSlaves
import Vsync.Rtos.HwRtos

namespace Vsync

/-- what a write does to a register -/
inductive RegWrite where
  | timeSlice (v : Slice)
  | reschedule
  deriving DecidableEq, Repr

/-- `REG_TIME_SLICE_CFG` takes the low half, `REG_SCHED_TRIGGER` a one in bit 0; the other addresses take nothing -/
def regWrite (w : Word × Word) : Option RegWrite :=
  if w.1.extractLsb' 0 8 = 0x18#8 then some (.timeSlice (w.2.extractLsb' 0 16))
  else if w.1.extractLsb' 0 8 = 0x24#8 ∧ w.2.getLsbD 0 = true then some .reschedule
  else none

def sliceOf (ws : List RegWrite) : Slice :=
  ws.foldl (fun v w => match w with | .timeSlice v' => v' | .reschedule => v) HwRtos.defaultTimeSlice

namespace RtosLite

def requests (s : RtosLite) : List RegWrite :=
  (if s.wrTimeSliceReq then [.timeSlice s.wrTimeSliceVal] else []) ++ (if s.wrRescheduleReq then [.reschedule] else [])

theorem requests_step (s : RtosLite) (m : BusRequest) (t : RtosStatus) :
    (s.step m t).requests = if s.commits then (regWrite (s.awAddrR, m.wdata)).toList else [] := by
  cases hc : s.commits with
  | false => simp [requests, step, hc]
  | true =>
    simp only [requests, step, hc, regWrite, Bool.true_and, if_true, beq_iff_eq]
    by_cases h18 : s.awAddrR.extractLsb' 0 8 = 0x18#8
    · simp [h18]
    · by_cases h24 : s.awAddrR.extractLsb' 0 8 = 0x24#8
      · cases m.wdata.getLsbD 0 <;> simp [h24]
      · simp [h18, h24]

end RtosLite

/-- the kernel behind its port -/
structure RtosBus where
  lite : RtosLite
  kernel : HwRtos

/-- the inputs of a cycle: the port, what the registers show to a read, and the other inputs of the kernel -/
structure RtosBusIn where
  m : BusRequest
  status : RtosStatus
  kernel : RtosIn

namespace RtosBus

def reset : RtosBus := ⟨.reset, .reset⟩

section Step

variable (s : RtosBus) (i : RtosBusIn)

/-- the requests override what the state machine does in the same cycle -/
def kernelIn : RtosIn :=
  { i.kernel with
    axiWrTimeSlice := if s.lite.wrTimeSliceReq then some s.lite.wrTimeSliceVal else none
    axiWrReschedule := s.lite.wrRescheduleReq }

def step : RtosBus := ⟨s.lite.step i.m i.status, s.kernel.step (s.kernelIn i)⟩

def awFires : Bool := i.m.awvalid && s.lite.awReadyR

def wFires : Bool := i.m.wvalid && s.lite.wReadyR

end Step

section Run

variable (ins : ℕ → RtosBusIn) (n : ℕ)

/-- the slave before cycle `n` -/
abbrev run : RtosBus := Machine.trace step reset ins n

def awBy : List Word := Machine.log (fun s i => if s.awFires i then [i.m.awaddr] else []) step reset ins n

def wBy : List Word := Machine.log (fun s i => if s.wFires i then [i.m.wdata] else []) step reset ins n

def bBy : ℕ := Nat.count (fun k => (run ins k).lite.bFires (ins k).m = true) n

/-- what the registers took -/
def appliedBy : List RegWrite := Machine.log (fun s _ => s.lite.requests) step reset ins n

/-- the writes of which address and data are both handed over, in order -/
def writesBy : List (Word × Word) := (awBy ins n).zip (wBy ins n)

/-- address and data stay on the bus until they are taken -/
structure Compliant : Prop where
  aw : ∀ n, (ins n).m.awvalid = true → (run ins n).lite.awReadyR = false →
    (ins (n + 1)).m.awvalid = true ∧ (ins (n + 1)).m.awaddr = (ins n).m.awaddr
  w : ∀ n, (ins n).m.wvalid = true → (run ins n).lite.wReadyR = false →
    (ins (n + 1)).m.wvalid = true ∧ (ins (n + 1)).m.wdata = (ins n).m.wdata

/-- if an address is handed over whose data was handed over before, the bus shows the register the same as that data -/
def Kept : Prop :=
  (run ins n).awFires (ins n) = true → ∀ x, (wBy ins n)[(awBy ins n).length]? = some x →
    regWrite ((ins n).m.awaddr, (ins n).m.wdata) = regWrite ((ins n).m.awaddr, x)

/-- every write reaches its register once, with its data, and is answered once -/
structure RegisterWrites : Prop where
  received : ∀ n, appliedBy ins (n + 1) = (writesBy ins n).filterMap regWrite
  timeSlice : ∀ n, (run ins (n + 1)).kernel.timeSliceConfig = sliceOf ((writesBy ins n).filterMap regWrite)
  reschedule : ∀ n, .reschedule ∈ (run ins n).lite.requests → (run ins (n + 1)).kernel.needReschedule = true
  answered : ∀ n, bBy ins n + (if (run ins n).lite.bValidR then 1 else 0) = (writesBy ins n).length

end Run

end RtosBus

/-! ## One channel -/

/-- the beats `log` that are handed over, the beats `made` of the writes that are made, and which beat is latched -/
inductive Channel {α : Type} (valid : Bool) (beat : α) (ready done answer : Bool) (Held : α → Prop)
    (log made : List α) : Prop
  | idle (hready : ready = false) (hdone : done = false) (hanswer : answer = false) (hlog : log = made)
  | granted (hready : ready = true) (hdone : done = true) (hanswer : answer = false) (hvalid : valid = true)
      (hheld : Held beat) (hlog : log = made)
  | taken (x : α) (hready : ready = false) (hdone : done = true) (hanswer : answer = false)
      (hheld : Held x) (hlog : log = made ++ [x])
  | answered (hready : ready = false) (hdone : done = true) (hanswer : answer = true) (hlog : log = made)

namespace Channel

variable {α : Type} {valid valid' : Bool} {beat beat' : α} {ready done answer bready : Bool} {Held Held' : α → Prop}
variable {log made : List α}

theorem step_keep (h : Channel valid beat ready done answer Held log made)
    (hstable : valid = true → ready = false → valid' = true ∧ beat' = beat)
    (hkeep : done = true → ∀ x, Held x → Held' x) (hload : done = false → valid = true → Held' beat) :
    Channel valid' beat' (valid && !done) (if bready && answer then false else done || valid)
      (if bready && answer then false else answer) Held' (log ++ if valid && ready then [beat] else []) made := by
  cases h with
  | idle hready hdone hanswer hlog =>
    subst hready hdone hanswer hlog
    cases hv : valid with
    | false => exact .idle rfl (by simp) (by simp) (by simp)
    | true =>
      obtain ⟨hvalid', hbeat'⟩ := hstable hv rfl
      exact .granted rfl (by simp) (by simp) hvalid' (hbeat' ▸ hload rfl hv) (by simp)
  | granted hready hdone hanswer hvalid hheld hlog =>
    subst hready hdone hanswer hvalid hlog
    exact .taken beat rfl (by simp) (by simp) (hkeep rfl beat hheld) (by simp)
  | taken x hready hdone hanswer hheld hlog =>
    subst hready hdone hanswer hlog
    exact .taken x (by simp) (by simp) (by simp) (hkeep rfl x hheld) (by simp)
  | answered hready hdone hanswer hlog =>
    subst hready hdone hanswer hlog
    cases bready with
    | false => exact .answered (by simp) (by simp) (by simp) (by simp)
    | true => exact .idle (by simp) (by simp) (by simp) (by simp)

theorem step_make (h : Channel valid beat ready done answer Held log made) (hdone : done = true)
    (hanswer : answer = false) :
    ∃ x, Held x ∧ (ready = true → x = beat ∧ log = made) ∧ (ready = false → log = made ++ [x]) ∧
      ∀ valid' beat' Held', Channel valid' beat' (valid && !done) (done || valid) true Held'
        (log ++ if valid && ready then [beat] else []) (made ++ [x]) := by
  subst hdone hanswer
  cases h with
  | idle hready hdone hanswer hlog => exact absurd hdone nofun
  | granted hready hdone hanswer hvalid hheld hlog =>
    subst hready hvalid hlog
    exact ⟨beat, hheld, fun _ => ⟨rfl, rfl⟩, nofun, fun _ _ _ => .answered rfl rfl rfl (by simp)⟩
  | taken x hready hdone hanswer hheld hlog =>
    subst hready hlog
    exact ⟨x, hheld, nofun, fun _ => rfl, fun _ _ _ => .answered (by simp) rfl rfl (by simp)⟩
  | answered hready hdone hanswer hlog => exact absurd hanswer nofun

end Channel

/-! ## Both channels -/

/-- beats that are one ahead on one side at most -/
theorem zip_beats {α β : Type} (p : List (α × β)) {x : List α} {y : List β} (h : x = [] ∨ y = []) :
    (p.map Prod.fst ++ x).zip (p.map Prod.snd ++ y) = p := by
  rw [List.zip_append (by simp), ← List.zip_of_prod rfl rfl]
  rcases h with rfl | rfl <;> simp

namespace RtosBus

variable {ins : ℕ → RtosBusIn} {n : ℕ} {p : List (Word × Word)}

/-- the writes `p` are made before cycle `n` -/
structure Paired (ins : ℕ → RtosBusIn) (n : ℕ) (p : List (Word × Word)) : Prop where
  aw : Channel (ins n).m.awvalid (ins n).m.awaddr (run ins n).lite.awReadyR (run ins n).lite.awDone
    (run ins n).lite.bValidR
    (· = (run ins n).lite.awAddrR) (awBy ins n) (p.map Prod.fst)
  w : Channel (ins n).m.wvalid (ins n).m.wdata (run ins n).lite.wReadyR (run ins n).lite.wDone (run ins n).lite.bValidR
    (fun _ => True) (wBy ins n) (p.map Prod.snd)
  /-- a write is made as soon as both beats are there -/
  fresh : (run ins n).lite.commits = true → (run ins n).lite.awReadyR = true ∨ (run ins n).lite.wReadyR = true

theorem commits_iff (s : RtosLite) : s.commits = true ↔ s.awDone = true ∧ s.wDone = true ∧ s.bValidR = false := by
  simp [RtosLite.commits, and_assoc]

/-- the writes that are made are those of which both beats are handed over, and no others -/
theorem Paired.eq_writesBy (h : Paired ins n p) : writesBy ins n = p := by
  have hlog (x : List Word) (y : List Word) (haw : awBy ins n = p.map Prod.fst ++ x)
      (hw : wBy ins n = p.map Prod.snd ++ y) (hor : x = [] ∨ y = []) : writesBy ins n = p := by
    rw [writesBy, haw, hw, zip_beats p hor]
  cases h.aw with
  | taken a hready hdone hanswer _ ha =>
    cases h.w with
    | taken x hready' hdone' _ _ _ =>
      rcases h.fresh ((commits_iff _).2 ⟨hdone, hdone', hanswer⟩) with hr | hr
      · exact absurd (hr.symm.trans hready) nofun
      · exact absurd (hr.symm.trans hready') nofun
    | idle _ _ _ hx | granted _ _ _ _ _ hx | answered _ _ _ hx => exact hlog [a] [] ha (by simp [hx]) (.inr rfl)
  | idle _ _ _ ha | granted _ _ _ _ _ ha | answered _ _ _ ha =>
    cases h.w with
    | taken x _ _ _ _ hx => exact hlog [] [x] (by simp [ha]) hx (.inl rfl)
    | idle _ _ _ hx | granted _ _ _ _ _ hx | answered _ _ _ hx =>
      exact hlog [] [] (by simp [ha]) (by simp [hx]) (.inl rfl)

/-- two beats that wait for each other are both new -/
theorem fresh_step (s : RtosLite) (m : BusRequest) (t : RtosStatus) (h : (s.step m t).commits = true) :
    (s.step m t).awReadyR = true ∨ (s.step m t).wReadyR = true := by
  rcases s with ⟨awr, awa, awd, wr, wd, bv, tr, tv, rr, arr, ara, rv, rd⟩
  simp only [RtosLite.commits, RtosLite.step, RtosLite.bFires] at h ⊢
  cases awd <;> cases wd <;> cases bv <;> simp_all

/-- a granted address is the one that is latched, and it is the next -/
theorem Paired.aw_granted (h : Paired ins n p) (hready : (run ins n).lite.awReadyR = true) :
    (run ins n).lite.awDone = true ∧ (run ins n).lite.bValidR = false ∧ (run ins n).awFires (ins n) = true ∧
      (ins n).m.awaddr = (run ins n).lite.awAddrR ∧ awBy ins n = p.map Prod.fst := by
  cases h.aw with
  | granted _ hdone hanswer hvalid hheld hlog =>
    exact ⟨hdone, hanswer, by rw [awFires, hvalid, hready]; rfl, hheld, hlog⟩
  | idle hready' | taken _ hready' | answered hready' => exact absurd (hready.symm.trans hready') nofun

/-- without a write in this cycle no address comes behind its data -/
theorem Paired.kept_of_not_commits (h : Paired ins n p) (hcommit : (run ins n).lite.commits = false) : Kept ins n := by
  intro hfires x hx
  obtain ⟨-, hready⟩ := Bool.and_eq_true_iff.1 hfires
  obtain ⟨hdone, hanswer, -, -, haw⟩ := h.aw_granted hready
  rw [haw, List.length_map] at hx
  cases h.w with
  | taken _ _ hdone' _ _ _ =>
    exact absurd ((commits_iff _).2 ⟨hdone, hdone', hanswer⟩) (by rw [hcommit]; nofun)
  | idle _ _ _ hw | granted _ _ _ _ _ hw => simp [hw] at hx
  | answered _ _ hanswer' _ => exact absurd (hanswer.symm.trans hanswer') nofun

/-- with a write it is the datum of this write that counts -/
theorem Paired.kept_iff (h : Paired ins n p) (hcommit : (run ins n).lite.commits = true) {x : Word}
    (hgranted : (run ins n).lite.wReadyR = true → x = (ins n).m.wdata ∧ wBy ins n = p.map Prod.snd)
    (htaken : (run ins n).lite.wReadyR = false → wBy ins n = p.map Prod.snd ++ [x]) :
    Kept ins n ↔ regWrite ((run ins n).lite.awAddrR, (ins n).m.wdata) = regWrite ((run ins n).lite.awAddrR, x) := by
  cases hr : (run ins n).lite.wReadyR with
  | true =>
    obtain ⟨rfl, hw⟩ := hgranted hr
    refine iff_of_true ?_ rfl
    intro hfires x hx
    obtain ⟨-, hready⟩ := Bool.and_eq_true_iff.1 hfires
    rw [(h.aw_granted hready).2.2.2.2, hw] at hx
    simp at hx
  | false =>
    have hready : (run ins n).lite.awReadyR = true := by
      rcases h.fresh hcommit with hready | hready
      · exact hready
      · exact absurd (hr.symm.trans hready) nofun
    obtain ⟨-, -, hfires, haddr, haw⟩ := h.aw_granted hready
    have hlast : (wBy ins n)[(awBy ins n).length]? = some x := by
      rw [haw, htaken hr]
      simp
    rw [Kept, haddr]
    constructor
    · exact fun hkept => hkept hfires x hlast
    · intro heq _ y hy
      rw [Option.some.inj (hy.symm.trans hlast)]
      exact heq

theorem bValid_succ (ins : ℕ → RtosBusIn) (n : ℕ) : (run ins (n + 1)).lite.bValidR =
    if (run ins n).lite.commits then true
    else if (ins n).m.bready && (run ins n).lite.bValidR then false else (run ins n).lite.bValidR := rfl

theorem awAddr_succ (ins : ℕ → RtosBusIn) (n : ℕ) : (run ins (n + 1)).lite.awAddrR =
    if (ins n).m.awvalid && !(run ins n).lite.awDone then (ins n).m.awaddr else (run ins n).lite.awAddrR := rfl

theorem fresh_succ (ins : ℕ → RtosBusIn) (n : ℕ) (h : (run ins (n + 1)).lite.commits = true) :
    (run ins (n + 1)).lite.awReadyR = true ∨ (run ins (n + 1)).lite.wReadyR = true :=
  fresh_step (run ins n).lite (ins n).m (ins n).status h

/-- no write is made: what the registers hold stays ahead of the commits by at most one address and one datum -/
theorem Paired.waits (hc : Compliant ins) (h : Paired ins n p) (hcommit : (run ins n).lite.commits = false) :
    Paired ins (n + 1) p := by
  have hanswer := bValid_succ ins n
  rw [hcommit, if_neg Bool.false_ne_true] at hanswer
  refine ⟨?_, ?_, fresh_succ ins n⟩
  · rw [hanswer]
    refine h.aw.step_keep (hc.aw n) ?_ ?_
    · intro hdone x hx
      rw [awAddr_succ, hdone, Bool.not_true, Bool.and_false, if_neg Bool.false_ne_true]
      exact hx
    · intro hdone hvalid
      rw [awAddr_succ, hdone, hvalid]
      rfl
  · rw [hanswer]
    exact h.w.step_keep (hc.w n) (fun _ _ _ => trivial) fun _ _ => trivial

/-- the write that is made is the next address with the next datum -/
theorem Paired.makes (h : Paired ins n p) (hcommit : (run ins n).lite.commits = true) :
    ∃ x, Paired ins (n + 1) (p ++ [((run ins n).lite.awAddrR, x)]) ∧
      (Kept ins n ↔ regWrite ((run ins n).lite.awAddrR, (ins n).m.wdata) = regWrite ((run ins n).lite.awAddrR, x)) := by
  obtain ⟨hawDone, hwDone, hb⟩ := (commits_iff _).1 hcommit
  have hanswer := bValid_succ ins n
  rw [hcommit, if_pos rfl] at hanswer
  have hawDone' : (run ins (n + 1)).lite.awDone = ((run ins n).lite.awDone || (ins n).m.awvalid) := by
    change (if (ins n).m.bready && (run ins n).lite.bValidR then false else _) = _
    rw [hb, Bool.and_false, if_neg Bool.false_ne_true]
  have hwDone' : (run ins (n + 1)).lite.wDone = ((run ins n).lite.wDone || (ins n).m.wvalid) := by
    change (if (ins n).m.bready && (run ins n).lite.bValidR then false else _) = _
    rw [hb, Bool.and_false, if_neg Bool.false_ne_true]
  obtain ⟨a, rfl, -, -, haw⟩ := h.aw.step_make hawDone hb
  obtain ⟨x, -, hgranted, htaken, hw⟩ := h.w.step_make hwDone hb
  refine ⟨x, ⟨?_, ?_, fresh_succ ins n⟩, h.kept_iff hcommit hgranted htaken⟩
  · rw [hanswer, hawDone', List.map_append]
    exact haw _ _ _
  · rw [hanswer, hwDone', List.map_append]
    exact hw _ _ _

/-- **One cycle.** The write that is made is the next address with the next datum; the register takes what the bus
shows. -/
theorem paired_step (hc : Compliant ins) (h : Paired ins n p) :
    ((run ins n).lite.commits = false ∧ Paired ins (n + 1) p ∧ Kept ins n) ∨
      ((run ins n).lite.commits = true ∧ ∃ x, Paired ins (n + 1) (p ++ [((run ins n).lite.awAddrR, x)]) ∧
        (Kept ins n ↔ regWrite ((run ins n).lite.awAddrR, (ins n).m.wdata) = regWrite
          ((run ins n).lite.awAddrR, x))) := by
  cases hcommit : (run ins n).lite.commits with
  | false => exact .inl ⟨rfl, h.waits hc hcommit, h.kept_of_not_commits hcommit⟩
  | true => exact .inr ⟨rfl, h.makes hcommit⟩

/-! ## Runs -/

theorem paired_run (hc : Compliant ins) (n : ℕ) : Paired ins n (writesBy ins n) := by
  induction n with
  | zero => exact ⟨.idle rfl rfl rfl rfl, .idle rfl rfl rfl rfl, nofun⟩
  | succ n ih =>
    rcases paired_step hc ih with ⟨-, hnext, -⟩ | ⟨-, x, hnext, -⟩
    · rw [hnext.eq_writesBy]
      exact hnext
    · rw [hnext.eq_writesBy]
      exact hnext

/-- the writes that a cycle completes, and what its register takes -/
theorem writesBy_succ (hc : Compliant ins) (n : ℕ) :
    ((run ins n).lite.commits = false ∧ writesBy ins (n + 1) = writesBy ins n ∧ Kept ins n) ∨
      ((run ins n).lite.commits = true ∧ ∃ x, writesBy ins (n + 1) = writesBy ins n ++ [((run ins n).lite.awAddrR, x)] ∧
        (Kept ins n ↔ regWrite ((run ins n).lite.awAddrR, (ins n).m.wdata) = regWrite
          ((run ins n).lite.awAddrR, x))) := by
  rcases paired_step hc (paired_run hc n) with ⟨hcommit, hnext, hkept⟩ | ⟨hcommit, x, hnext, hkept⟩
  · exact .inl ⟨hcommit, hnext.eq_writesBy, hkept⟩
  · exact .inr ⟨hcommit, x, hnext.eq_writesBy, hkept⟩

theorem appliedBy_succ (n : ℕ) : appliedBy ins (n + 2) = appliedBy ins (n + 1) ++
    if (run ins n).lite.commits then (regWrite ((run ins n).lite.awAddrR, (ins n).m.wdata)).toList else [] := by
  rw [appliedBy, Machine.log_succ]
  exact congrArg _ (RtosLite.requests_step (run ins n).lite (ins n).m (ins n).status)

/-- the registers take what they should up to a cycle exactly if they do before it and the write is kept -/
theorem received_step (hc : Compliant ins) (hbefore : appliedBy ins (n + 1) = (writesBy ins n).filterMap regWrite) :
    appliedBy ins (n + 2) = (writesBy ins (n + 1)).filterMap regWrite ↔ Kept ins n := by
  rw [appliedBy_succ, hbefore]
  rcases writesBy_succ hc n with ⟨hcommit, hnext, hkept⟩ | ⟨hcommit, x, hnext, hkept⟩
  · rw [hcommit, if_neg Bool.false_ne_true, List.append_nil, hnext]
    exact iff_of_true rfl hkept
  · have hsingle (w : Word × Word) : [w].filterMap regWrite = (regWrite w).toList := by
      cases hw : regWrite w <;> simp [hw]
    rw [hcommit, if_pos rfl, hnext, hkept, List.filterMap_append, List.append_cancel_left_eq, hsingle]
    constructor
    · intro h
      have hhead := congrArg List.head? h
      rwa [Option.head?_toList, Option.head?_toList] at hhead
    · intro h
      rw [h]

/-- one response is given for each write, or is about to be -/
theorem bBy_eq (hc : Compliant ins) (n : ℕ) :
    bBy ins n + (if (run ins n).lite.bValidR then 1 else 0) = (writesBy ins n).length := by
  induction n with
  | zero => rfl
  | succ n ih =>
    have hanswer : (run ins (n + 1)).lite.bValidR = if (run ins n).lite.commits then true else
        if (run ins n).lite.bFires (ins n).m then false else (run ins n).lite.bValidR := rfl
    have hfires : (run ins n).lite.bFires (ins n).m = ((ins n).m.bready && (run ins n).lite.bValidR) := rfl
    have hcount : bBy ins (n + 1) = bBy ins n + if (run ins n).lite.bFires (ins n).m = true then 1 else 0 :=
      Nat.count_succ _ n
    rw [hcount, hanswer]
    rcases writesBy_succ hc n with ⟨hcommit, hnext, -⟩ | ⟨hcommit, x, hnext, -⟩
    · rw [hnext, ← ih, hcommit, if_neg Bool.false_ne_true]
      cases hb : (run ins n).lite.bFires (ins n).m with
      | false => simp
      | true =>
        rw [hfires, Bool.and_eq_true] at hb
        simp [hb.2]
    · -- a response is not there yet
      obtain ⟨-, -, hb⟩ := (commits_iff _).1 hcommit
      rw [hb, if_neg Bool.false_ne_true] at ih
      rw [hnext, hcommit, hfires, hb, Bool.and_false, if_neg Bool.false_ne_true, if_pos rfl, if_pos rfl,
        List.length_append, ← ih]
      rfl

theorem sliceOf_append (ws ws' : List RegWrite) : sliceOf (ws ++ ws') =
    ws'.foldl (fun v w => match w with | .timeSlice v' => v' | .reschedule => v) (sliceOf ws) := List.foldl_append

/-- what the requests of a cycle do -/
theorem kernel_step (s : RtosBus) (i : RtosBusIn) (ws : List RegWrite) (h : s.kernel.timeSliceConfig = sliceOf ws) :
    (s.step i).kernel.timeSliceConfig = sliceOf (ws ++ s.lite.requests) ∧
      (.reschedule ∈ s.lite.requests → (s.step i).kernel.needReschedule = true) := by
  have hslice : (s.step i).kernel.timeSliceConfig =
      (if s.lite.wrTimeSliceReq then some s.lite.wrTimeSliceVal else none).getD s.kernel.timeSliceConfig := rfl
  constructor
  · rw [hslice, sliceOf_append, ← h, RtosLite.requests]
    cases s.lite.wrTimeSliceReq <;> cases s.lite.wrRescheduleReq <;> rfl
  · intro hmem
    have hreq : s.lite.wrRescheduleReq = true := by
      rw [RtosLite.requests] at hmem
      cases hr : s.lite.wrRescheduleReq with
      | true => rfl
      | false =>
        rw [hr] at hmem
        cases ht : s.lite.wrTimeSliceReq <;> simp [ht] at hmem
    change (s.lite.wrRescheduleReq || _) = true
    rw [hreq, Bool.true_or]

theorem timeSliceConfig_eq (n : ℕ) : (run ins n).kernel.timeSliceConfig = sliceOf (appliedBy ins n) := by
  induction n with
  | zero => rfl
  | succ n ih => exact (kernel_step (run ins n) (ins n) _ ih).1

/-- **Every write reaches its register with its data** exactly if each address that comes behind its data finds them on
the bus. That each write is made once, and answered once, holds in any case. -/
theorem register_writes_iff (hc : Compliant ins) : RegisterWrites ins ↔ ∀ n, Kept ins n := by
  constructor
  · intro h n
    exact (received_step hc (h.received n)).1 (h.received (n + 1))
  · intro hkept
    have hreceived (n : ℕ) : appliedBy ins (n + 1) = (writesBy ins n).filterMap regWrite := by
      induction n with
      | zero => rfl
      | succ n ih => exact (received_step hc ih).2 (hkept n)
    refine ⟨hreceived, fun n => ?_, fun n => ?_, bBy_eq hc⟩
    · rw [timeSliceConfig_eq, hreceived]
    · exact (kernel_step (run ins n) (ins n) _ (timeSliceConfig_eq n)).2

/-- the inputs of a cycle in which only these lines of the port are up -/
def lines (awvalid : Bool) (awaddr : Word) (wvalid : Bool) (wdata : Word) : RtosBusIn where
  m := ⟨false, 0, false, awvalid, awaddr, wvalid, wdata, 0b1111, true⟩
  status := ⟨true, 0, 0, 0, false, 0, 0, 0, false, false⟩
  kernel := .quiet

/-- the time slice 5 before its address; `late` is what the data bus shows then -/
def dataFirst (late : Word) : ℕ → RtosBusIn
  | 0 | 1 => lines false 0 true 5
  | 2 | 3 => lines true 0x18 false late
  | _ => lines false 0 false 0

theorem dataFirst_compliant (late : Word) : Compliant (dataFirst late) := by
  constructor
  · intro n hvalid hready
    rcases n with _ | _ | _ | _ | n
    · exact absurd hvalid Bool.false_ne_true
    · exact absurd hvalid Bool.false_ne_true
    · exact ⟨rfl, rfl⟩
    · exact Bool.noConfusion hready
    · exact absurd hvalid Bool.false_ne_true
  · intro n hvalid hready
    rcases n with _ | _ | n
    · exact ⟨rfl, rfl⟩
    · exact Bool.noConfusion hready
    · rcases n with _ | _ | n <;> exact absurd hvalid Bool.false_ne_true

/-- the register takes what the bus shows with the address -/
theorem timeSlice_lost : Compliant (dataFirst 0) ∧ writesBy (dataFirst 0) 4 = [(0x18, 5)] ∧
    (run (dataFirst 0) 5).kernel.timeSliceConfig = 0 ∧ ¬ RegisterWrites (dataFirst 0) := by
  refine ⟨dataFirst_compliant 0, by decide +kernel, by decide +kernel, fun h => ?_⟩
  have hreceived := h.received 4
  revert hreceived
  decide +kernel

theorem register_writes_iff_dataHeld : RegisterWrites (dataFirst 5) := by
  refine (register_writes_iff (dataFirst_compliant 5)).2 fun n hfires => ?_
  rcases n with _ | _ | _ | _ | n
  · exact absurd hfires (by decide +kernel)
  · exact absurd hfires (by decide +kernel)
  · exact absurd hfires (by decide +kernel)
  · intro x hx
    have hdatum : (wBy (dataFirst 5) 3)[(awBy (dataFirst 5) 3).length]? = some 5 := by decide +kernel
    rw [← Option.some.inj (hdatum.symm.trans hx)]
    rfl
  · exact absurd hfires Bool.false_ne_true

end RtosBus

end Vsync
