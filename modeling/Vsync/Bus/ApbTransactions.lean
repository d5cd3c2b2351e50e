/-
What `axi4_apb_bridge` does on both of its sides, for any AXI requests and any APB answers.

- `TaggedBridge`: the bridge with its transaction id, which the bus of this design does not look at.
- `BridgeEvent`: a handshake on an AXI channel, or a cycle of the APB port with `psel` up.
- `Transaction`: the events of one AXI transaction: its acceptance, one APB transfer, its response.
- `bridge_refines`: in every run the events are transactions one after another.
-/
import Vsync.Bus.ApbBridge
import Vsync.Episodes

namespace Vsync

/-- the lines of an APB master -/
structure ApbLines where
  psel : Bool
  penable : Bool
  pwrite : Bool
  paddr : Word
  pwdata : Word
  deriving DecidableEq, Repr

/-- the APB outputs of the bridge -/
def ApbBridge.lines (s : ApbBridge) : ApbLines where
  psel := s.state == .setup || s.state == .access
  penable := s.state == .access
  pwrite := s.txnIsWrite
  paddr := s.txnAddr
  pwdata := s.txnWdata

structure ApbTransfer where
  addr : Word
  write : Bool
  wdata : Word
  deriving DecidableEq, Repr

def ApbLines.transfer (l : ApbLines) : ApbTransfer := ⟨l.paddr, l.pwrite, l.pwdata⟩

/-- `s_axi_awid`, `s_axi_arid`, …: `AXI_ID_W` = 4 -/
abbrev AxiId := BitVec 4

/-- the lines into the bridge in a cycle -/
structure BridgeIn where
  req : BusRequest
  arid : AxiId
  awid : AxiId
  apb : ApbResponse

/-- the bridge with `txn_id`, which drives `s_axi_rid` and `s_axi_bid` -/
structure TaggedBridge where
  bridge : ApbBridge
  txnId : AxiId
  deriving DecidableEq, Repr

inductive BridgeEvent where
  | ar (id : AxiId) (addr : Word)
  | aw (id : AxiId) (addr : Word)
  | w (data : Word)
  | setup (t : ApbTransfer)
  | access (t : ApbTransfer) (answer : Option (Word × Bool))
  | r (id : AxiId) (data : Word) (resp : BitVec 2)
  | b (id : AxiId) (resp : BitVec 2)
  deriving DecidableEq, Repr

namespace TaggedBridge

open Machine

def reset : TaggedBridge := ⟨ApbBridge.reset, 0⟩

section Step

variable (s : TaggedBridge) (i : BridgeIn)

def step : TaggedBridge where
  bridge := s.bridge.step i.req i.apb
  txnId :=
    match s.bridge.state with
    | .idle => if i.req.arvalid then i.arid else if i.req.awvalid then i.awid else s.txnId
    | _ => s.txnId

def response : BusResponse := s.bridge.response i.req

def whenFires (fires : Bool) (e : BridgeEvent) : List BridgeEvent := if fires then [e] else []

def apbEvent : List BridgeEvent :=
  let l := s.bridge.lines
  if l.psel then
    if l.penable then [.access l.transfer (if i.apb.pready then some (i.apb.prdata, i.apb.pslverr) else none)]
    else [.setup l.transfer]
  else []

def events : List BridgeEvent :=
  whenFires (i.req.arvalid && (s.response i).arready) (.ar i.arid i.req.araddr) ++
    whenFires (i.req.awvalid && (s.response i).awready) (.aw i.awid i.req.awaddr) ++
    whenFires (i.req.wvalid && (s.response i).wready) (.w i.req.wdata) ++ s.apbEvent i ++
    whenFires ((s.response i).rvalid && i.req.rready) (.r s.txnId (s.response i).rdata (s.response i).rresp) ++
    whenFires ((s.response i).bvalid && i.req.bready) (.b s.txnId (s.response i).bresp)

end Step

/-! ## Transactions -/

/-- a `SETUP` cycle and `k` cycles of `ACCESS` without `pready` -/
def waited (t : ApbTransfer) (k : ℕ) : List BridgeEvent := .setup t :: List.replicate k (.access t none)

/-- SLVERR iff `pslverr` -/
def respOf (pslverr : Bool) : BitVec 2 := if pslverr then AXI_RESP_SLVERR else 0b00

/-- the events of a transaction: its address and data, one transfer with the same address, direction and data in every
cycle, and the response with its id; on a read `pwdata` is whatever was there -/
inductive Transaction : List BridgeEvent → Prop where
  | read (id : AxiId) (a wd : Word) (k : ℕ) (d : Word) (e : Bool) :
    Transaction (.ar id a :: waited ⟨a, false, wd⟩ k ++ [.access ⟨a, false, wd⟩ (some (d, e)), .r id d (respOf e)])
  | write (id : AxiId) (a wd : Word) (k : ℕ) (d : Word) (e : Bool) :
    Transaction (.aw id a :: .w wd :: waited ⟨a, true, wd⟩ k ++ [.access ⟨a, true, wd⟩ (some (d, e)), .b id (respOf e)])

def transactions : Language BridgeEvent := {l | Transaction l}

def transfer (s : TaggedBridge) : ApbTransfer := s.bridge.lines.transfer

def acceptance (s : TaggedBridge) : List BridgeEvent :=
  if s.bridge.txnIsWrite then [.aw s.txnId s.bridge.txnAddr, .w s.bridge.txnWdata] else [.ar s.txnId s.bridge.txnAddr]

/-- the events of a transaction up to its response -/
def Answered (s : TaggedBridge) (p : List BridgeEvent) : Prop :=
  ∃ k, p = s.acceptance ++ waited s.transfer k ++ [.access s.transfer (some (s.bridge.txnRdata, s.bridge.txnError))]

/-- the events of the transaction in progress -/
def Open (s : TaggedBridge) (p : List BridgeEvent) : Prop :=
  match s.bridge.state with
  | .idle => p = []
  | .wrWait => s.bridge.txnIsWrite = true ∧ p = [.aw s.txnId s.bridge.txnAddr]
  | .setup => p = s.acceptance
  | .access => ∃ k, p = s.acceptance ++ waited s.transfer k
  | .wrResp => s.bridge.txnIsWrite = true ∧ s.Answered p
  | .rdResp => s.bridge.txnIsWrite = false ∧ s.Answered p

section Cycle

variable {s : TaggedBridge} {i : BridgeIn} {p : List BridgeEvent}

theorem waited_succ (t : ApbTransfer) (k : ℕ) : waited t k ++ [.access t none] = waited t (k + 1) := by
  simp [waited, List.replicate_succ']

theorem open_idle (hs : s.bridge.state = .idle) (h : s.Open p) : (s.step i).Open (p ++ s.events i) := by
  have hp : p = [] := by simpa [Open, hs] using h
  cases har : i.req.arvalid with
  | true =>
    simp [hp, step, ApbBridge.step, ApbBridge.stateNext, Open, acceptance, events, response, ApbBridge.response,
      whenFires, apbEvent, ApbBridge.lines, hs, har]
  | false =>
    cases haw : i.req.awvalid <;> cases hw : i.req.wvalid <;>
      simp [hp, step, ApbBridge.step, ApbBridge.stateNext, Open, acceptance, events, response, ApbBridge.response,
        whenFires, apbEvent, ApbBridge.lines, hs, har, haw, hw]

theorem open_wrWait (hs : s.bridge.state = .wrWait) (h : s.Open p) : (s.step i).Open (p ++ s.events i) := by
  obtain ⟨hwrite, hp⟩ : s.bridge.txnIsWrite = true ∧ p = [.aw s.txnId s.bridge.txnAddr] := by simpa [Open, hs] using h
  cases hw : i.req.wvalid <;>
    simp [hp, step, ApbBridge.step, ApbBridge.stateNext, Open, acceptance, events, response, ApbBridge.response,
      whenFires, apbEvent, ApbBridge.lines, hs, hwrite, hw]

theorem open_setup (hs : s.bridge.state = .setup) (h : s.Open p) : (s.step i).Open (p ++ s.events i) := by
  have hp : p = s.acceptance := by simpa [Open, hs] using h
  have hevents : s.events i = [.setup s.transfer] := by
    simp [events, response, ApbBridge.response, whenFires, apbEvent, ApbBridge.lines, transfer, hs]
  have hstep : s.step i = ⟨{ s.bridge with state := .access }, s.txnId⟩ := by
    simp [step, ApbBridge.step, ApbBridge.stateNext, hs]
  rw [hevents, hstep, hp]
  exact ⟨0, rfl⟩

theorem open_access (hs : s.bridge.state = .access) (h : s.Open p) : (s.step i).Open (p ++ s.events i) := by
  obtain ⟨k, hp⟩ : ∃ k, p = s.acceptance ++ waited s.transfer k := by simpa [Open, hs] using h
  cases hready : i.apb.pready with
  | false =>
    have hevents : s.events i = [.access s.transfer none] := by
      simp [events, response, ApbBridge.response, whenFires, apbEvent, ApbBridge.lines, transfer, hs, hready]
    have hstep : s.step i = s := by
      rcases s with ⟨⟨state, a, d, w, r, e⟩, id⟩
      obtain rfl : state = .access := hs
      simp [step, ApbBridge.step, ApbBridge.stateNext, hready]
    rw [hevents, hstep, hp, List.append_assoc, waited_succ]
    simp only [Open, hs]
    exact ⟨k + 1, rfl⟩
  | true =>
    have hevents : s.events i = [.access s.transfer (some (i.apb.prdata, i.apb.pslverr))] := by
      simp [events, response, ApbBridge.response, whenFires, apbEvent, ApbBridge.lines, transfer, hs, hready]
    rw [hevents, hp]
    cases hwrite : s.bridge.txnIsWrite with
    | true =>
      have hstate : (s.step i).bridge.state = .wrResp := by
        simp [step, ApbBridge.step, ApbBridge.stateNext, hs, hready, hwrite]
      simp only [Open, hstate]
      refine ⟨by simp [step, ApbBridge.step, hs, hwrite], k, ?_⟩
      simp [step, ApbBridge.step, acceptance, transfer, ApbBridge.lines, ApbLines.transfer, hs, hready]
    | false =>
      have hstate : (s.step i).bridge.state = .rdResp := by
        simp [step, ApbBridge.step, ApbBridge.stateNext, hs, hready, hwrite]
      simp only [Open, hstate]
      refine ⟨by simp [step, ApbBridge.step, hs, hwrite], k, ?_⟩
      simp [step, ApbBridge.step, acceptance, transfer, ApbBridge.lines, ApbLines.transfer, hs, hready]

/-- the response that the bridge offers completes the transaction -/
theorem complete_write (hwrite : s.bridge.txnIsWrite = true) (h : s.Answered p) :
    p ++ [.b s.txnId (respOf s.bridge.txnError)] ∈ transactions := by
  obtain ⟨k, hp⟩ := h
  change Transaction _
  have ht := Transaction.write s.txnId s.bridge.txnAddr s.bridge.txnWdata k s.bridge.txnRdata s.bridge.txnError
  simpa [hp, acceptance, transfer, ApbBridge.lines, ApbLines.transfer, hwrite] using ht

theorem complete_read (hread : s.bridge.txnIsWrite = false) (h : s.Answered p) :
    p ++ [.r s.txnId s.bridge.txnRdata (respOf s.bridge.txnError)] ∈ transactions := by
  obtain ⟨k, hp⟩ := h
  change Transaction _
  have ht := Transaction.read s.txnId s.bridge.txnAddr s.bridge.txnWdata k s.bridge.txnRdata s.bridge.txnError
  simpa [hp, acceptance, transfer, ApbBridge.lines, ApbLines.transfer, hread] using ht

theorem open_wrResp (hs : s.bridge.state = .wrResp) (h : s.Open p) :
    (s.step i).Open (p ++ s.events i) ∨ (p ++ s.events i ∈ transactions ∧ (s.step i).Open []) := by
  obtain ⟨hwrite, ha⟩ : s.bridge.txnIsWrite = true ∧ s.Answered p := by simpa [Open, hs] using h
  cases hb : i.req.bready with
  | false =>
    have hevents : s.events i = [] := by
      simp [events, response, ApbBridge.response, whenFires, apbEvent, ApbBridge.lines, hs, hb]
    have hstep : s.step i = s := by
      rcases s with ⟨⟨state, a, d, w, r, e⟩, id⟩
      obtain rfl : state = .wrResp := hs
      simp [step, ApbBridge.step, ApbBridge.stateNext, hb]
    rw [hevents, hstep, List.append_nil]
    exact .inl h
  | true =>
    have hevents : s.events i = [.b s.txnId (respOf s.bridge.txnError)] := by
      simp [events, response, ApbBridge.response, whenFires, apbEvent, ApbBridge.lines, respOf, hs, hb]
    rw [hevents]
    refine .inr ⟨complete_write hwrite ha, ?_⟩
    simp [Open, step, ApbBridge.step, ApbBridge.stateNext, hs, hb]

theorem open_rdResp (hs : s.bridge.state = .rdResp) (h : s.Open p) :
    (s.step i).Open (p ++ s.events i) ∨ (p ++ s.events i ∈ transactions ∧ (s.step i).Open []) := by
  obtain ⟨hread, ha⟩ : s.bridge.txnIsWrite = false ∧ s.Answered p := by simpa [Open, hs] using h
  cases hr : i.req.rready with
  | false =>
    have hevents : s.events i = [] := by
      simp [events, response, ApbBridge.response, whenFires, apbEvent, ApbBridge.lines, hs, hr]
    have hstep : s.step i = s := by
      rcases s with ⟨⟨state, a, d, w, r, e⟩, id⟩
      obtain rfl : state = .rdResp := hs
      simp [step, ApbBridge.step, ApbBridge.stateNext, hr]
    rw [hevents, hstep, List.append_nil]
    exact .inl h
  | true =>
    have hevents : s.events i = [.r s.txnId s.bridge.txnRdata (respOf s.bridge.txnError)] := by
      simp [events, response, ApbBridge.response, whenFires, apbEvent, ApbBridge.lines, respOf, hs, hr]
    rw [hevents]
    refine .inr ⟨complete_read hread ha, ?_⟩
    simp [Open, step, ApbBridge.step, ApbBridge.stateNext, hs, hr]

end Cycle

theorem open_step (s : TaggedBridge) (i : BridgeIn) (p : List BridgeEvent) (h : s.Open p) :
    (s.step i).Open (p ++ s.events i) ∨ (p ++ s.events i ∈ transactions ∧ (s.step i).Open []) := by
  cases hs : s.bridge.state with
  | idle => exact .inl (open_idle hs h)
  | wrWait => exact .inl (open_wrWait hs h)
  | setup => exact .inl (open_setup hs h)
  | access => exact .inl (open_access hs h)
  | wrResp => exact open_wrResp hs h
  | rdResp => exact open_rdResp hs h

/-- a transaction whose transfer is under way can be completed -/
theorem rest_of_acceptance (s : TaggedBridge) (k : ℕ) :
    ∃ rest, rest ≠ [] ∧ s.acceptance ++ waited s.transfer k ++ rest ∈ transactions := by
  cases hw : s.bridge.txnIsWrite with
  | true =>
    refine ⟨[.access s.transfer (some (0, false)), .b s.txnId (respOf false)], List.cons_ne_nil _ _, ?_⟩
    change Transaction _
    have ht := Transaction.write s.txnId s.bridge.txnAddr s.bridge.txnWdata k 0 false
    simpa [acceptance, transfer, ApbBridge.lines, ApbLines.transfer, hw] using ht
  | false =>
    refine ⟨[.access s.transfer (some (0, false)), .r s.txnId 0 (respOf false)], List.cons_ne_nil _ _, ?_⟩
    change Transaction _
    have ht := Transaction.read s.txnId s.bridge.txnAddr s.bridge.txnWdata k 0 false
    simpa [acceptance, transfer, ApbBridge.lines, ApbLines.transfer, hw] using ht

theorem open_rest (s : TaggedBridge) (p : List BridgeEvent) (h : s.Open p) :
    ∃ rest, rest ≠ [] ∧ p ++ rest ∈ transactions := by
  cases hs : s.bridge.state with
  | idle =>
    have hp : p = [] := by simpa [Open, hs] using h
    rw [hp]
    exact ⟨_, List.cons_ne_nil _ _, Transaction.read 0 0 0 0 0 false⟩
  | wrWait =>
    obtain ⟨-, hp⟩ : s.bridge.txnIsWrite = true ∧ p = [.aw s.txnId s.bridge.txnAddr] := by simpa [Open, hs] using h
    rw [hp]
    exact ⟨_, List.cons_ne_nil _ _, Transaction.write s.txnId s.bridge.txnAddr 0 0 0 false⟩
  | setup =>
    have hp : p = s.acceptance := by simpa [Open, hs] using h
    obtain ⟨rest, -, hrest⟩ := s.rest_of_acceptance 0
    refine ⟨waited s.transfer 0 ++ rest, by simp [waited], ?_⟩
    rwa [hp, ← List.append_assoc]
  | access =>
    obtain ⟨k, hp⟩ : ∃ k, p = s.acceptance ++ waited s.transfer k := by simpa [Open, hs] using h
    rw [hp]
    exact s.rest_of_acceptance k
  | wrResp =>
    obtain ⟨hw, ha⟩ : s.bridge.txnIsWrite = true ∧ s.Answered p := by simpa [Open, hs] using h
    exact ⟨_, List.cons_ne_nil _ _, complete_write hw ha⟩
  | rdResp =>
    obtain ⟨hr, ha⟩ : s.bridge.txnIsWrite = false ∧ s.Answered p := by simpa [Open, hs] using h
    exact ⟨_, List.cons_ne_nil _ _, complete_read hr ha⟩

/-! ## Runs -/

section Run

variable (ins : ℕ → BridgeIn)

def stateAt (n : ℕ) : TaggedBridge := trace step reset ins n

def eventLog (n : ℕ) : List BridgeEvent := log events step reset ins n

/-- both sides go on in the end: the data of an accepted write comes, the peripheral gets ready, a response is taken -/
structure GoesOn : Prop where
  w : ∀ n, (stateAt ins n).bridge.state = .wrWait → ∃ m ≥ n, (ins m).req.wvalid = true
  pready : ∀ n, (stateAt ins n).bridge.lines.penable = true → ∃ m ≥ n, (ins m).apb.pready = true
  r : ∀ n, ((stateAt ins n).response (ins n)).rvalid = true → ∃ m ≥ n, (ins m).req.rready = true
  b : ∀ n, ((stateAt ins n).response (ins n)).bvalid = true → ∃ m ≥ n, (ins m).req.bready = true

variable {ins}

abbrev LaterIdle (ins : ℕ → BridgeIn) (n : ℕ) : Prop := Later step reset ins (fun s => s.bridge.state = .idle) n

theorem later_of_wrResp (hg : GoesOn ins) {n : ℕ} (h : (stateAt ins n).bridge.state = .wrResp) : LaterIdle ins n := by
  apply later_of_wait (P := fun s => s.bridge.state = .wrResp) (F := fun _ i => i.req.bready = true) h
  · intro t i ht hf
    simp [step, ApbBridge.step, ApbBridge.stateNext, ht, hf]
  · exact hg.b n (by simp [response, ApbBridge.response, h])
  · intro t i ht hf
    simp [step, ApbBridge.step, ApbBridge.stateNext, ht, hf]

theorem later_of_rdResp (hg : GoesOn ins) {n : ℕ} (h : (stateAt ins n).bridge.state = .rdResp) : LaterIdle ins n := by
  apply later_of_wait (P := fun s => s.bridge.state = .rdResp) (F := fun _ i => i.req.rready = true) h
  · intro t i ht hf
    simp [step, ApbBridge.step, ApbBridge.stateNext, ht, hf]
  · exact hg.r n (by simp [response, ApbBridge.response, h])
  · intro t i ht hf
    simp [step, ApbBridge.step, ApbBridge.stateNext, ht, hf]

theorem later_of_access (hg : GoesOn ins) {n : ℕ} (h : (stateAt ins n).bridge.state = .access) : LaterIdle ins n := by
  have hresp : Later step reset ins (fun s => s.bridge.state = .wrResp ∨ s.bridge.state = .rdResp) n := by
    apply later_of_wait (P := fun s => s.bridge.state = .access) (F := fun _ i => i.apb.pready = true) h
    · intro t i ht hf
      simp [step, ApbBridge.step, ApbBridge.stateNext, ht, hf]
    · exact hg.pready n (by simp [ApbBridge.lines, h])
    · intro t i ht hf
      cases hw : t.bridge.txnIsWrite <;> simp [step, ApbBridge.step, ApbBridge.stateNext, ht, hf, hw]
  apply hresp.trans
  intro m _ hm
  rcases hm with hm | hm
  · exact later_of_wrResp hg hm
  · exact later_of_rdResp hg hm

theorem later_of_setup (hg : GoesOn ins) {n : ℕ} (h : (stateAt ins n).bridge.state = .setup) : LaterIdle ins n := by
  have haccess : (stateAt ins (n + 1)).bridge.state = .access := by
    change ((stateAt ins n).step (ins n)).bridge.state = .access
    simp [step, ApbBridge.step, ApbBridge.stateNext, h]
  obtain ⟨m, hm, hidle⟩ := later_of_access hg haccess
  exact ⟨m, by omega, hidle⟩

theorem later_of_wrWait (hg : GoesOn ins) {n : ℕ} (h : (stateAt ins n).bridge.state = .wrWait) : LaterIdle ins n := by
  have hsetup : Later step reset ins (fun s => s.bridge.state = .setup) n := by
    apply later_of_wait (P := fun s => s.bridge.state = .wrWait) (F := fun _ i => i.req.wvalid = true) h
    · intro t i ht hf
      simp [step, ApbBridge.step, ApbBridge.stateNext, ht, hf]
    · exact hg.w n h
    · intro t i ht hf
      simp [step, ApbBridge.step, ApbBridge.stateNext, ht, hf]
  exact hsetup.trans fun m _ hm => later_of_setup hg hm

theorem later_idle (hg : GoesOn ins) (n : ℕ) : LaterIdle ins n := by
  cases hs : (stateAt ins n).bridge.state with
  | idle => exact ⟨n, le_refl n, hs⟩
  | wrWait => exact later_of_wrWait hg hs
  | setup => exact later_of_setup hg hs
  | access => exact later_of_access hg hs
  | wrResp => exact later_of_wrResp hg hs
  | rdResp => exact later_of_rdResp hg hs

/-- **The bridge refines AXI transactions by APB transfers.** Under any requests and any answers the events are
transactions one after another and the beginning of at most one more; and if both sides go on in the end, every
transaction is completed. -/
theorem bridge_refines (ins : ℕ → BridgeIn) :
    (∀ n, InEpisodes transactions (eventLog ins n)) ∧
    (GoesOn ins → ∀ n, ∃ m ≥ n, (stateAt ins m).bridge.state = .idle) := by
  refine ⟨?_, ?_⟩
  · intro n
    exact log_inEpisodes ins (show Open reset [] from rfl) open_step open_rest n
  · intro hg n
    exact later_idle hg n

/-- a read in every cycle, a peripheral that is always ready, responses taken at once -/
def readsServed : ℕ → BridgeIn := fun _ => ⟨⟨true, 0x10000000, true, false, 0, true, 0, 0, true⟩, 3, 0,
  ⟨0x2A, true, false⟩⟩

theorem bridge_refines_readsServed : ∃ m ≥ 3, (stateAt readsServed m).bridge.state = .idle :=
  (bridge_refines readsServed).2
    ⟨fun n _ => ⟨n, le_refl n, rfl⟩, fun n _ => ⟨n, le_refl n, rfl⟩, fun n _ => ⟨n, le_refl n, rfl⟩,
      fun n _ => ⟨n, le_refl n, rfl⟩⟩ 3

/-- the events of the first read: an id of 3 in, and out with the data -/
example : eventLog readsServed 4 = [.ar 3 0x10000000, .setup ⟨0x10000000, false, 0⟩,
    .access ⟨0x10000000, false, 0⟩ (some (0x2A, false)), .r 3 0x2A 0] := by decide

end Run

end TaggedBridge

end Vsync
