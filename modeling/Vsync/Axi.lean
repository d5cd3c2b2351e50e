/-
Slaves on a bus with valid/ready channels: read address, read data, write address, write data and write response, each
with single beats. Nothing in this file is about a particular slave.

A slave answers the lines of a cycle in the same cycle (`out`), and each access to what it holds is an event of the
cycle in which it is made. The lines of a transaction stay as they are until the channel it waits for has answered, so a
phase of a transaction is a run of the slave under a constant request.

- `Lines.ar`, `Lines.r`, `Lines.aw`, `Lines.w`, `Lines.b`: the requests of the five phases.
- `Slave.Until`: what a slave does under a constant request until it answers.
- `ServesReads`, `ServesWrites`: transactions that complete, with one access; `DropsReads`, `DropsWrites`: that do not.
-/
import Vsync.Machine

namespace Vsync.Axi

structure Request (A D B : Type) where
  arvalid : Bool
  araddr : A
  rready : Bool
  awvalid : Bool
  awaddr : A
  wvalid : Bool
  wdata : D
  wstrb : B
  bready : Bool

structure Response (D : Type) where
  arready : Bool
  rvalid : Bool
  rdata : D
  rresp : BitVec 2
  awready : Bool
  wready : Bool
  bvalid : Bool
  bresp : BitVec 2

/-- an access to what a slave holds; a slave that ignores the strobes writes with none -/
inductive Access (A D B : Type) where
  | read (addr : A) (data : D)
  | write (addr : A) (data : D) (strb : Option B)
  deriving DecidableEq

structure Slave (A D B : Type) where
  State : Type
  /-- what comes in from behind the slave -/
  Env : Type
  reset : State
  out : State → Request A D B → Response D
  step : State → Request A D B → Env → State
  access : State → Request A D B → Env → List (Access A D B)
  /-- the data at an address -/
  holds : State → Env → A → D
  /-- the slave honours the strobes -/
  strobed : Bool

/-- the same handshake lines, and the same payload on every channel that is valid -/
structure Request.Agrees {A D B : Type} (q q' : Request A D B) : Prop where
  arvalid : q.arvalid = q'.arvalid
  rready : q.rready = q'.rready
  awvalid : q.awvalid = q'.awvalid
  wvalid : q.wvalid = q'.wvalid
  bready : q.bready = q'.bready
  araddr : q.arvalid = true → q.araddr = q'.araddr
  awaddr : q.awvalid = true → q.awaddr = q'.awaddr
  wdata : q.wvalid = true → q.wdata = q'.wdata ∧ q.wstrb = q'.wstrb

/-- the lines that a master holds during a transaction -/
structure Lines (A D B : Type) where
  addr : A
  data : D
  strb : B

namespace Lines

variable {A D B : Type} (l : Lines A D B)

def quiet : Request A D B where
  arvalid := false
  araddr := l.addr
  rready := false
  awvalid := false
  awaddr := l.addr
  wvalid := false
  wdata := l.data
  wstrb := l.strb
  bready := false

def ar : Request A D B := { l.quiet with arvalid := true }

def r : Request A D B := { l.quiet with rready := true }

def aw : Request A D B := { l.quiet with awvalid := true }

def w : Request A D B := { l.quiet with wvalid := true }

def b : Request A D B := { l.quiet with bready := true }

@[simp] theorem rready_quiet : l.quiet.rready = false := rfl

@[simp] theorem rready_ar : l.ar.rready = false := rfl

@[simp] theorem rready_r : l.r.rready = true := rfl

@[simp] theorem rready_aw : l.aw.rready = false := rfl

@[simp] theorem rready_w : l.w.rready = false := rfl

@[simp] theorem rready_b : l.b.rready = false := rfl

end Lines

namespace Slave

variable {A D B : Type} (sl : Slave A D B)

def under (req : Request A D B) (s : sl.State) (e : sl.Env) : sl.State := sl.step s req e

def accessUnder (req : Request A D B) (s : sl.State) (e : sl.Env) : List (Access A D B) := sl.access s req e

/-- under the request the answer `p` comes; the accesses before it and the state that gives it meet `Q` -/
def Until (req : Request A D B) (p : Response D → Bool) (Q : List (Access A D B) → sl.State → Prop) (s : sl.State) :
    Prop :=
  Machine.Reaches (sl.accessUnder req) (sl.under req) (fun s => p (sl.out s req)) Q s

/-- under the request the answer `p` never comes -/
def Never (req : Request A D B) (p : Response D → Bool) (s : sl.State) : Prop :=
  Machine.Avoids (sl.under req) (fun s => p (sl.out s req)) s

def writeOf (l : Lines A D B) : Access A D B := .write l.addr l.data (if sl.strobed then some l.strb else none)

/-- what is read is what the slave holds -/
def ReadsHeld : Prop := ∀ s req e addr data, Access.read addr data ∈ sl.access s req e → data = sl.holds s e addr

/-- the slave looks at the payload of a channel only while the channel is valid -/
structure PayloadValid : Prop where
  out : ∀ s (q q' : Request A D B), q.Agrees q' → sl.out s q = sl.out s q'
  step : ∀ s (q q' : Request A D B) e, q.Agrees q' → sl.step s q e = sl.step s q' e

section Contract

variable (Rest : sl.State → Prop)

/-- between transactions the slave rests, and accesses nothing -/
structure Rests : Prop where
  reset : Rest sl.reset
  stays : ∀ s (l : Lines A D B) e, Rest s → Rest (sl.step s l.quiet e)
  silent : ∀ s (l : Lines A D B) e, Rest s → sl.access s l.quiet e = []

/-- a read is accepted in its first cycle and answered with what one access has read -/
def ServesReads : Prop :=
  ∀ s (l : Lines A D B) e, Rest s → (sl.out s l.ar).arready = true ∧ sl.access s l.ar e = [] ∧
    sl.Until l.r (·.rvalid) (fun acc s' => acc = [.read l.addr (sl.out s' l.r).rdata] ∧
      ∀ e', sl.access s' l.r e' = [] ∧ Rest (sl.step s' l.r e')) (sl.step s l.ar e)

/-- a read is not accepted in its first cycle -/
def DropsReads : Prop := ∀ s (l : Lines A D B), Rest s → (sl.out s l.ar).arready = false

/-- the address is accepted, then the data, then the response comes; in all, one access is made -/
def ServesWrites (mine : A → Prop) : Prop :=
  ∀ s (l : Lines A D B), mine l.addr → Rest s →
    sl.Until l.aw (·.awready) (fun acc₁ s₁ => ∀ e₁, acc₁ = [] ∧ sl.access s₁ l.aw e₁ = [] ∧
      sl.Until l.w (·.wready) (fun acc₂ s₂ => ∀ e₂,
        sl.Until l.b (·.bvalid) (fun acc₃ s₃ => ∀ e₃,
          acc₂ ++ sl.access s₂ l.w e₂ ++ acc₃ = [sl.writeOf l] ∧ sl.access s₃ l.b e₃ = [] ∧ Rest (sl.step s₃ l.b e₃))
        (sl.step s₂ l.w e₂))
      (sl.step s₁ l.aw e₁)) s

def DropsWrites : Prop :=
  ∀ s (l : Lines A D B), Rest s →
    sl.Until l.aw (·.awready) (fun _ s₁ => ∀ e₁, sl.Never l.w (·.wready) (sl.step s₁ l.aw e₁)) s

end Contract

end Slave

end Vsync.Axi
