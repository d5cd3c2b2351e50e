/-
A FIFO in a memory with a write pointer, a read pointer and a count, one bit wider than the addresses of the memory.
Nothing in this file is about a particular design.

- `step`: one clock edge with a push and a pop; a push into a full ring and a pop of an empty one do nothing.
- `WellFormed`: the write pointer is the count ahead of the read pointer.
- `step_contents`: **no entry is lost or duplicated in a cycle**; `run_contents`: in a run.
- `Queue.step`: a queue of bounded length as a list; `step_queue`: **a ring is one**.
- `Queue.run_law`: first in, first out, for a queue in any run.
-/
import Mathlib.Data.BitVec
import Vsync.Machine

namespace Vsync

/-- `2 ^ w` places -/
structure Ring (α : Type*) (w : ℕ) where
  mem : BitVec w → α
  wr : BitVec (w + 1)
  rd : BitVec (w + 1)
  count : BitVec (w + 1)

namespace Ring

variable {α : Type*} {w : ℕ}

/-- the place of a pointer -/
def place (p : BitVec (w + 1)) : BitVec w := p.setWidth w

section Step

variable (r : Ring α w)

def full : Bool := r.count == BitVec.ofNat (w + 1) (2 ^ w)

def empty : Bool := r.count == 0

def head : α := r.mem (place r.rd)

def pushes (push : Option α) : Bool := push.isSome && !r.full

def pops (pop : Bool) : Bool := pop && !r.empty

def step (push : Option α) (pop : Bool) : Ring α w where
  mem :=
    match push with
    | some a => if r.full then r.mem else Function.update r.mem (place r.wr) a
    | none => r.mem
  wr := if r.pushes push then r.wr + 1 else r.wr
  rd := if r.pops pop then r.rd + 1 else r.rd
  count :=
    if r.pushes push && !r.pops pop then r.count + 1
    else if !r.pushes push && r.pops pop then r.count - 1
    else r.count

def contents : List α := (List.range r.count.toNat).map fun k => r.mem (place (r.rd + BitVec.ofNat (w + 1) k))

/-- what a push puts in -/
def accepted (push : Option α) : List α := if r.full then [] else push.toList

/-- what a pop takes out -/
def popped (pop : Bool) : List α := if r.pops pop then [r.head] else []

structure WellFormed : Prop where
  count_le : r.count.toNat ≤ 2 ^ w
  wr_eq : r.wr = r.rd + r.count

end Step

section Cycle

variable {r : Ring α w}

theorem full_iff : r.full = true ↔ r.count.toNat = 2 ^ w := by
  have hlt : 2 ^ w < 2 ^ (w + 1) := Nat.pow_lt_pow_right (by decide) (Nat.lt_succ_self w)
  rw [full, beq_iff_eq, ← BitVec.toNat_inj, BitVec.toNat_ofNat, Nat.mod_eq_of_lt hlt]

theorem empty_iff : r.empty = true ↔ r.count.toNat = 0 := by
  rw [empty, beq_iff_eq, ← BitVec.toNat_inj]
  rfl

theorem length_contents : r.contents.length = r.count.toNat := by simp [contents]

theorem place_ne (p : BitVec (w + 1)) {j k : ℕ} (hjk : j < k) (hk : k ≤ j + 2 ^ w - 1) :
    place (p + BitVec.ofNat (w + 1) j) ≠ place (p + BitVec.ofNat (w + 1) k) := by
  intro heq
  have hpow : (2 : ℕ) ^ (w + 1) = 2 ^ w * 2 := pow_succ 2 w
  have hpos : 0 < 2 ^ w := Nat.two_pow_pos w
  have hmod : (p.toNat + j) % 2 ^ w = (p.toNat + k) % 2 ^ w := by
    have h := congrArg BitVec.toNat heq
    simpa [place, BitVec.toNat_add, hpow, Nat.mod_mul_right_mod, Nat.add_mod] using h
  have hdvd : 2 ^ w ∣ (p.toNat + k) - (p.toNat + j) := (Nat.modEq_iff_dvd' (by omega)).1 hmod
  have hle := Nat.le_of_dvd (by omega) hdvd
  omega

/-- the oldest entry is the head -/
theorem contents_pop (hne : r.empty = false) :
    r.contents = r.head :: (⟨r.mem, r.wr, r.rd + 1, r.count - 1⟩ : Ring α w).contents := by
  have hpos : 0 < r.count.toNat := by
    rw [Nat.pos_iff_ne_zero]
    intro h0
    rw [empty_iff.2 h0] at hne
    exact Bool.noConfusion hne
  obtain ⟨n, hn⟩ : ∃ n, r.count.toNat = n + 1 := Nat.exists_eq_succ_of_ne_zero hpos.ne'
  have hsub : (r.count - 1).toNat = n := by
    have hone : (1 : BitVec (w + 1)).toNat = 1 := by simp
    rw [BitVec.toNat_sub_of_le (by rw [BitVec.le_def, hone]; omega), hone, hn, Nat.add_sub_cancel]
  rw [contents, hn, List.range_succ_eq_map, List.map_cons, contents, hsub, List.map_map]
  refine congrArg₂ List.cons (by simp [head]) (List.map_congr_left ?_)
  intro k _
  change r.mem (place (r.rd + BitVec.ofNat (w + 1) (k + 1))) = r.mem (place (r.rd + 1 + BitVec.ofNat (w + 1) k))
  rw [BitVec.add_assoc, Nat.add_comm k 1, BitVec.ofNat_add]
  rfl

theorem contents_push (h : r.WellFormed) (hfull : r.full = false) (a : α) :
    (⟨Function.update r.mem (place r.wr) a, r.wr + 1, r.rd, r.count + 1⟩ : Ring α w).contents = r.contents ++ [a] := by
  have hlt : r.count.toNat < 2 ^ w := by
    apply lt_of_le_of_ne h.count_le
    intro heq
    rw [full_iff.2 heq] at hfull
    exact Bool.noConfusion hfull
  have hadd : (r.count + 1).toNat = r.count.toNat + 1 := by
    have hpow : (2 : ℕ) ^ (w + 1) = 2 ^ w * 2 := pow_succ 2 w
    have hone : (1 : BitVec (w + 1)).toNat = 1 := by simp
    rw [BitVec.toNat_add_of_lt (by rw [hone]; omega), hone]
  have hwr : r.wr = r.rd + BitVec.ofNat (w + 1) r.count.toNat := by rw [h.wr_eq, BitVec.ofNat_toNat, BitVec.setWidth_eq]
  rw [contents, hadd, List.range_succ, List.map_append, contents]
  refine congrArg₂ (· ++ ·) (List.map_congr_left ?_) ?_
  · intro k hk
    have hk' : k < r.count.toNat := List.mem_range.1 hk
    apply Function.update_of_ne
    rw [hwr]
    exact place_ne r.rd hk' (by omega)
  · simp [hwr]

theorem WellFormed.push (h : r.WellFormed) (hfull : r.full = false) (a : α) :
    (⟨Function.update r.mem (place r.wr) a, r.wr + 1, r.rd, r.count + 1⟩ : Ring α w).WellFormed := by
  have hne : r.count.toNat ≠ 2 ^ w := by
    intro heq
    rw [full_iff.2 heq] at hfull
    exact Bool.noConfusion hfull
  have hadd : (r.count + 1).toNat ≤ r.count.toNat + 1 := by
    rw [BitVec.toNat_add]
    exact le_trans (Nat.mod_le _ _) (by simp)
  have hle := h.count_le
  refine ⟨show (r.count + 1).toNat ≤ 2 ^ w by omega, ?_⟩
  change r.wr + 1 = r.rd + (r.count + 1)
  rw [h.wr_eq, BitVec.add_assoc]

theorem WellFormed.pop (h : r.WellFormed) (hne : r.empty = false) :
    (⟨r.mem, r.wr, r.rd + 1, r.count - 1⟩ : Ring α w).WellFormed := by
  have hpos : r.count.toNat ≠ 0 := by
    intro h0
    rw [empty_iff.2 h0] at hne
    exact Bool.noConfusion hne
  have hsub : (r.count - 1).toNat = r.count.toNat - 1 := by
    have hone : (1 : BitVec (w + 1)).toNat = 1 := by simp
    rw [BitVec.toNat_sub_of_le (by rw [BitVec.le_def, hone]; omega), hone]
  have hle := h.count_le
  refine ⟨show (r.count - 1).toNat ≤ 2 ^ w by omega, ?_⟩
  change r.wr = r.rd + 1 + (r.count - 1)
  rw [h.wr_eq, BitVec.add_assoc, BitVec.add_comm 1, BitVec.sub_add_cancel]

/-- the ring with the entry of a push that is taken -/
def pushed (r : Ring α w) (push : Option α) : Ring α w where
  mem :=
    match push with
    | some a => if r.full then r.mem else Function.update r.mem (place r.wr) a
    | none => r.mem
  wr := if r.pushes push then r.wr + 1 else r.wr
  rd := r.rd
  count := if r.pushes push then r.count + 1 else r.count

theorem pushed_of_not (push : Option α) (hp : r.pushes push = false) : r.pushed push = r ∧ r.accepted push = [] := by
  cases push with
  | none => simp [pushed, accepted, pushes]
  | some a =>
    have hfull : r.full = true := by simpa [pushes] using hp
    simp [pushed, accepted, pushes, hfull]

theorem pushed_wellFormed (h : r.WellFormed) (push : Option α) :
    (r.pushed push).WellFormed ∧ (r.pushed push).contents = r.contents ++ r.accepted push := by
  cases hp : r.pushes push with
  | false =>
    obtain ⟨hsame, hnone⟩ := pushed_of_not push hp
    rw [hsame, hnone, List.append_nil]
    exact ⟨h, rfl⟩
  | true =>
    obtain ⟨a, rfl⟩ : ∃ a, push = some a := by
      cases push with
      | none => simp [pushes] at hp
      | some a => exact ⟨a, rfl⟩
    have hfull : r.full = false := by simpa [pushes] using hp
    have hpushed : r.pushed (some a) = ⟨Function.update r.mem (place r.wr) a, r.wr + 1, r.rd, r.count + 1⟩ := by
      simp [pushed, pushes, hfull]
    rw [hpushed, accepted, hfull]
    exact ⟨h.push hfull a, contents_push h hfull a⟩

/-- a pop that is taken leaves the ring without its head -/
theorem step_pop (push : Option α) {pop : Bool} (hq : r.pops pop = true) :
    r.step push pop = ⟨(r.pushed push).mem, (r.pushed push).wr, (r.pushed push).rd + 1, (r.pushed push).count - 1⟩ := by
  cases hp : r.pushes push <;> simp [step, pushed, hp, hq]

theorem step_no_pop (push : Option α) {pop : Bool} (hq : r.pops pop = false) : r.step push pop = r.pushed push := by
  cases hp : r.pushes push <;> simp [step, pushed, hp, hq]

/-- **No entry is lost or duplicated**: what was there and what is accepted is what is taken out and what is there then.
-/
theorem step_contents (h : r.WellFormed) (push : Option α) (pop : Bool) :
    (r.step push pop).WellFormed ∧ r.contents ++ r.accepted push = r.popped pop ++ (r.step push pop).contents := by
  obtain ⟨hwf, hcontents⟩ := pushed_wellFormed h push
  cases hq : r.pops pop with
  | false =>
    rw [step_no_pop push hq, popped, hq]
    exact ⟨hwf, hcontents.symm⟩
  | true =>
    have hempty : r.empty = false := by
      have hand : pop = true ∧ r.empty = false := by simpa [pops] using hq
      exact hand.2
    have hne : (r.pushed push).empty = false := by
      rw [← Bool.not_eq_true, empty_iff, ← length_contents, hcontents, contents_pop hempty]
      simp
    have hpop := contents_pop hne
    -- the head is the same with the new entry behind it
    have hhead : (r.pushed push).head = r.head := by
      have heq := hcontents
      rw [hpop, contents_pop hempty, List.cons_append] at heq
      exact (List.cons.inj heq).1
    rw [step_pop push hq, popped, hq, ← hcontents, hpop, hhead]
    exact ⟨hwf.pop hne, rfl⟩

/-- a ring that is not popped does not get empty -/
theorem not_empty_of_no_pop (h : r.WellFormed) (hne : r.empty = false) (push : Option α) :
    (r.step push false).empty = false := by
  have hcontents := (step_contents h push false).2
  have hpopped : r.popped false = [] := by simp [popped, pops]
  rw [hpopped, List.nil_append, contents_pop hne] at hcontents
  rw [← Bool.not_eq_true, empty_iff, ← length_contents, ← hcontents]
  simp

/-- an empty ring has nothing to pop -/
theorem step_none_of_empty (hempty : r.empty = true) (pop : Bool) : r.step none pop = r := by
  simp [step, pushes, pops, hempty]

end Cycle

section Run

variable {S I : Type*} {next : S → I → S} {s : S} {ring : S → Ring α w} {push : S → I → Option α} {pop : S → I → Bool}

/-- **A ring in a run of a machine**, whatever decides its pushes and pops: first in, first out. -/
theorem run_contents (ins : ℕ → I) (hring : ∀ t i, ring (next t i) = (ring t).step (push t i) (pop t i))
    (h : (ring s).WellFormed) (n : ℕ) :
    (ring (Machine.trace next s ins n)).WellFormed ∧
      (ring s).contents ++ Machine.log (fun t i => (ring t).accepted (push t i)) next s ins n =
        Machine.log (fun t i => (ring t).popped (pop t i)) next s ins n ++
          (ring (Machine.trace next s ins n)).contents := by
  induction n with
  | zero => exact ⟨h, by simp⟩
  | succ n ih =>
    obtain ⟨hwf, hcontents⟩ := ih
    obtain ⟨hwf', hstep⟩ := step_contents hwf (push (Machine.trace next s ins n) (ins n))
      (pop (Machine.trace next s ins n) (ins n))
    rw [Machine.trace_succ, hring]
    refine ⟨hwf', ?_⟩
    rw [Machine.log_succ, Machine.log_succ, ← List.append_assoc, hcontents, List.append_assoc, hstep, List.append_assoc]

end Run

end Ring

/-! ## Bounded queues -/

namespace Queue

variable {α : Type*}

section Step

variable (cap : ℕ) (q : List α)

def accepted (push : Option α) : List α := if q.length < cap then push.toList else []

def popped (pop : Bool) : List α := if pop then q.take 1 else []

/-- a push and a pop at once, both against the queue as it was -/
def step (push : Option α) (pop : Bool) : List α := (if pop then q.tail else q) ++ accepted cap q push

theorem step_law (push : Option α) (pop : Bool) : q ++ accepted cap q push = popped q pop ++ step cap q push pop := by
  cases pop with
  | false => rfl
  | true => cases q <;> rfl

end Step

/-- **First in, first out.** What was accepted in a run is what was popped, in order, and what is still there. -/
theorem run_law {I : Type*} (cap : ℕ) (push : I → Option α) (pop : I → Bool) (ins : ℕ → I) (n : ℕ) :
    Machine.log (fun q i => accepted cap q (push i)) (fun q i => step cap q (push i) (pop i)) [] ins n =
      Machine.log (fun q i => popped q (pop i)) (fun q i => step cap q (push i) (pop i)) [] ins n ++
        Machine.trace (fun q i => step cap q (push i) (pop i)) [] ins n := by
  induction n with
  | zero => rfl
  | succ n ih =>
    rw [Machine.log_succ, Machine.log_succ, Machine.trace_succ, ih, List.append_assoc, List.append_assoc,
      step_law cap _ (push (ins n)) (pop (ins n))]

end Queue

namespace Ring

variable {α : Type*} {w : ℕ} {r : Ring α w}

theorem accepted_eq (h : r.WellFormed) (push : Option α) :
    r.accepted push = Queue.accepted (2 ^ w) r.contents push := by
  rw [accepted, Queue.accepted, length_contents]
  by_cases hfull : r.full = true
  · rw [if_pos hfull, if_neg (by rw [full_iff.1 hfull]; exact lt_irrefl _)]
  · have hne : r.count.toNat ≠ 2 ^ w := fun heq => hfull (full_iff.2 heq)
    rw [if_neg hfull, if_pos (lt_of_le_of_ne h.count_le hne)]

/-- **A ring is a bounded queue.** -/
theorem step_queue (h : r.WellFormed) (push : Option α) (pop : Bool) :
    (r.step push pop).contents = Queue.step (2 ^ w) r.contents push pop := by
  have hcontents := (step_contents h push pop).2
  rw [accepted_eq h push] at hcontents
  rw [Queue.step]
  cases hq : r.pops pop with
  | true =>
    obtain ⟨rfl, hne⟩ : pop = true ∧ r.empty = false := by simpa [pops] using hq
    rw [popped, hq, if_pos rfl, List.singleton_append] at hcontents
    generalize Queue.accepted (2 ^ w) r.contents push = new at *
    rw [contents_pop hne] at hcontents ⊢
    rw [if_pos rfl, List.tail_cons]
    exact (List.cons.inj hcontents).2.symm
  | false =>
    have hsame : (if pop then r.contents.tail else r.contents) = r.contents := by
      cases pop with
      | false => rfl
      | true =>
        have hempty : r.empty = true := by simpa [pops] using hq
        have hnil : r.contents = [] := by rw [← List.length_eq_zero_iff, length_contents, empty_iff.1 hempty]
        rw [hnil]
        rfl
    rw [popped, hq] at hcontents
    rw [hsame, hcontents]
    rfl

theorem head_eq (hne : r.empty = false) : r.contents.head? = some r.head := by
  rw [contents_pop hne]
  rfl

end Ring

end Vsync
