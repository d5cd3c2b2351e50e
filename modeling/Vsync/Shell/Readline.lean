/-
`shell_readline`: a line with editing, byte by byte from the UART.

- `Line`: the buffer and the index, with the indexes stored to and the bytes echoed so far.
- `edit`: what a key does to the line that the user sees; `Line.Shows`: the buffer holds this line.
- `shows_step`: a key does to the buffer what it does to the line.
- `shellReadline_run`: what has happened after any bytes; `shellReadline_returned`: **what a returned length means.**
-/
import Vsync.CString

namespace Vsync.Shell

/-- `pos` and `buf`, where the stores went, and what was sent to the UART -/
structure Line where
  buf : CMem
  pos : ℤ
  stores : List ℤ
  echo : List (BitVec 8)

namespace Line

variable (l : Line)

def store (k : ℤ) (b : BitVec 8) : Line := { l with buf := Function.update l.buf k b, stores := l.stores ++ [k] }

def puts (s : List (BitVec 8)) : Line := { l with echo := l.echo ++ s }

/-- `shell_memset(buf, 0, n)` -/
def memset : ℕ → Line
  | 0 => l
  | n + 1 => (memset n).store n 0

end Line

def newline : List (BitVec 8) := [0x0D, 0x0A]

def ctrlC : List (BitVec 8) := [0x5E, 0x43]

def rubout : List (BitVec 8) := [0x08, 0x20, 0x08]

/-- the function is still in its loop, or has returned -/
inductive Reading where
  | reading (l : Line)
  | returned (n : ℤ) (l : Line)

namespace Reading

def line : Reading → Line
  | reading l => l
  | returned _ l => l

/-- one byte from `shell_getchar_blocking`; after the return none is read -/
def step (size : ℤ) : Reading → BitVec 8 → Reading
  | returned n l, _ => returned n l
  | reading l, c =>
    if c = 0x0D ∨ c = 0x0A then
      returned l.pos ((l.puts newline).store l.pos 0)
    else if c = 0x03 then
      returned (-1) (((l.puts ctrlC).puts newline).store 0 0)
    else if c = 0x08 ∨ c = 0x7F then
      if 0 < l.pos then reading (({ l with pos := l.pos - 1 }.store (l.pos - 1) 0).puts rubout) else reading l
    else if c < 0x20 ∨ 0x7E < c then reading l
    else if l.pos < size - 1 then reading ({ l.store l.pos c with pos := l.pos + 1 }.puts [c])
    else reading l

end Reading

/-- `shell_readline(buf, size)` after the bytes of `input` -/
def shellReadline (buf : CMem) (size : ℤ) (input : List (BitVec 8)) : Reading :=
  input.foldl (Reading.step size) (.reading (Line.memset ⟨buf, 0, [], []⟩ size.toNat))

/-! ## The line that the user edits -/

def EndsLine (c : BitVec 8) : Prop := c = 0x0D ∨ c = 0x0A

def Erases (c : BitVec 8) : Prop := c = 0x08 ∨ c = 0x7F

def Printable (c : BitVec 8) : Prop := 0x20#8 ≤ c ∧ c ≤ 0x7E#8

instance : DecidablePred EndsLine := fun _ => inferInstanceAs (Decidable (_ ∨ _))
instance : DecidablePred Erases := fun _ => inferInstanceAs (Decidable (_ ∨ _))
instance : DecidablePred Printable := fun _ => inferInstanceAs (Decidable (_ ∧ _))

/-- one key: the last character goes, or a printable one is added while there is room for it and the NUL -/
def edit (size : ℤ) (line : List (BitVec 8)) (c : BitVec 8) : List (BitVec 8) :=
  if Erases c then line.dropLast
  else if Printable c ∧ (line.length : ℤ) + 1 < size then line ++ [c]
  else line

/-- the keys in order -/
def editLine (size : ℤ) (keys : List (BitVec 8)) : List (BitVec 8) := keys.foldl (edit size) []

/-! ## The buffer -/

/-- all stores so far are inside the buffer -/
def Line.InBounds (size : ℤ) (l : Line) : Prop := ∀ k ∈ l.stores, 0 ≤ k ∧ k < size

/-- the buffer holds the line, with NULs behind it -/
structure Line.Shows (size : ℤ) (l : Line) (line : List (BitVec 8)) : Prop where
  bounds : l.InBounds size
  pos : l.pos = line.length
  room : (line.length : ℤ) < size
  string : StringAt l.buf 0 line
  rest : ∀ k, (line.length : ℤ) ≤ k → k < size → l.buf k = 0

section Step

variable {size : ℤ} {l : Line} {line : List (BitVec 8)} {c : BitVec 8}

theorem Line.InBounds.store (h : l.InBounds size) {k : ℤ} (b : BitVec 8) (h0 : 0 ≤ k) (hk : k < size) :
    (l.store k b).InBounds size := by
  intro j hj
  rcases List.mem_append.1 hj with hj | hj
  · exact h j hj
  · rw [List.mem_singleton.1 hj]
    exact ⟨h0, hk⟩

theorem memset_bounds (h : l.InBounds size) {n : ℕ} (hn : n ≤ size) : (l.memset n).InBounds size := by
  induction n with
  | zero => exact h
  | succ n ih =>
    rw [Nat.cast_succ] at hn
    exact (ih (by omega)).store 0 (by omega) (by omega)

theorem memset_buf (n : ℕ) {k : ℤ} (h0 : 0 ≤ k) (hk : k < n) : (l.memset n).buf k = 0 := by
  induction n with
  | zero => omega
  | succ n ih =>
    change Function.update (l.memset n).buf n 0 k = 0
    rw [Nat.cast_succ] at hk
    by_cases heq : k = n
    · rw [heq, Function.update_self]
    · rw [Function.update_of_ne heq]
      exact ih (by omega)

theorem memset_pos (n : ℕ) : (l.memset n).pos = l.pos := by
  induction n with
  | zero => rfl
  | succ n ih => exact ih

theorem shows_start (buf : CMem) (hsize : 1 ≤ size) : (Line.memset ⟨buf, 0, [], []⟩ size.toNat).Shows size [] := by
  have hbuf (k : ℤ) (h0 : 0 ≤ k) (hk : k < size) : (Line.memset ⟨buf, 0, [], []⟩ size.toNat).buf k = 0 :=
    memset_buf _ h0 (by omega)
  exact ⟨memset_bounds (by simp [Line.InBounds]) (by omega), memset_pos _, hsize, hbuf 0 (le_refl 0) hsize, hbuf⟩

theorem Line.Shows.erase (h : l.Shows size line) (hne : line ≠ []) :
    (({ l with pos := l.pos - 1 }.store (l.pos - 1) 0).puts rubout).Shows size line.dropLast := by
  have hsplit := List.dropLast_append_getLast hne
  have hlen : (line.length : ℤ) = line.dropLast.length + 1 := by
    have := List.length_pos_iff.2 hne
    rw [List.length_dropLast]
    omega
  have hpos : l.pos - 1 = line.dropLast.length := by
    rw [h.pos, hlen]
    ring
  have hroom := h.room
  have hstring := h.string
  rw [← hsplit] at hstring
  have hcut := hstring.cut
  rw [zero_add] at hcut
  refine ⟨h.bounds.store 0 (by omega) (by omega), hpos, by omega, ?_, ?_⟩
  · change StringAt (Function.update l.buf (l.pos - 1) 0) 0 line.dropLast
    rwa [hpos]
  · intro k h1 h2
    change Function.update l.buf (l.pos - 1) 0 k = 0
    by_cases heq : k = l.pos - 1
    · rw [heq, Function.update_self]
    · rw [Function.update_of_ne heq]
      exact h.rest k (by omega) h2

theorem Line.Shows.type (h : l.Shows size line) (hc : Printable c) (hroom : l.pos < size - 1) :
    ({ l.store l.pos c with pos := l.pos + 1 }.puts [c]).Shows size (line ++ [c]) := by
  have hpos := h.pos
  have hlen : ((line ++ [c]).length : ℤ) = line.length + 1 := by simp
  have hne : c ≠ 0 := by
    rintro rfl
    exact absurd hc.1 (by decide)
  have hsnoc : StringAt (Function.update l.buf (0 + line.length) c) 0 (line ++ [c]) :=
    h.string.snoc hne (h.rest _ (by omega) (by omega))
  rw [zero_add, ← hpos] at hsnoc
  refine ⟨h.bounds.store c (by omega) (by omega), ?_, by omega, hsnoc, ?_⟩
  · change l.pos + 1 = ((line ++ [c]).length : ℤ)
    omega
  · intro k h1 h2
    change Function.update l.buf l.pos c k = 0
    rw [Function.update_of_ne (by omega)]
    exact h.rest k (by omega) h2

/-- **One key** that does not end the line. -/
theorem Line.Shows.step (h : l.Shows size line) (hend : ¬ EndsLine c) (hcancel : c ≠ 0x03) :
    ∃ l', Reading.step size (.reading l) c = .reading l' ∧ l'.Shows size (edit size line c) := by
  have hpos := h.pos
  have hnoEnd : ¬ (c = 0x0D ∨ c = 0x0A) := hend
  have hstep : Reading.step size (.reading l) c =
      if Erases c then
        if 0 < l.pos then .reading (({ l with pos := l.pos - 1 }.store (l.pos - 1) 0).puts rubout) else .reading l
      else if c < 0x20 ∨ 0x7E < c then .reading l
      else if l.pos < size - 1 then .reading ({ l.store l.pos c with pos := l.pos + 1 }.puts [c])
      else .reading l := by
    rw [Reading.step, if_neg hnoEnd, if_neg hcancel]
    rfl
  rw [hstep]
  by_cases herase : Erases c
  · rw [if_pos herase, edit, if_pos herase]
    by_cases hempty : line = []
    · have hzero : ¬ 0 < l.pos := by
        rw [hpos, hempty]
        simp
      rw [if_neg hzero, hempty, List.dropLast_nil, ← hempty]
      exact ⟨l, rfl, h⟩
    · have hlen := List.length_pos_iff.2 hempty
      rw [if_pos (by omega)]
      exact ⟨_, rfl, h.erase hempty⟩
  rw [if_neg herase, edit, if_neg herase]
  by_cases hprint : Printable c
  · have hnot : ¬ (c < 0x20 ∨ 0x7E < c) := by
      rintro (hlt | hlt)
      · exact absurd hprint.1 (BitVec.not_le.2 hlt)
      · exact absurd hprint.2 (BitVec.not_le.2 hlt)
    rw [if_neg hnot]
    by_cases hroom : l.pos < size - 1
    · rw [if_pos hroom, if_pos ⟨hprint, by omega⟩]
      exact ⟨_, rfl, h.type hprint hroom⟩
    · rw [if_neg hroom, if_neg fun hand => hroom (by omega)]
      exact ⟨l, rfl, h⟩
  · have hout : c < 0x20 ∨ 0x7E < c := by
      by_contra hnot
      rw [not_or, BitVec.not_lt, BitVec.not_lt] at hnot
      exact hprint hnot
    rw [if_pos hout, if_neg fun hand => hprint hand.1]
    exact ⟨l, rfl, h⟩

end Step

section Run

variable {size : ℤ} (buf : CMem)

/-- a byte that makes the function return -/
def Returns (c : BitVec 8) : Prop := EndsLine c ∨ c = 0x03

instance : DecidablePred Returns := fun _ => inferInstanceAs (Decidable (_ ∨ _))

theorem shellReadline_run (hsize : 1 ≤ size) {keys : List (BitVec 8)} (hkeys : ∀ c ∈ keys, ¬ Returns c) :
    ∃ l, shellReadline buf size keys = .reading l ∧ l.Shows size (editLine size keys) := by
  induction keys using List.reverseRecOn with
  | nil => exact ⟨_, rfl, shows_start buf hsize⟩
  | append_singleton keys c ih =>
    obtain ⟨l, hl, hshows⟩ := ih fun b hb => hkeys b (List.mem_append_left _ hb)
    have hc : ¬ Returns c := hkeys c (List.mem_append_right _ (List.mem_singleton_self c))
    rw [Returns, not_or] at hc
    obtain ⟨l', hl', hshows'⟩ := hshows.step hc.1 hc.2
    refine ⟨l', ?_, ?_⟩
    · rw [shellReadline, List.foldl_append, ← shellReadline, hl]
      exact hl'
    · rwa [editLine, List.foldl_append, ← editLine]

/-- bytes behind the return are not read -/
theorem foldl_returned (n : ℤ) (l : Line) (input : List (BitVec 8)) :
    input.foldl (Reading.step size) (.returned n l) = .returned n l := by
  induction input with
  | nil => rfl
  | cons c input ih => exact ih

/-- the keys up to the first byte that makes the function return, if there is one -/
theorem split_returns (input : List (BitVec 8)) : (∀ c ∈ input, ¬ Returns c) ∨
    ∃ keys c rest, input = keys ++ c :: rest ∧ (∀ b ∈ keys, ¬ Returns b) ∧ Returns c := by
  induction input with
  | nil => simp
  | cons a input ih =>
    by_cases ha : Returns a
    · exact .inr ⟨[], a, input, rfl, by simp, ha⟩
    · rcases ih with hall | ⟨keys, c, rest, rfl, hkeys, hc⟩
      · exact .inl (List.forall_mem_cons.2 ⟨ha, hall⟩)
      · exact .inr ⟨a :: keys, c, rest, rfl, List.forall_mem_cons.2 ⟨ha, hkeys⟩, hc⟩

theorem shellReadline_end (hsize : 1 ≤ size) {keys : List (BitVec 8)} (hkeys : ∀ c ∈ keys, ¬ Returns c) {c : BitVec 8}
    (hc : EndsLine c) (rest : List (BitVec 8)) :
    ∃ l, shellReadline buf size (keys ++ c :: rest) = .returned (editLine size keys).length l ∧
      l.InBounds size ∧ ((editLine size keys).length : ℤ) < size ∧ StringAt l.buf 0 (editLine size keys) := by
  obtain ⟨l, hl, hshows⟩ := shellReadline_run buf hsize hkeys
  have hroom := hshows.room
  have hpos := hshows.pos
  refine ⟨(l.puts newline).store l.pos 0, ?_, ?_, hroom, ?_⟩
  · have hstep : Reading.step size (.reading l) c = .returned l.pos ((l.puts newline).store l.pos 0) := if_pos hc
    rw [shellReadline, List.foldl_append, ← shellReadline, hl, List.foldl_cons, hstep, foldl_returned, hpos]
  · exact Line.InBounds.store (l := l.puts newline) hshows.bounds 0 (by omega) (by omega)
  · -- the NUL is there already
    refine hshows.string.congr fun k h1 h2 => ?_
    change Function.update l.buf l.pos 0 k = l.buf k
    by_cases heq : k = l.pos
    · rw [heq, Function.update_self, hshows.rest l.pos (by omega) (by omega)]
    · rw [Function.update_of_ne heq]

theorem shellReadline_cancel (hsize : 1 ≤ size) {keys : List (BitVec 8)} (hkeys : ∀ c ∈ keys, ¬ Returns c)
    (rest : List (BitVec 8)) :
    ∃ l, shellReadline buf size (keys ++ 0x03 :: rest) = .returned (-1) l ∧ l.InBounds size := by
  obtain ⟨l, hl, hshows⟩ := shellReadline_run buf hsize hkeys
  refine ⟨((l.puts ctrlC).puts newline).store 0 0, ?_, ?_⟩
  · have hstep : Reading.step size (.reading l) 0x03 = .returned (-1) (((l.puts ctrlC).puts newline).store 0 0) := by
      rw [Reading.step, if_neg (by decide), if_pos rfl]
    rw [shellReadline, List.foldl_append, ← shellReadline, hl, List.foldl_cons, hstep, foldl_returned]
  · exact Line.InBounds.store (l := (l.puts ctrlC).puts newline) hshows.bounds 0 (le_refl 0) hsize

/-- **All stores are inside the buffer**, whatever comes in. -/
theorem shellReadline_bounds (hsize : 1 ≤ size) (input : List (BitVec 8)) :
    (shellReadline buf size input).line.InBounds size := by
  rcases split_returns input with hall | ⟨keys, c, rest, rfl, hkeys, hc⟩
  · obtain ⟨l, hl, hshows⟩ := shellReadline_run buf hsize hall
    rw [hl]
    exact hshows.bounds
  · rcases hc with hend | rfl
    · obtain ⟨l, hl, hbounds, -⟩ := shellReadline_end buf hsize hkeys hend rest
      rw [hl]
      exact hbounds
    · obtain ⟨l, hl, hbounds⟩ := shellReadline_cancel buf hsize hkeys rest
      rw [hl]
      exact hbounds

/-- **A returned length** is that of the line that the keys before the first CR or LF make, and the buffer holds it. -/
theorem shellReadline_returned (hsize : 1 ≤ size) {input : List (BitVec 8)} {n : ℤ} {l : Line} (hn : 0 ≤ n)
    (h : shellReadline buf size input = .returned n l) :
    ∃ keys c rest, input = keys ++ c :: rest ∧ (∀ b ∈ keys, ¬ Returns b) ∧ EndsLine c ∧
      n = (editLine size keys).length ∧ n < size ∧ StringAt l.buf 0 (editLine size keys) := by
  rcases split_returns input with hall | ⟨keys, c, rest, rfl, hkeys, hc⟩
  · obtain ⟨l', hl', -⟩ := shellReadline_run buf hsize hall
    rw [hl'] at h
    exact Reading.noConfusion h
  · rcases hc with hend | rfl
    · obtain ⟨l', hl', -, hroom, hstring⟩ := shellReadline_end buf hsize hkeys hend rest
      rw [hl'] at h
      obtain ⟨rfl, rfl⟩ := Reading.returned.inj h
      exact ⟨keys, c, rest, rfl, hkeys, hend, rfl, hroom, hstring⟩
    · obtain ⟨l', hl', -⟩ := shellReadline_cancel buf hsize hkeys rest
      rw [hl'] at h
      obtain ⟨rfl, rfl⟩ := Reading.returned.inj h
      omega

end Run

end Vsync.Shell
