/-
`parse_args` of the shell: the words of a line, in place.

- `Args`: the buffer, `argc` and `argv`, and where the stores went; `parseArgs` with a bound on the steps of its loops.
- `skipSpaces_string`, `tokenEnd_string`: what the inner loops leave of the string.
- `Args.Holds`: `argv` points to the words so far; `parseLoop_turn`: a turn of the loop adds the next word.
- `line_input`: **a line from `shell_readline` and its words.**
-/
import Vsync.Shell.Readline

namespace Vsync.Shell

def MAX_ARGS : ℤ := 4

/-- the globals `argc` and `argv` and the buffer; a pointer into the buffer is an index -/
structure Args where
  buf : CMem
  argc : ℤ
  argv : ℤ → ℤ
  bufStores : List ℤ
  argvStores : List ℤ

namespace Args

variable (a : Args)

/-- `argv[argc++] = p` -/
def addArg (p : ℤ) : Args :=
  { a with argc := a.argc + 1, argv := Function.update a.argv a.argc p, argvStores := a.argvStores ++ [a.argc] }

/-- `*p = '\0'` -/
def endToken (p : ℤ) : Args := { a with buf := Function.update a.buf p 0, bufStores := a.bufStores ++ [p] }

end Args

/-- `while (*p == ' ') p++`, in less than `fuel` steps -/
def skipSpaces (m : CMem) : ℕ → ℤ → Option ℤ
  | 0, _ => none
  | fuel + 1, p => if m p = 0x20#8 then skipSpaces m fuel (p + 1) else some p

/-- `while (*p && *p != ' ') p++` -/
def tokenEnd (m : CMem) : ℕ → ℤ → Option ℤ
  | 0, _ => none
  | fuel + 1, p => if m p ≠ 0 ∧ m p ≠ 0x20#8 then tokenEnd m fuel (p + 1) else some p

/-- the loop of `parse_args` -/
def parseLoop : ℕ → ℤ → Args → Option Args
  | 0, _, _ => none
  | fuel + 1, p, a =>
    if a.buf p ≠ 0 ∧ a.argc ≤ MAX_ARGS then
      match skipSpaces a.buf fuel p with
      | none => none
      | some q =>
        if a.buf q = 0 then some a
        else
          match tokenEnd a.buf fuel q with
          | none => none
          | some e =>
            if a.buf e ≠ 0 then parseLoop fuel (e + 1) ((a.addArg q).endToken e) else parseLoop fuel e (a.addArg q)
    else some a

/-- `parse_args(buf)` -/
def parseArgs (fuel : ℕ) (buf : CMem) (argv : ℤ → ℤ) : Option Args := parseLoop fuel 0 ⟨buf, 0, argv, [], []⟩

/-! ## The inner loops -/

section Inner

variable {m : CMem} {p : ℤ} {g w r : List (BitVec 8)} {fuel : ℕ}

theorem skipSpaces_string (h : StringAt m p (g ++ r)) (hg : ∀ b ∈ g, b = 0x20#8)
    (hr : r = [] ∨ ∃ b r', r = b :: r' ∧ b ≠ 0x20#8) (hfuel : g.length < fuel) :
    skipSpaces m fuel p = some (p + g.length) := by
  induction g generalizing p fuel with
  | nil =>
    obtain ⟨fuel, rfl⟩ := Nat.exists_eq_succ_of_ne_zero (Nat.ne_of_gt hfuel)
    have hstop : m p ≠ 0x20#8 := by
      rcases hr with rfl | ⟨b, r', rfl, hb⟩
      · have hnul : m p = 0 := h
        rw [hnul]
        decide
      · exact h.2.1 ▸ hb
    rw [skipSpaces, if_neg hstop]
    simp
  | cons c g ih =>
    obtain ⟨fuel, rfl⟩ := Nat.exists_eq_succ_of_ne_zero (Nat.ne_of_gt (Nat.zero_lt_of_lt hfuel))
    rw [skipSpaces, h.2.1, if_pos (hg c (List.mem_cons_self ..)),
      ih h.2.2 (fun b hb => hg b (List.mem_cons_of_mem _ hb)) (by simpa using hfuel), List.length_cons, Nat.cast_succ,
      add_assoc, add_comm (1 : ℤ)]

theorem tokenEnd_string (h : StringAt m p (w ++ r)) (hw : 0x20#8 ∉ w) (hr : r = [] ∨ ∃ r', r = 0x20#8 :: r')
    (hfuel : w.length < fuel) : tokenEnd m fuel p = some (p + w.length) := by
  induction w generalizing p fuel with
  | nil =>
    obtain ⟨fuel, rfl⟩ := Nat.exists_eq_succ_of_ne_zero (Nat.ne_of_gt hfuel)
    have hstop : ¬ (m p ≠ 0 ∧ m p ≠ 0x20#8) := by
      rcases hr with rfl | ⟨r', rfl⟩
      · exact fun hand => hand.1 h
      · exact fun hand => hand.2 h.2.1
    rw [tokenEnd, if_neg hstop]
    simp
  | cons c w ih =>
    obtain ⟨fuel, rfl⟩ := Nat.exists_eq_succ_of_ne_zero (Nat.ne_of_gt (Nat.zero_lt_of_lt hfuel))
    rw [List.mem_cons, not_or] at hw
    rw [tokenEnd, h.2.1, if_pos ⟨h.1, Ne.symm hw.1⟩, ih h.2.2 hw.2 (by simpa using hfuel), List.length_cons,
      Nat.cast_succ, add_assoc, add_comm (1 : ℤ)]

end Inner

/-! ## The words so far -/

/-- `argv` points to the words `ws`, each of which ends at `p` or before; the stores went into `argv` and into the
string, whose NUL is at `n` -/
structure Args.Holds (a : Args) (n p : ℤ) (ws : List (List (BitVec 8))) : Prop where
  argc : a.argc = ws.length
  room : (ws.length : ℤ) ≤ MAX_ARGS + 1
  word : ∀ (k : ℕ) w, ws[k]? = some w → StringAt a.buf (a.argv k) w ∧ 0 ≤ a.argv k ∧ a.argv k + w.length ≤ p
  argvStores : ∀ k ∈ a.argvStores, 0 ≤ k ∧ k ≤ MAX_ARGS
  bufStores : ∀ k ∈ a.bufStores, 0 ≤ k ∧ k < n

section Outer

variable {a : Args} {n p q e : ℤ} {ws : List (List (BitVec 8))} {w t : List (BitVec 8)}

theorem Args.Holds.mono (h : a.Holds n p ws) (hpq : p ≤ q) : a.Holds n q ws where
  argc := h.argc
  room := h.room
  word k w hw := by
    obtain ⟨hs, h0, hle⟩ := h.word k w hw
    exact ⟨hs, h0, le_trans hle hpq⟩
  argvStores := h.argvStores
  bufStores := h.bufStores

/-- a NUL behind the words so far -/
theorem Args.Holds.endToken (h : a.Holds n p ws) (h0 : 0 ≤ e) (hpe : p < e) (hen : e < n) :
    (a.endToken e).Holds n p ws where
  argc := h.argc
  room := h.room
  word k w hw := by
    obtain ⟨hs, hpos, hle⟩ := h.word k w hw
    exact ⟨hs.update_after (lt_of_le_of_lt hle hpe), hpos, hle⟩
  argvStores := h.argvStores
  bufStores k hk := by
    rcases List.mem_append.1 hk with hk | hk
    · exact h.bufStores k hk
    · rw [List.mem_singleton.1 hk]
      exact ⟨h0, hen⟩

theorem Args.Holds.addArg (h : a.Holds n p ws) (hroom : a.argc ≤ MAX_ARGS) (h0 : 0 ≤ q) (hpq : p ≤ q)
    (hw : StringAt a.buf q w) : (a.addArg q).Holds n (q + w.length) (ws ++ [w]) where
  argc := by
    change a.argc + 1 = ((ws ++ [w]).length : ℤ)
    rw [h.argc]
    simp
  room := by
    have hlen : ((ws ++ [w]).length : ℤ) = a.argc + 1 := by
      rw [h.argc]
      simp
    rw [hlen]
    exact Int.add_le_add_right hroom 1
  word k v hv := by
    change StringAt a.buf (Function.update a.argv a.argc q k) v ∧ 0 ≤ Function.update a.argv a.argc q k ∧
      Function.update a.argv a.argc q k + v.length ≤ q + w.length
    rcases Nat.lt_trichotomy k ws.length with hlt | heq | hgt
    · rw [List.getElem?_append_left hlt] at hv
      obtain ⟨hs, hpos, hle⟩ := h.word k v hv
      rw [Function.update_of_ne (by rw [h.argc]; omega)]
      exact ⟨hs, hpos, by omega⟩
    · rw [heq, List.getElem?_concat_length, Option.some_inj] at hv
      rw [heq, ← h.argc, Function.update_self, ← hv]
      exact ⟨hw, h0, le_refl _⟩
    · rw [List.getElem?_eq_none (by simpa using hgt)] at hv
      exact absurd hv (by simp)
  argvStores k hk := by
    rcases List.mem_append.1 hk with hk | hk
    · exact h.argvStores k hk
    · rw [List.mem_singleton.1 hk, h.argc]
      rw [h.argc] at hroom
      exact ⟨by omega, hroom⟩
  bufStores := h.bufStores

/-- a turn that finds nothing but spaces is the last -/
theorem parseLoop_gap {g : List (BitVec 8)} {fuel : ℕ} (hgo : a.buf p ≠ 0 ∧ a.argc ≤ MAX_ARGS)
    (hg : ∀ b ∈ g, b = 0x20#8)
    (ht : StringAt a.buf p (g ++ [])) (hfuel : g.length < fuel) : parseLoop (fuel + 1) p a = some a := by
  have hskip := skipSpaces_string ht hg (.inl rfl) hfuel
  have hnul : a.buf (p + g.length) = 0 := ht.drop
  rw [parseLoop, if_pos hgo, hskip]
  dsimp only
  rw [if_pos hnul]

/-- **A turn of the loop**: the word `w` behind the spaces `g`, and what is left behind it. -/
theorem parseLoop_turn {g r : List (BitVec 8)} {fuel : ℕ} (h : a.Holds n p ws) (h0 : 0 ≤ p)
    (hgo : a.buf p ≠ 0 ∧ a.argc ≤ MAX_ARGS) (hg : ∀ b ∈ g, b = 0x20#8) (hne : w ≠ []) (hw : 0x20#8 ∉ w)
    (hr : r = [] ∨ ∃ r', r = 0x20#8 :: r') (ht : StringAt a.buf p (g ++ (w ++ r)))
    (hn : p + g.length + w.length + r.length ≤ n) (hgap : g.length < fuel) (hword : w.length < fuel) :
    ∃ a' e r', parseLoop (fuel + 1) p a = parseLoop fuel e a' ∧ words 0x20#8 (w ++ r) = w :: words 0x20#8 r' ∧
      a'.Holds n e (ws ++ [w]) ∧ 0 ≤ e ∧ StringAt a'.buf e r' ∧ e + r'.length ≤ n ∧ r'.length ≤ r.length := by
  have hpos := List.length_pos_iff.2 hne
  have hrest : StringAt a.buf (p + g.length) (w ++ r) := ht.drop
  have hbehind : StringAt a.buf (p + g.length + w.length) r := hrest.drop
  obtain ⟨c, w', rfl⟩ := List.exists_cons_of_ne_nil hne
  have hc : 0x20#8 ≠ c := List.ne_of_not_mem_cons hw
  have hfirst : a.buf (p + g.length) ≠ 0 := hrest.2.1 ▸ hrest.1
  have hskip := skipSpaces_string ht hg (.inr ⟨c, w' ++ r, rfl, hc.symm⟩) hgap
  have hend := tokenEnd_string hrest hw hr hword
  rw [parseLoop, if_pos hgo, hskip]
  dsimp only
  rw [if_neg hfirst, hend]
  dsimp only
  rcases hr with rfl | ⟨r', rfl⟩
  · -- the word ends the string
    have hnul : a.buf (p + g.length + (c :: w').length) = 0 := hbehind
    rw [if_neg (not_not.2 hnul)]
    rw [List.append_nil] at hrest ⊢
    have hadd := h.addArg hgo.2 (q := p + g.length) (by omega) (by omega) hrest
    exact ⟨_, _, [], rfl, words_single hne hw, hadd, by omega, hbehind, hn, le_refl _⟩
  · -- a NUL takes the place of the separator
    have hsep : a.buf (p + g.length + (c :: w').length) ≠ 0 := by
      rw [hbehind.2.1]
      decide
    rw [if_pos hsep]
    have hlen : ((0x20#8 :: r').length : ℤ) = r'.length + 1 := by simp
    have hcut : StringAt (a.endToken (p + g.length + (c :: w').length)).buf (p + g.length) (c :: w') := hrest.cut
    have hnul := h.endToken (e := p + g.length + (c :: w').length) (by omega) (by omega) (by omega)
    have hadd := hnul.addArg hgo.2 (q := p + g.length) (by omega) (by omega) hcut
    have hbuf : StringAt (a.endToken (p + g.length + (c :: w').length)).buf (p + g.length + (c :: w').length + 1) r' :=
      hbehind.2.2.update_before (by omega)
    exact ⟨_, _, r', rfl, words_word hne hw, hadd.mono (by omega), by omega, hbuf, by omega, by simp⟩

/-- **The loop** adds the words of the rest of the string, as long as there is room in `argv`. -/
theorem parseLoop_words {fuel : ℕ} (h : a.Holds n p ws) (h0 : 0 ≤ p) (ht : StringAt a.buf p t) (hn : p + t.length ≤ n)
    (hfuel : t.length + 1 < fuel) :
    ∃ a', parseLoop fuel p a = some a' ∧ a'.Holds n n (ws ++ (words 0x20#8 t).take (5 - ws.length)) := by
  induction fuel generalizing a p ws t with
  | zero => omega
  | succ fuel ih =>
    by_cases hgo : a.buf p ≠ 0 ∧ a.argc ≤ MAX_ARGS
    · have hroom : ws.length ≤ 4 := by
        have := hgo.2
        rw [h.argc, MAX_ARGS] at this
        omega
      obtain ⟨g, t', rfl, hg, ht'⟩ := exists_gap 0x20#8 t
      rw [List.length_append] at hn hfuel
      push_cast at hn
      rw [words_gap hg]
      rcases ht' with rfl | ⟨c, t'', rfl, hc⟩
      · rw [words_nil, List.take_nil, List.append_nil]
        exact ⟨a, parseLoop_gap hgo hg ht (by omega), h.mono (by omega)⟩
      · obtain ⟨w, r, hsplit, hw, hr⟩ := exists_word 0x20#8 (c :: t'')
        have hne : w ≠ [] := by
          rintro rfl
          rcases hr with rfl | ⟨r', rfl⟩
          · exact List.cons_ne_nil _ _ hsplit
          · exact hc (List.cons.inj hsplit).1
        rw [hsplit] at ht hn hfuel ⊢
        rw [List.length_append] at hn hfuel
        push_cast at hn
        have hpos := List.length_pos_iff.2 hne
        have hgap : g.length < fuel := by omega
        have hword : w.length < fuel := by omega
        obtain ⟨a₁, e, r', hturn, hwords, hholds, he, hrest, hle, hshort⟩ :=
          parseLoop_turn h h0 hgo hg hne hw hr ht (by omega) hgap hword
        obtain ⟨a', ha', hall⟩ := ih hholds he hrest hle (by omega)
        obtain ⟨k, hk⟩ : ∃ k, 5 - ws.length = k + 1 := ⟨4 - ws.length, by omega⟩
        rw [hturn, hwords, hk, List.take_succ_cons]
        rw [List.length_append, List.length_singleton, show 5 - (ws.length + 1) = k by omega, List.append_assoc] at hall
        exact ⟨a', ha', hall⟩
    · -- the string is over, or `argv` is full
      rw [parseLoop, if_neg hgo]
      have hnone : (words 0x20#8 t).take (5 - ws.length) = [] := by
        cases t with
        | nil => simp [words_nil]
        | cons c t =>
          have hfull : ¬ a.argc ≤ MAX_ARGS := fun hle => hgo ⟨ht.2.1 ▸ ht.1, hle⟩
          rw [h.argc, MAX_ARGS] at hfull
          rw [show 5 - ws.length = 0 by omega, List.take_zero]
      rw [hnone, List.append_nil]
      exact ⟨a, rfl, h.mono (by omega)⟩

/-- **`parse_args`**: enough steps, and `argv` points to the first words of the line. -/
theorem parseArgs_words {buf : CMem} {line : List (BitVec 8)} (hline : StringAt buf 0 line) (argv : ℤ → ℤ) {fuel : ℕ}
    (hfuel : line.length + 1 < fuel) :
    ∃ a, parseArgs fuel buf argv = some a ∧ a.Holds line.length line.length ((words 0x20#8 line).take 5) := by
  have hstart : (⟨buf, 0, argv, [], []⟩ : Args).Holds line.length 0 [] :=
    ⟨rfl, by decide, by simp, by simp, by simp⟩
  exact parseLoop_words hstart (le_refl 0) hline (by omega) hfuel

end Outer

/-- **Line input.** `shell_readline` stores only inside the buffer, and returns a length when a CR or LF comes in. When
it returns a length, the keys came in before a CR or LF, and the buffer holds the line of this length that they make;
and `parse_args` ends on this line, within `argv` and the line, with `argv` pointing to its first words. -/
theorem line_input (buf : CMem) (size : ℤ) (hsize : 1 ≤ size) (input : List (BitVec 8)) :
    (∀ k ∈ (shellReadline buf size input).line.stores, 0 ≤ k ∧ k < size) ∧
    (∀ keys c rest, input = keys ++ c :: rest → (∀ b ∈ keys, ¬ Returns b) → EndsLine c →
      ∃ l, shellReadline buf size input = .returned (editLine size keys).length l) ∧
    ∀ n l, shellReadline buf size input = .returned n l → 0 ≤ n →
      ∃ keys c rest, input = keys ++ c :: rest ∧ EndsLine c ∧ (∀ b ∈ keys, ¬ Returns b) ∧
        n = (editLine size keys).length ∧ n < size ∧ StringAt l.buf 0 (editLine size keys) ∧
        ∀ (argv : ℤ → ℤ) (fuel : ℕ), (editLine size keys).length + 1 < fuel →
          ∃ a, parseArgs fuel l.buf argv = some a ∧ a.Holds n n ((words 0x20#8 (editLine size keys)).take 5) := by
  refine ⟨shellReadline_bounds buf hsize input, fun keys c rest hinput hkeys hc => ?_, fun n l h hn => ?_⟩
  · obtain ⟨l, hl, -⟩ := shellReadline_end buf hsize hkeys hc rest
    exact ⟨l, hinput ▸ hl⟩
  obtain ⟨keys, c, rest, hinput, hkeys, hc, rfl, hroom, hstring⟩ := shellReadline_returned buf hsize hn h
  exact ⟨keys, c, rest, hinput, hc, hkeys, rfl, hroom, hstring,
    fun argv fuel hfuel => parseArgs_words hstring argv hfuel⟩

/-- "ab", a backspace, more keys than fit, CR -/
def typed : List (BitVec 8) := [0x61, 0x62, 0x08, 0x20, 0x63, 0x64, 0x65, 0x0D]

/-- the CR returns the length 4, and the rest holds of it -/
theorem line_input_typed :
    (∃ l, shellReadline (fun _ => 0xFF) 5 typed = .returned 4 l) ∧
    (∀ k ∈ (shellReadline (fun _ => 0xFF) 5 typed).line.stores, 0 ≤ k ∧ k < 5) ∧
    ∀ n l, shellReadline (fun _ => 0xFF) 5 typed = .returned n l → 0 ≤ n →
      ∃ keys c rest, typed = keys ++ c :: rest ∧ EndsLine c ∧ (∀ b ∈ keys, ¬ Returns b) ∧
        n = (editLine 5 keys).length ∧ n < 5 ∧ StringAt l.buf 0 (editLine 5 keys) ∧
        ∀ (argv : ℤ → ℤ) (fuel : ℕ), (editLine 5 keys).length + 1 < fuel →
          ∃ a, parseArgs fuel l.buf argv = some a ∧ a.Holds n n ((words 0x20#8 (editLine 5 keys)).take 5) := by
  obtain ⟨hstores, hends, hreturned⟩ := line_input (fun _ => 0xFF) 5 (by decide) typed
  exact ⟨hends (typed.take 7) 0x0D [] rfl (by decide) (by decide), hstores, hreturned⟩

/-- what is typed, and its words -/
example : editLine 5 (typed.take 7) = [0x61, 0x20, 0x63, 0x64] ∧
    words 0x20#8 (editLine 5 (typed.take 7)) = [[0x61], [0x63, 0x64]] := by decide

end Vsync.Shell
