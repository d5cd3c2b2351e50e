/-
`hex_to_uint32` and `uint32_to_hex` of the shell: hexadecimal text from and to a 32-bit word.

- `HexNumber`, `HexText`: one to eight digits and their value, and the same behind a prefix.
- `hexLoop_number`, `hexLoop_refuses`: the loop of `hex_to_uint32` on a number and on any other string.
- `uint32ToHex_string`: `uint32_to_hex` leaves eight digits of its argument in the buffer.
- `hex_conversion`: **the round trip, and which strings are accepted**.
-/
import Vsync.CString
import Vsync.Pkg

namespace Vsync.Shell

/-! ## The numbers of the text -/

/-- `'0'` to `'9'`, `'a'` to `'f'` or `'A'` to `'F'` for the number `d` -/
def HexDigit (c : BitVec 8) (d : ℕ) : Prop :=
  d < 10 ∧ c.toNat = 0x30 + d ∨ 10 ≤ d ∧ d < 16 ∧ (c.toNat = 0x61 + (d - 10) ∨ c.toNat = 0x41 + (d - 10))

instance (c : BitVec 8) (d : ℕ) : Decidable (HexDigit c d) := inferInstanceAs (Decidable (_ ∨ _))

/-- one to eight digits, the highest first, and the number `n` that they stand for -/
def HexNumber (s : List (BitVec 8)) (n : ℕ) : Prop :=
  ∃ ds : List ℕ, List.Forall₂ HexDigit s ds ∧ 1 ≤ s.length ∧ s.length ≤ 8 ∧ n = Nat.ofDigits 16 ds.reverse

/-- nothing, `"0x"` or `"0X"` -/
def IsPrefix (t : List (BitVec 8)) : Prop := t = [] ∨ t = [0x30#8, 0x78#8] ∨ t = [0x30#8, 0x58#8]

/-- a number behind an optional prefix -/
def HexText (s : List (BitVec 8)) (n : ℕ) : Prop := ∃ t u, s = t ++ u ∧ IsPrefix t ∧ HexNumber u n

/-! ## The code -/

/-- `nib` of the character; a byte from 0x80 on is no digit, signed or not -/
def nibbleOf (c : BitVec 8) : Option Word :=
  if 0x30#8 ≤ c ∧ c ≤ 0x39#8 then some (c.setWidth 32 - 0x30)
  else if 0x61#8 ≤ c ∧ c ≤ 0x66#8 then some (c.setWidth 32 - 0x61 + 10)
  else if 0x41#8 ≤ c ∧ c ≤ 0x46#8 then some (c.setWidth 32 - 0x41 + 10)
  else none

/-- the loop of `hex_to_uint32` and what comes behind it: the return value and `*out` -/
def hexLoop (m : CMem) (s : ℤ) (val : Word) (digits : ℕ) (out : Word) : ℤ × Word :=
  if m s ≠ 0 then
    match nibbleOf (m s) with
    | none => (-1, out)
    | some nib => if 8 < digits + 1 then (-1, out) else hexLoop m (s + 1) (val <<< 4 ||| nib) (digits + 1) out
  else if digits = 0 then (-1, out)
  else (0, val)
termination_by 8 - digits

def hexToUint32 (m : CMem) (s : ℤ) (out : Word) : ℤ × Word :=
  hexLoop m (if m s = 0x30#8 ∧ (m (s + 1) = 0x78#8 ∨ m (s + 1) = 0x58#8) then s + 2 else s) 0 0 out

def hextab : List (BitVec 8) :=
  [0x30, 0x31, 0x32, 0x33, 0x34, 0x35, 0x36, 0x37, 0x38, 0x39, 0x41, 0x42, 0x43, 0x44, 0x45, 0x46]

def lowDigit (val : Word) : BitVec 8 := hextab.getD (val &&& 0xF).toNat 0

/-- the loop of `uint32_to_hex`, from `i = n - 1` down to 0 -/
def hexDigits : ℕ → Word → CMem → CMem
  | 0, _, buf => buf
  | i + 1, val, buf => hexDigits i (val >>> 4) (Function.update buf i (lowDigit val))

def uint32ToHex (buf : CMem) (val : Word) : CMem := Function.update (hexDigits 8 val buf) 8 0

/-! ## From text -/

section Digits

variable {c : BitVec 8} {d : ℕ} {nib : Word}

theorem HexDigit.lt (h : HexDigit c d) : d < 16 := by
  rcases h with ⟨h, -⟩ | ⟨-, h, -⟩
  · omega
  · exact h

theorem nibbleOf_of_digit (h : HexDigit c d) : nibbleOf c = some (BitVec.ofNat 32 d) := by
  have hlt := h.lt
  unfold nibbleOf
  rcases h with ⟨hd, hc⟩ | ⟨hd, -, hc | hc⟩
  · rw [if_pos (by bv_omega)]
    exact congrArg some (by bv_omega)
  · rw [if_neg (by bv_omega), if_pos (by bv_omega)]
    exact congrArg some (by bv_omega)
  · rw [if_neg (by bv_omega), if_neg (by bv_omega), if_pos (by bv_omega)]
    exact congrArg some (by bv_omega)

theorem digit_of_nibbleOf (h : nibbleOf c = some nib) : HexDigit c nib.toNat := by
  unfold nibbleOf at h
  unfold HexDigit
  split_ifs at h with h1 h2 h3
  · rw [← Option.some.inj h]
    bv_omega
  · rw [← Option.some.inj h]
    bv_omega
  · rw [← Option.some.inj h]
    bv_omega

end Digits

/-- the digits `ds` have been read into `val` -/
structure HoldsDigits (ds : List ℕ) (val : Word) : Prop where
  small : ∀ d ∈ ds, d < 16
  value : val.toNat = Nat.ofDigits 16 ds.reverse

theorem holdsDigits_nil : HoldsDigits [] 0 := ⟨by simp, rfl⟩

theorem toNat_shift_in {w : ℕ} (k : ℕ) {x d : BitVec w} (hx : 2 ^ k * x.toNat < 2 ^ w) (hd : d.toNat < 2 ^ k) :
    (x <<< k ||| d).toNat = d.toNat + 2 ^ k * x.toNat := by
  have hshift : (x <<< k).toNat = x.toNat <<< k := by
    rw [BitVec.toNat_shiftLeft, Nat.mod_eq_of_lt]
    rwa [Nat.shiftLeft_eq, mul_comm]
  rw [BitVec.toNat_or, hshift, ← Nat.shiftLeft_add_eq_or_of_lt hd, Nat.shiftLeft_eq]
  ring

/-- one digit more, while there are less than eight -/
theorem HoldsDigits.push {ds : List ℕ} {val : Word} {d : ℕ} (h : HoldsDigits ds val) (hd : d < 16)
    (hlen : ds.length < 8) :
    HoldsDigits (ds ++ [d]) (val <<< 4 ||| BitVec.ofNat 32 d) := by
  have hsmall : val.toNat < 16 ^ ds.length := by
    rw [h.value, ← List.length_reverse]
    refine Nat.ofDigits_lt_base_pow_length (by decide) fun x hx => h.small x (List.mem_reverse.1 hx)
  have hroom : val.toNat < 16 ^ 7 := lt_of_lt_of_le hsmall (Nat.pow_le_pow_right (by decide) (by omega))
  have hnib : (BitVec.ofNat 32 d).toNat = d := by
    rw [BitVec.toNat_ofNat]
    exact Nat.mod_eq_of_lt (by omega)
  refine ⟨?_, ?_⟩
  · intro x hx
    rcases List.mem_append.1 hx with hx | hx
    · exact h.small x hx
    · rwa [List.mem_singleton.1 hx]
  · rw [toNat_shift_in 4 (by omega) (by rw [hnib]; exact hd), hnib, List.reverse_append, List.reverse_singleton,
      List.singleton_append, Nat.ofDigits_cons, ← h.value]
    rfl

section Loop

variable {m : CMem} {p : ℤ} {s : List (BitVec 8)} {val out nib : Word} {digits : ℕ}

theorem hexLoop_end (h : m p = 0) : hexLoop m p val digits out = if digits = 0 then (-1, out) else (0, val) := by
  rw [hexLoop, if_neg (not_not_intro h)]

theorem hexLoop_other (h : m p ≠ 0) (hn : nibbleOf (m p) = none) : hexLoop m p val digits out = (-1, out) := by
  rw [hexLoop, if_pos h, hn]

theorem hexLoop_nibble (h : m p ≠ 0) (hn : nibbleOf (m p) = some nib) : hexLoop m p val digits out =
    if 8 < digits + 1 then (-1, out) else hexLoop m (p + 1) (val <<< 4 ||| nib) (digits + 1) out := by
  rw [hexLoop, if_pos h, hn]

/-- **The loop on digits** that are not too many. -/
theorem hexLoop_number {ds pre : List ℕ} (hs : StringAt m p s) (hds : List.Forall₂ HexDigit s ds)
    (h : HoldsDigits pre val) (hpos : 1 ≤ pre.length + s.length) (hlen : pre.length + s.length ≤ 8) :
    ∃ w, hexLoop m p val pre.length out = (0, w) ∧ HoldsDigits (pre ++ ds) w := by
  induction hds generalizing p val pre with
  | nil =>
    have hne : pre.length ≠ 0 := Nat.ne_of_gt hpos
    refine ⟨val, ?_, ?_⟩
    · rw [hexLoop_end hs, if_neg hne]
    · rwa [List.append_nil]
  | @cons c d s ds hdigit _ ih =>
    obtain ⟨hc, hp, htail⟩ := hs
    have hlen' : pre.length + (s.length + 1) ≤ 8 := hlen
    have hnib : nibbleOf (m p) = some (BitVec.ofNat 32 d) := by
      rw [hp]
      exact nibbleOf_of_digit hdigit
    have hcount : (pre ++ [d]).length = pre.length + 1 := by simp
    rw [hexLoop_nibble (by rwa [hp]) hnib, if_neg (by omega), ← hcount]
    obtain ⟨w, hw, hholds⟩ := ih htail (h.push hdigit.lt (by omega)) (by omega) (by omega)
    refine ⟨w, hw, ?_⟩
    rwa [List.append_assoc, List.singleton_append] at hholds

/-- **The loop on any other string**: it stores nothing. -/
theorem hexLoop_refuses (hs : StringAt m p s) (hle : digits ≤ 8)
    (hno : ∀ ds, List.Forall₂ HexDigit s ds → ¬ (1 ≤ digits + s.length ∧ digits + s.length ≤ 8)) :
    hexLoop m p val digits out = (-1, out) := by
  induction s generalizing p val digits with
  | nil =>
    have hzero : digits = 0 := by
      by_contra hne
      exact hno [] .nil ⟨Nat.pos_of_ne_zero hne, hle⟩
    rw [hexLoop_end hs, if_pos hzero]
  | cons c s ih =>
    obtain ⟨hc, hp, htail⟩ := hs
    have hm : m p ≠ 0 := by rwa [hp]
    cases hn : nibbleOf (m p) with
    | none => exact hexLoop_other hm hn
    | some nib =>
      rw [hexLoop_nibble hm hn]
      split_ifs with hmany
      · rfl
      · refine ih htail (by omega) fun ds hds hlen => ?_
        have hdigit : HexDigit c nib.toNat := by
          rw [← hp]
          exact digit_of_nibbleOf hn
        refine hno _ (.cons hdigit hds) ?_
        rw [List.length_cons]
        omega

end Loop

/-- what comes back for a string that stands for the numbers in `P`: success exactly with such a number; a refusal
stores nothing -/
structure Converts (P : ℕ → Prop) (out : Word) (r : ℤ × Word) : Prop where
  success : r.1 = 0 ↔ ∃ n, P n
  value : ∀ n, P n → r.2.toNat = n
  refusal : r.1 ≠ 0 → r = (-1, out)

section Text

variable {m : CMem} {p : ℤ} {s u : List (BitVec 8)} {x : BitVec 8} {n : ℕ} (out : Word)

theorem hexLoop_of_number (hs : StringAt m p s) (h : HexNumber s n) :
    ∃ w, hexLoop m p 0 0 out = (0, w) ∧ w.toNat = n := by
  obtain ⟨ds, hds, hpos, hlen, rfl⟩ := h
  obtain ⟨w, hw, hholds⟩ := hexLoop_number hs hds holdsDigits_nil (by simpa using hpos) (by simpa using hlen)
  exact ⟨w, hw, hholds.value⟩

theorem hexLoop_converts (hs : StringAt m p s) : Converts (HexNumber s) out (hexLoop m p 0 0 out) := by
  by_cases h : ∃ n, HexNumber s n
  · obtain ⟨n, hn⟩ := h
    obtain ⟨w, hw, -⟩ := hexLoop_of_number out hs hn
    refine ⟨?_, ?_, ?_⟩
    · rw [hw]
      exact iff_of_true rfl ⟨n, hn⟩
    · intro k hk
      obtain ⟨w', hw', hvalue⟩ := hexLoop_of_number out hs hk
      rwa [hw']
    · intro hne
      rw [hw] at hne
      exact absurd rfl hne
  · have hno : hexLoop m p 0 0 out = (-1, out) := by
      refine hexLoop_refuses hs (Nat.zero_le _) fun ds hds hlen => h ⟨_, ds, hds, ?_, ?_, rfl⟩
      · simpa using hlen.1
      · simpa using hlen.2
    rw [hno]
    exact ⟨iff_of_false (show (-1 : ℤ) ≠ 0 by decide) h, fun k hk => absurd ⟨k, hk⟩ h, fun _ => rfl⟩

theorem not_digit_x (hx : x = 0x78#8 ∨ x = 0x58#8) (d : ℕ) : ¬ HexDigit x d := by
  unfold HexDigit
  rcases hx with rfl | rfl
  · have h : (0x78#8).toNat = 0x78 := rfl
    omega
  · have h : (0x58#8).toNat = 0x58 := rfl
    omega

theorem hexText_prefixed (hx : x = 0x78#8 ∨ x = 0x58#8) : HexText (0x30#8 :: x :: u) n ↔ HexNumber u n := by
  constructor
  · rintro ⟨t, v, heq, ht | ht, hv⟩
    · rw [ht, List.nil_append] at heq
      obtain ⟨ds, hds, -⟩ := hv
      rw [← heq] at hds
      cases hds with
      | cons _ htail =>
        cases htail with
        | cons hdigit _ => exact absurd hdigit (not_digit_x hx _)
    · have huv : u = v := by
        rcases ht with rfl | rfl
        · exact (List.cons.inj (List.cons.inj heq).2).2
        · exact (List.cons.inj (List.cons.inj heq).2).2
      rwa [huv]
  · intro h
    refine ⟨[0x30#8, x], u, rfl, ?_, h⟩
    rcases hx with rfl | rfl
    · exact .inr (.inl rfl)
    · exact .inr (.inr rfl)

theorem hexText_of_number (h : HexNumber s n) : HexText s n := ⟨[], s, rfl, .inl rfl, h⟩

theorem hexText_plain (hno : ∀ x u, s = 0x30#8 :: x :: u → ¬ (x = 0x78#8 ∨ x = 0x58#8)) :
    HexText s n ↔ HexNumber s n := by
  constructor
  · rintro ⟨t, v, rfl, rfl | rfl | rfl, hv⟩
    · exact hv
    · exact absurd (.inl rfl) (hno _ v rfl)
    · exact absurd (.inr rfl) (hno _ v rfl)
  · exact hexText_of_number

/-- the test for the prefix sees the bytes of the string -/
theorem prefix_iff (hs : StringAt m p s) : (m p = 0x30#8 ∧ (m (p + 1) = 0x78#8 ∨ m (p + 1) = 0x58#8)) ↔
    ∃ x u, s = 0x30#8 :: x :: u ∧ (x = 0x78#8 ∨ x = 0x58#8) := by
  constructor
  · rintro ⟨h0, h1⟩
    cases s with
    | nil =>
      have hnul : m p = 0 := hs
      rw [hnul] at h0
      exact absurd h0 (by decide)
    | cons c s =>
      obtain ⟨-, hc, htail⟩ := hs
      cases s with
      | nil =>
        have hnul : m (p + 1) = 0 := htail
        rw [hnul] at h1
        exact absurd h1 (by decide)
      | cons x u =>
        rw [htail.2.1] at h1
        exact ⟨x, u, by rw [← hc, h0], h1⟩
  · rintro ⟨x, u, rfl, hx⟩
    refine ⟨hs.2.1, ?_⟩
    rw [hs.2.2.2.1]
    exact hx

/-- **`hex_to_uint32` on any string.** -/
theorem hexToUint32_converts (hs : StringAt m p s) : Converts (HexText s) out (hexToUint32 m p out) := by
  unfold hexToUint32
  split_ifs with hprefix
  · obtain ⟨x, u, rfl, hx⟩ := (prefix_iff hs).1 hprefix
    have htext : HexText (0x30#8 :: x :: u) = HexNumber u := funext fun n => propext (hexText_prefixed hx)
    have htail : StringAt m (p + 2) u := by
      have hdrop : StringAt m (p + 1 + 1) u := hs.2.2.2.2
      rwa [add_assoc] at hdrop
    rw [htext]
    exact hexLoop_converts out htail
  · have htext : HexText s = HexNumber s :=
      funext fun n => propext (hexText_plain fun x u hsu hx => hprefix ((prefix_iff hs).2 ⟨x, u, hsu, hx⟩))
    rw [htext]
    exact hexLoop_converts out hs

end Text

/-! ## To text -/

section Print

variable {buf : CMem} {k : ℤ}

theorem lowDigit_digit (val : Word) : HexDigit (lowDigit val) (val.toNat % 16) := by
  have htab : ∀ d < 16, HexDigit (hextab.getD d 0) d := by decide
  have hlow : (val &&& 0xF).toNat = val.toNat % 16 := by
    rw [BitVec.toNat_and]
    exact Nat.and_two_pow_sub_one_eq_mod val.toNat 4
  rw [lowDigit, hlow]
  exact htab _ (Nat.mod_lt _ (by decide))

theorem ne_nul_of_hexDigit {c : BitVec 8} {d : ℕ} (h : HexDigit c d) : c ≠ 0 := by
  rintro rfl
  have hzero : (0 : BitVec 8).toNat = 0 := rfl
  unfold HexDigit at h
  omega

/-- the loop stores below its bound -/
theorem hexDigits_of_le (n : ℕ) (val : Word) (hk : k < 0 ∨ n ≤ k) : hexDigits n val buf k = buf k := by
  induction n generalizing val buf with
  | zero => rfl
  | succ n ih =>
    rw [Nat.cast_succ] at hk
    rw [hexDigits, ih (val >>> 4) (by omega)]
    exact Function.update_of_ne (by omega) _ _

theorem hexDigits_update (n : ℕ) (val : Word) (b : BitVec 8) (hk : n ≤ k) :
    Function.update (hexDigits n val buf) k b = hexDigits n val (Function.update buf k b) := by
  induction n generalizing val buf with
  | zero => rfl
  | succ n ih =>
    rw [Nat.cast_succ] at hk
    rw [hexDigits, ih (val >>> 4) (by omega), hexDigits, Function.update_comm (by omega)]

/-- **The loop**, over a number of at most `n` digits: it puts `n` digits in front of what is there. -/
theorem hexDigits_string {n : ℕ} {val : Word} {t : List (BitVec 8)} (ht : StringAt buf n t)
    (hval : val.toNat < 16 ^ n) :
    ∃ s ds, StringAt (hexDigits n val buf) 0 (s ++ t) ∧ List.Forall₂ HexDigit s ds ∧ s.length = n ∧
      val.toNat = Nat.ofDigits 16 ds.reverse := by
  induction n generalizing val buf t with
  | zero =>
    have hzero : val.toNat = 0 := by simpa using hval
    exact ⟨[], [], ht, .nil, rfl, hzero⟩
  | succ n ih =>
    have hdigit := lowDigit_digit val
    have hfront : StringAt (Function.update buf n (lowDigit val)) n (lowDigit val :: t) := by
      have hcons := ht.cons (ne_nul_of_hexDigit hdigit)
      rwa [Nat.cast_succ, add_sub_cancel_right] at hcons
    have hshift : (val >>> 4).toNat = val.toNat / 16 := by
      rw [BitVec.toNat_ushiftRight, Nat.shiftRight_eq_div_pow]
    have hless : (val >>> 4).toNat < 16 ^ n := by
      rw [hshift, Nat.div_lt_iff_lt_mul (by decide)]
      rwa [pow_succ] at hval
    obtain ⟨s, ds, hstring, hds, hlen, hvalue⟩ := ih hfront hless
    refine ⟨s ++ [lowDigit val], ds ++ [val.toNat % 16], ?_, ?_, ?_, ?_⟩
    · rwa [List.append_assoc]
    · exact List.rel_append hds (.cons hdigit .nil)
    · rw [List.length_append, hlen, List.length_singleton]
    · rw [List.reverse_append, List.reverse_singleton, List.singleton_append, Nat.ofDigits_cons, ← hvalue, hshift]
      exact (Nat.mod_add_div _ _).symm

theorem uint32ToHex_within (val : Word) (hk : k < 0 ∨ 8 < k) : uint32ToHex buf val k = buf k := by
  rw [uint32ToHex, Function.update_of_ne (by omega)]
  exact hexDigits_of_le 8 val (by omega)

/-- **The text of a word**: a number with its value. -/
theorem uint32ToHex_string (buf : CMem) (val : Word) :
    ∃ s, StringAt (uint32ToHex buf val) 0 s ∧ HexNumber s val.toNat := by
  have hnul : StringAt (Function.update buf 8 0) (8 : ℕ) [] := by simp [StringAt]
  obtain ⟨s, ds, hstring, hds, hlen, hvalue⟩ := hexDigits_string hnul (lt_of_lt_of_le val.isLt (by decide))
  rw [List.append_nil] at hstring
  have hmove : uint32ToHex buf val = hexDigits 8 val (Function.update buf 8 0) := hexDigits_update 8 val 0 (le_refl _)
  rw [hmove]
  exact ⟨s, hstring, ds, hds, by omega, by omega, hvalue⟩

end Print

/-! ## The conversions -/

/-- **Hex conversion.** `hex_to_uint32` recovers every word from what `uint32_to_hex` leaves, and succeeds on a string
exactly if this is one to eight digits behind an optional prefix, with their value. -/
theorem hex_conversion {m : CMem} {p : ℤ} {s : List (BitVec 8)} (hs : StringAt m p s) (out : Word) (buf : CMem)
    (val : Word) :
    hexToUint32 (uint32ToHex buf val) 0 out = (0, val) ∧ Converts (HexText s) out (hexToUint32 m p out) := by
  refine ⟨?_, hexToUint32_converts out hs⟩
  obtain ⟨t, ht, hnumber⟩ := uint32ToHex_string buf val
  have htext := hexText_of_number hnumber
  have hright := hexToUint32_converts out ht
  have hsuccess := hright.success.2 ⟨_, htext⟩
  have hvalue := BitVec.eq_of_toNat_eq (hright.value _ htext)
  exact Prod.ext hsuccess hvalue

def mixedCase : List (BitVec 8) := [0x30, 0x78, 0x46, 0x66]

theorem hex_conversion_mixedCase : hexToUint32 (fun k => mixedCase.getD k.toNat 0) 0 7 = (0, 255) := by
  have hs : StringAt (fun k => mixedCase.getD k.toNat 0) 0 mixedCase :=
    ⟨by decide, rfl, by decide, rfl, by decide, rfl, by decide, rfl, rfl⟩
  have htext : HexText mixedCase 255 :=
    ⟨[0x30, 0x78], [0x46, 0x66], rfl, .inr (.inl rfl), [15, 15], .cons (by decide) (.cons (by decide) .nil), by decide,
      by decide, rfl⟩
  obtain ⟨-, hright⟩ := hex_conversion hs 7 (fun _ => 0) 0
  exact Prod.ext (hright.success.2 ⟨255, htext⟩) (BitVec.eq_of_toNat_eq (hright.value 255 htext))

end Vsync.Shell
