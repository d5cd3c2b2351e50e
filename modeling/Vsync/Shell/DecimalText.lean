/-
`dec_to_uint32` and `uint32_to_dec` of the shell: decimal text from and to a 32-bit word.

- `digitsValue`: the number that digits stand for.
- `decLoop_eq`: the loop of `dec_to_uint32`, which computes modulo `2 ^ 32` and gives up where the value gets smaller.
- `uint32ToDec_string`: `uint32_to_dec` leaves digits of its argument in the buffer, within its bounds.
- `decimal_conversion`: **which strings are converted right, and the round trip.** A value that wraps without getting
  smaller is accepted.
-/
import Vsync.CString
import Vsync.Pkg

namespace Vsync.Shell

/-! ## The numbers of the text -/

def IsDigit (c : BitVec 8) : Prop := 0x30#8 ≤ c ∧ c ≤ 0x39#8

instance : DecidablePred IsDigit := fun _ => inferInstanceAs (Decidable (_ ∧ _))

/-- a number with one more digit -/
def addDigit (a : ℕ) (c : BitVec 8) : ℕ := 10 * a + (c.toNat - 0x30)

/-- the number that `a` and the digits `s` behind it stand for -/
def digitsValue (a : ℕ) (s : List (BitVec 8)) : ℕ := s.foldl addDigit a

def IsDecimal (s : List (BitVec 8)) : Prop := s ≠ [] ∧ ∀ c ∈ s, IsDigit c

/-- modulo `2 ^ 32` the value never gets smaller from digit to digit -/
def NeverDrops (a : ℕ) (s : List (BitVec 8)) : Prop :=
  ∀ k < s.length, digitsValue a (s.take k) % 2 ^ 32 ≤ digitsValue a (s.take (k + 1)) % 2 ^ 32

instance (s : List (BitVec 8)) : Decidable (IsDecimal s) := inferInstanceAs (Decidable (_ ∧ _))
instance (a : ℕ) (s : List (BitVec 8)) : Decidable (NeverDrops a s) := inferInstanceAs (Decidable (∀ k < _, _))

/-! ## The code -/

/-- the loop of `dec_to_uint32` over the rest of the string; a byte from 0x80 on is no digit, signed or not -/
def decLoop : List (BitVec 8) → Word → ℕ → Option Word
  | [], val, digits => if digits = 0 then none else some val
  | c :: s, prev, digits =>
    if c < 0x30#8 ∨ 0x39#8 < c then none
    else
      let val := prev * 10 + (c - 0x30#8).setWidth 32
      if val < prev then none else decLoop s val (digits + 1)

def decToUint32 (s : CString) : Option Word := decLoop s.bytes 0 0

/-- `dec_buf` and the index `i` -/
structure DecBuf where
  buf : CMem
  i : ℤ

def DecBuf.push (b : DecBuf) (c : BitVec 8) : DecBuf := ⟨Function.update b.buf (b.i - 1) c, b.i - 1⟩

def decDigits (val : Word) (b : DecBuf) : DecBuf :=
  if 0 < val.toNat then decDigits (val / 10) (b.push (0x30#8 + (val % 10).setWidth 8)) else b
termination_by val.toNat
decreasing_by
  rw [BitVec.toNat_udiv]
  exact Nat.div_lt_self (by assumption) (by decide)

def uint32ToDec (buf : CMem) (val : Word) : DecBuf :=
  let b : DecBuf := ⟨Function.update buf 10 0, 10⟩
  if val = 0 then b.push 0x30 else decDigits val b

/-! ## From text -/

section Value

variable {a : ℕ} {c : BitVec 8} {s : List (BitVec 8)}

@[simp] theorem digitsValue_nil : digitsValue a [] = a := rfl

@[simp] theorem digitsValue_cons : digitsValue a (c :: s) = digitsValue (addDigit a c) s :=
  List.foldl_cons ..

theorem digitsValue_append (t : List (BitVec 8)) : digitsValue a (s ++ t) = digitsValue (digitsValue a s) t :=
  List.foldl_append

theorem le_addDigit : a ≤ addDigit a c := by
  unfold addDigit
  omega

theorem le_digitsValue : a ≤ digitsValue a s := by
  induction s generalizing a with
  | nil => exact le_refl a
  | cons c s ih => exact le_trans le_addDigit ih

theorem neverDrops_cons :
    NeverDrops a (c :: s) ↔ a % 2 ^ 32 ≤ addDigit a c % 2 ^ 32 ∧ NeverDrops (addDigit a c) s := by
  constructor
  · intro h
    exact ⟨h 0 (Nat.zero_lt_succ _), fun k hk => h (k + 1) (Nat.succ_lt_succ hk)⟩
  · rintro ⟨h0, h⟩ k hk
    cases k with
    | zero => exact h0
    | succ k => exact h k (Nat.lt_of_succ_lt_succ hk)

theorem neverDrops_of_lt (h : digitsValue a s < 2 ^ 32) : NeverDrops a s := by
  induction s generalizing a with
  | nil => exact fun k hk => absurd hk (Nat.not_lt_zero k)
  | cons c s ih =>
    have hle : addDigit a c < 2 ^ 32 := lt_of_le_of_lt le_digitsValue h
    refine neverDrops_cons.2 ⟨?_, ih h⟩
    rw [Nat.mod_eq_of_lt hle]
    exact le_trans (Nat.mod_le _ _) le_addDigit

/-- the test of the code is that of a digit -/
theorem out_iff : (c < 0x30#8 ∨ 0x39#8 < c) ↔ ¬ IsDigit c := by
  rw [IsDigit, not_and_or, BitVec.not_le, BitVec.not_le]

theorem toNat_addDigit {val : Word} (hval : val.toNat = a % 2 ^ 32) (hdigit : IsDigit c) :
    (val * 10 + (c - 0x30#8).setWidth 32).toNat = addDigit a c % 2 ^ 32 := by
  have hbounds : 0x30 ≤ c.toNat ∧ c.toNat ≤ 0x39 := hdigit
  have hsub : (c - 0x30#8).toNat = c.toNat - 0x30 := BitVec.toNat_sub_of_le hdigit.1
  have hten : (10 : Word).toNat = 10 := rfl
  rw [BitVec.toNat_add, BitVec.toNat_mul, BitVec.toNat_setWidth, hsub, hval, hten, addDigit]
  omega

/-- **The loop**, with the value so far modulo `2 ^ 32`. -/
theorem decLoop_eq {val : Word} (hval : val.toNat = a % 2 ^ 32) (digits : ℕ) :
    decLoop s val digits =
      if (∀ c ∈ s, IsDigit c) ∧ NeverDrops a s ∧ 0 < digits + s.length then some (BitVec.ofNat 32 (digitsValue a s))
      else none := by
  induction s generalizing a val digits with
  | nil =>
    have hofNat : val = BitVec.ofNat 32 a := BitVec.eq_of_toNat_eq (by rw [hval, BitVec.toNat_ofNat])
    cases digits with
    | zero => simp [decLoop]
    | succ digits => simp [decLoop, NeverDrops, hofNat]
  | cons c s ih =>
    rw [decLoop]
    by_cases hdigit : IsDigit c
    · have hnext := toNat_addDigit hval hdigit
      have hlt : val * 10 + (c - 0x30#8).setWidth 32 < val ↔ addDigit a c % 2 ^ 32 < a % 2 ^ 32 := by
        rw [BitVec.lt_def, hnext, hval]
      rw [if_neg (mt out_iff.1 (not_not_intro hdigit))]
      dsimp only
      rw [ih hnext, digitsValue_cons]
      by_cases hdrop : addDigit a c % 2 ^ 32 < a % 2 ^ 32
      · have hno : ¬ NeverDrops a (c :: s) := fun h => absurd (neverDrops_cons.1 h).1 (Nat.not_le.2 hdrop)
        rw [if_pos (hlt.2 hdrop), if_neg fun h => hno h.2.1]
      · have hiff : NeverDrops a (c :: s) ↔ NeverDrops (addDigit a c) s :=
          neverDrops_cons.trans (and_iff_right (Nat.le_of_not_lt hdrop))
        rw [if_neg (mt hlt.1 hdrop)]
        have hlen : 0 < digits + (c :: s).length ↔ 0 < digits + 1 + s.length := by simp
        simp only [List.mem_cons, forall_eq_or_imp, hdigit, true_and, hlen, hiff]
    · rw [if_pos (out_iff.2 hdigit), if_neg fun h => hdigit (h.1 c (List.mem_cons_self ..))]

end Value

theorem decToUint32_eq (s : CString) : decToUint32 s =
    if IsDecimal s.bytes ∧ NeverDrops 0 s.bytes then some (BitVec.ofNat 32 (digitsValue 0 s.bytes)) else none := by
  have hiff : ((∀ c ∈ s.bytes, IsDigit c) ∧ NeverDrops 0 s.bytes ∧ 0 < 0 + s.bytes.length) ↔
      (IsDecimal s.bytes ∧ NeverDrops 0 s.bytes) := by
    rw [IsDecimal, Nat.zero_add, List.length_pos_iff]
    tauto
  rw [decToUint32, decLoop_eq (a := 0) rfl]
  simp only [hiff]

/-! ## To text -/

theorem last_digit (val : Word) : (0x30#8 + (val % 10).setWidth 8).toNat = 0x30 + val.toNat % 10 := by
  have hmod : (val % 10).toNat = val.toNat % 10 := BitVec.toNat_umod ..
  rw [BitVec.toNat_add, BitVec.toNat_setWidth, hmod]
  have hten : val.toNat % 10 < 10 := Nat.mod_lt _ (by decide)
  change (0x30 + val.toNat % 10 % 2 ^ 8) % 2 ^ 8 = _
  omega

theorem isDigit_last (val : Word) : IsDigit (0x30#8 + (val % 10).setWidth 8) := by
  have hten : val.toNat % 10 < 10 := Nat.mod_lt _ (by decide)
  constructor
  · rw [BitVec.le_def, last_digit]
    exact Nat.le_add_right _ _
  · rw [BitVec.le_def, last_digit]
    change 0x30 + val.toNat % 10 ≤ 0x39
    omega

theorem ne_nul_of_isDigit {c : BitVec 8} (h : IsDigit c) : c ≠ 0 := by
  rintro rfl
  exact absurd h.1 (by decide)

/-- **The loop**, over a number of at most `k` digits: it puts the digits in front of what is there, in at most `k`
places. -/
theorem decDigits_string {val : Word} {b : DecBuf} {t : List (BitVec 8)} {k : ℕ} (hs : StringAt b.buf b.i t)
    (hval : val.toNat < 10 ^ k) : ∃ s, StringAt (decDigits val b).buf (decDigits val b).i (s ++ t) ∧
      (∀ c ∈ s, IsDigit c) ∧ digitsValue 0 s = val.toNat ∧ b.i - k ≤ (decDigits val b).i := by
  induction k generalizing val b t with
  | zero =>
    have h0 : val.toNat = 0 := by simpa using hval
    rw [decDigits, if_neg (by omega)]
    exact ⟨[], hs, by simp, h0.symm, by omega⟩
  | succ k ih =>
    rw [decDigits]
    split_ifs with hpos
    · have hdiv : (val / 10).toNat = val.toNat / 10 := BitVec.toNat_udiv ..
      have hless : (val / 10).toNat < 10 ^ k := by
        rw [hdiv, Nat.div_lt_iff_lt_mul (by decide)]
        rwa [pow_succ] at hval
      have hpush : StringAt (b.push (0x30#8 + (val % 10).setWidth 8)).buf (b.push (0x30#8 + (val % 10).setWidth 8)).i
          ((0x30#8 + (val % 10).setWidth 8) :: t) := hs.cons (ne_nul_of_isDigit (isDigit_last val))
      obtain ⟨s, hstring, hdigits, hvalue, hi⟩ := ih hpush hless
      refine ⟨s ++ [0x30#8 + (val % 10).setWidth 8], ?_, ?_, ?_, ?_⟩
      · rwa [List.append_assoc]
      · intro c hc
        rcases List.mem_append.1 hc with hc | hc
        · exact hdigits c hc
        · rw [List.mem_singleton.1 hc]
          exact isDigit_last val
      · rw [digitsValue_append, hvalue, digitsValue_cons, digitsValue_nil, addDigit, last_digit, hdiv]
        omega
      · have hi' : (b.push (0x30#8 + (val % 10).setWidth 8)).i = b.i - 1 := rfl
        rw [hi'] at hi
        rw [Nat.cast_succ]
        omega
    · exact ⟨[], hs, by simp, by simp only [digitsValue_nil]; omega, by rw [Nat.cast_succ]; omega⟩

/-- **The text of a word**: digits of its value, in the eleven bytes of the buffer. -/
theorem uint32ToDec_string (buf : CMem) (val : Word) :
    ∃ s : CString, StringAt (uint32ToDec buf val).buf (uint32ToDec buf val).i s.bytes ∧ IsDecimal s.bytes ∧
      digitsValue 0 s.bytes = val.toNat ∧ 0 ≤ (uint32ToDec buf val).i := by
  have hnul : StringAt (Function.update buf 10 0) 10 [] := by simp [StringAt]
  unfold uint32ToDec
  dsimp only
  split_ifs with h0
  · have hs := hnul.cons (b := 0x30#8) (by decide)
    refine ⟨⟨[0x30#8], by simp⟩, hs, by decide, ?_, by simp [DecBuf.push]⟩
    rw [h0]
    rfl
  · have hten : val.toNat < 10 ^ 10 := lt_of_lt_of_le val.isLt (by decide)
    obtain ⟨s, hs, hdigits, hvalue, hi⟩ := decDigits_string (b := ⟨Function.update buf 10 0, 10⟩) hnul hten
    rw [List.append_nil] at hs
    refine ⟨⟨s, hs.nonzero⟩, hs, ⟨?_, hdigits⟩, hvalue, by simpa using hi⟩
    rintro rfl
    exact h0 (BitVec.eq_of_toNat_eq hvalue.symm)

/-! ## The conversions -/

/-- success exactly on a nonempty string of digits whose value fits, with that value -/
def ConvertsRight (s : CString) : Prop :=
  ∀ v : Word, decToUint32 s = some v ↔ IsDecimal s.bytes ∧ digitsValue 0 s.bytes = v.toNat

/-- a number that is too large, and never drops modulo `2 ^ 32` from digit to digit -/
def WrapsUnseen (s : CString) : Prop :=
  IsDecimal s.bytes ∧ 2 ^ 32 ≤ digitsValue 0 s.bytes ∧ NeverDrops 0 s.bytes

theorem convertsRight_of_fits {s : CString} (hdec : IsDecimal s.bytes) (hfits : digitsValue 0 s.bytes < 2 ^ 32) :
    ConvertsRight s := by
  intro v
  rw [decToUint32_eq, if_pos ⟨hdec, neverDrops_of_lt hfits⟩, Option.some_inj, ← BitVec.toNat_inj, BitVec.toNat_ofNat,
    Nat.mod_eq_of_lt hfits]
  exact (and_iff_right hdec).symm

theorem convertsRight_iff (s : CString) : ConvertsRight s ↔ ¬ WrapsUnseen s := by
  by_cases hfits : digitsValue 0 s.bytes < 2 ^ 32
  · by_cases hdec : IsDecimal s.bytes
    · exact iff_of_true (convertsRight_of_fits hdec hfits) fun h => absurd h.2.1 (Nat.not_le.2 hfits)
    · refine iff_of_true (fun v => ?_) fun h => hdec h.1
      rw [decToUint32_eq, if_neg fun h => hdec h.1]
      simp [hdec]
  · -- the value is no word: right is only a refusal
    have hno (v : Word) : ¬ (IsDecimal s.bytes ∧ digitsValue 0 s.bytes = v.toNat) := by
      rintro ⟨-, heq⟩
      exact hfits (heq ▸ v.isLt)
    have hright : ConvertsRight s ↔ decToUint32 s = none := by
      simp only [ConvertsRight, hno, iff_false, Option.eq_none_iff_forall_ne_some]
    rw [hright, decToUint32_eq, WrapsUnseen]
    have hbig : 2 ^ 32 ≤ digitsValue 0 s.bytes := Nat.le_of_not_lt hfits
    simp only [hbig, true_and]
    split_ifs with h <;> simp [h]

/-- **Decimal conversion.** `dec_to_uint32` is right on a string exactly if this is no number from `2 ^ 32` on that
wraps unseen; and it recovers every word from what `uint32_to_dec` leaves. -/
theorem decimal_conversion (s : CString) (buf : CMem) (val : Word) :
    (ConvertsRight s ↔ ¬ WrapsUnseen s) ∧
      ∃ t : CString, StringAt (uint32ToDec buf val).buf (uint32ToDec buf val).i t.bytes ∧ decToUint32 t = some val := by
  refine ⟨convertsRight_iff s, ?_⟩
  obtain ⟨t, ht, hdec, hvalue, -⟩ := uint32ToDec_string buf val
  exact ⟨t, ht, (convertsRight_of_fits hdec (hvalue ▸ val.isLt) val).2 ⟨hdec, hvalue⟩⟩

def fiveBillion : CString := ⟨[0x35, 0x30, 0x30, 0x30, 0x30, 0x30, 0x30, 0x30, 0x30, 0x30], by decide⟩

theorem fiveBillion_accepted : ¬ ∀ s : CString, ConvertsRight s := by
  intro h
  have haccepted : decToUint32 fiveBillion = some 705032704 := by decide +kernel
  have hvalue : digitsValue 0 fiveBillion.bytes ≠ (705032704 : Word).toNat := by decide +kernel
  exact hvalue ((h fiveBillion 705032704).1 haccepted).2

end Vsync.Shell
