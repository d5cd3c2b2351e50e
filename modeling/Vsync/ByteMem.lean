/-
Flat byte memories: loads and stores of `n` bytes, the lowest address in the lowest byte. Nothing in this file is about
a particular machine.

- `ByteMem.load`, `ByteMem.store`.
- `load_eq_extract`: a load from bytes that lie next to each other in a word is a field of the word.
- `load_store`, `load_store_of_apart`: a load behind a store, of its own bytes or of others.
-/
import Mathlib.Tactic

namespace Vsync

/-- a byte at every address -/
abbrev ByteMem (w : ℕ) := BitVec w → BitVec 8

def byteOf {v : ℕ} (x : BitVec v) (i : ℕ) : BitVec 8 := x.extractLsb' (8 * i) 8

theorem getLsbD_byteOf {v : ℕ} (x : BitVec v) (i : ℕ) {j : ℕ} (hj : j < 8) :
    (byteOf x i).getLsbD j = x.getLsbD (8 * i + j) := by
  rw [byteOf, BitVec.getLsbD_extractLsb', decide_eq_true hj, Bool.true_and]

theorem eq_of_byteOf {n : ℕ} {x y : BitVec (8 * n)} (h : ∀ i < n, byteOf x i = byteOf y i) : x = y := by
  apply BitVec.eq_of_getLsbD_eq
  intro i hi
  have hbyte := congrArg (fun b : BitVec 8 => b.getLsbD (i % 8)) (h (i / 8) (by omega))
  simp only [getLsbD_byteOf _ _ (Nat.mod_lt i (by omega))] at hbyte
  rwa [Nat.div_add_mod] at hbyte

namespace ByteMem

variable {w : ℕ} (m : ByteMem w) (addr : BitVec w)

def load : (n : ℕ) → BitVec (8 * n)
  | 0 => 0#0
  | n + 1 => (m (addr + BitVec.ofNat w n) ++ load n).cast (by omega)

def store (n : ℕ) {v : ℕ} (data : BitVec v) : ByteMem w :=
  fun x => if (x - addr).toNat < n then byteOf data (x - addr).toNat else m x

theorem getLsbD_load (n : ℕ) {i : ℕ} (hi : i < 8 * n) :
    (m.load addr n).getLsbD i = (m (addr + BitVec.ofNat w (i / 8))).getLsbD (i % 8) := by
  induction n with
  | zero => omega
  | succ n ih =>
    rw [load, BitVec.getLsbD_cast, BitVec.getLsbD_append]
    by_cases h : i < 8 * n
    · rw [if_pos h, ih h]
    · have hdiv : i / 8 = n := by omega
      have hmod : i % 8 = i - 8 * n := by omega
      rw [if_neg h, hdiv, hmod]

/-- **A load from within a word.** -/
theorem load_eq_extract {v : ℕ} (x : BitVec v) (lane n : ℕ)
    (h : ∀ i < n, m (addr + BitVec.ofNat w i) = byteOf x (lane + i)) :
    m.load addr n = x.extractLsb' (8 * lane) (8 * n) := by
  apply BitVec.eq_of_getLsbD_eq
  intro i hi
  rw [getLsbD_load m addr n hi, h (i / 8) (by omega), getLsbD_byteOf x _ (Nat.mod_lt i (by omega)),
    BitVec.getLsbD_extractLsb', decide_eq_true hi, Bool.true_and]
  congr 1
  omega

/-- only the bytes that it reads matter to a load -/
theorem load_congr {m m' : ByteMem w} {addr : BitVec w} (n : ℕ)
    (h : ∀ i < n, m (addr + BitVec.ofNat w i) = m' (addr + BitVec.ofNat w i)) : m.load addr n = m'.load addr n := by
  induction n with
  | zero => rfl
  | succ n ih => rw [load, load, h n (Nat.lt_succ_self n), ih fun i hi => h i (Nat.lt_succ_of_lt hi)]

theorem load_store {n : ℕ} (hn : n ≤ 2 ^ w) (x : BitVec (8 * n)) : (m.store addr n x).load addr n = x := by
  have hbytes : ∀ i < n, (m.store addr n x) (addr + BitVec.ofNat w i) = byteOf x (0 + i) := by
    intro i hi
    have hsub : (addr + BitVec.ofNat w i - addr).toNat = i := by
      rw [BitVec.add_comm, BitVec.add_sub_cancel, BitVec.toNat_ofNat, Nat.mod_eq_of_lt (lt_of_lt_of_le hi hn)]
    rw [store, hsub, if_pos hi, Nat.zero_add]
  rw [load_eq_extract _ _ x 0 n hbytes, Nat.mul_zero]
  exact BitVec.extractLsb'_eq_self

theorem load_store_of_apart {n k v : ℕ} {addr' : BitVec w} (x : BitVec v)
    (h : ∀ i < n, k ≤ (addr' + BitVec.ofNat w i - addr).toNat) : (m.store addr k x).load addr' n = m.load addr' n := by
  refine load_congr n fun i hi => ?_
  rw [store, if_neg (Nat.not_lt.2 (h i hi))]

end ByteMem

end Vsync
