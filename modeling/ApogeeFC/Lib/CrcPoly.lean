import ApogeeFC.Lib.Crc
import Mathlib.Algebra.CharP.Two
import Mathlib.Algebra.Field.ZMod
import Mathlib.Algebra.Polynomial.Div
import Mathlib.Data.ZMod.Basic
import Mathlib.Tactic.Ring

/-!
# Cyclic redundancy checks as remainders

The register of `Crc` holds a polynomial over the field of two elements of degree less than `w`, bit `i`
being the coefficient of `x ^ i` (`toPoly`). A step multiplies it by `x` and takes the remainder of the
division by the generator `x ^ w + g` (`toPoly_step`), so a CRC is the remainder of the polynomial that
the message stands for (`toPoly_crc`). `readBits` reads bits in the order of transmission, the highest
coefficient first.
-/

namespace Crc
open Polynomial

/-- A bit as an element of the field. -/
def bit (b : Bool) : ZMod 2 := if b then 1 else 0

@[simp] lemma bit_false : bit false = 0 := rfl

@[simp] lemma bit_true : bit true = 1 := rfl

lemma bit_xor (a b : Bool) : bit (a ^^ b) = bit a + bit b := by
  cases a <;> cases b <;> decide

variable {w : ℕ}

/-- The register as a polynomial. -/
noncomputable def toPoly (c : BitVec w) : (ZMod 2)[X] :=
  ∑ i ∈ Finset.range w, C (bit (c.getLsbD i)) * X ^ i

/-- The generator, with its leading term. -/
noncomputable def modulus (g : BitVec w) : (ZMod 2)[X] := X ^ w + toPoly g

lemma coeff_toPoly (c : BitVec w) (n : ℕ) : (toPoly c).coeff n = bit (c.getLsbD n) := by
  rw [toPoly, finsetSum_coeff]
  simp only [coeff_C_mul_X_pow]
  rw [Finset.sum_ite_eq]
  split
  case isTrue => rfl
  case isFalse h =>
    rw [Finset.mem_range, not_lt] at h
    rw [BitVec.getLsbD_of_ge _ _ h, bit_false]

@[simp] lemma toPoly_zero : toPoly (0#w) = 0 := by
  ext n
  rw [coeff_toPoly, BitVec.getLsbD_zero, bit_false, coeff_zero]

lemma toPoly_xor (c d : BitVec w) : toPoly (c ^^^ d) = toPoly c + toPoly d := by
  ext n
  rw [coeff_add, coeff_toPoly, coeff_toPoly, coeff_toPoly, BitVec.getLsbD_xor, bit_xor]

lemma degree_toPoly_lt (c : BitVec w) : (toPoly c).degree < w := by
  rw [degree_lt_iff_coeff_zero]
  intro n hn
  rw [coeff_toPoly, BitVec.getLsbD_of_ge _ _ hn, bit_false]

lemma modulus_monic (g : BitVec w) : (modulus g).Monic := monic_X_pow_add (degree_toPoly_lt g)

lemma degree_modulus (g : BitVec w) : (modulus g).degree = w := by
  have h : (toPoly g).degree < (X ^ w : (ZMod 2)[X]).degree := by
    rw [degree_X_pow]
    exact degree_toPoly_lt g
  rw [modulus, degree_add_eq_left_of_degree_lt h, degree_X_pow]

/-- A shift multiplies by `x`, but for the bit that falls out. -/
lemma X_mul_toPoly (c : BitVec w) :
    X * toPoly c = toPoly (c <<< 1) + C (bit c.msb) * X ^ w := by
  ext n
  rw [coeff_add, coeff_C_mul_X_pow, coeff_toPoly, BitVec.getLsbD_shiftLeft,
    BitVec.msb_eq_getLsbD_last]
  cases n with
  | zero =>
    rw [coeff_X_mul_zero]
    split
    case isTrue h => simp [← h]
    case isFalse => simp
  | succ n =>
    rw [coeff_X_mul, coeff_toPoly]
    by_cases hn : n + 1 < w
    · simp [hn, Nat.ne_of_lt hn]
    · by_cases he : n + 1 = w
      · simp [← he]
      · rw [BitVec.getLsbD_of_ge _ _ (by omega)]
        simp [hn, he]

/-- A step is multiplication by `x` modulo the generator. -/
lemma toPoly_step (g c : BitVec w) : toPoly (step g c) = (X * toPoly c) %ₘ modulus g := by
  refine (div_modByMonic_unique (C (bit c.msb)) _ (modulus_monic g) ⟨?_, ?_⟩).2.symm
  · rw [X_mul_toPoly, modulus, step]
    cases c.msb with
    | false => simp
    | true =>
      -- the low part of the generator is added twice
      have h2 : toPoly g + toPoly g = 0 := CharTwo.add_self_eq_zero _
      rw [if_pos rfl, toPoly_xor, bit_true, C_1, mul_one, one_mul, add_assoc, add_comm (X ^ w),
        ← add_assoc (toPoly g), h2, zero_add]
  · rw [degree_modulus]
    exact degree_toPoly_lt _

/-- A factor can be reduced first. -/
lemma mul_modByMonic_right {q : (ZMod 2)[X]} (hq : q.Monic) (a b : (ZMod 2)[X]) :
    (a * (b %ₘ q)) %ₘ q = (a * b) %ₘ q := by
  apply modByMonic_eq_of_dvd_sub hq
  rw [← mul_sub]
  exact (dvd_modByMonic_sub b q).mul_left a

lemma toPoly_modByMonic (g c : BitVec w) : toPoly c %ₘ modulus g = toPoly c := by
  rw [modByMonic_eq_self_iff (modulus_monic g), degree_modulus]
  exact degree_toPoly_lt c

lemma toPoly_iterate (g : BitVec w) (n : ℕ) (c : BitVec w) :
    toPoly ((step g)^[n] c) = (X ^ n * toPoly c) %ₘ modulus g := by
  induction n with
  | zero => rw [Function.iterate_zero_apply, pow_zero, one_mul, toPoly_modByMonic]
  | succ n ih =>
    rw [Function.iterate_succ_apply', toPoly_step, ih, mul_modByMonic_right (modulus_monic g),
      pow_succ', mul_assoc]

/-- The polynomial of a message of which each word has its lowest bit `k` places above that of the word
after it, and the last word `k` places above the lowest. -/
noncomputable def wordsPoly (k : ℕ) (xs : List (BitVec w)) : (ZMod 2)[X] :=
  xs.foldl (fun p x => (p + toPoly x) * X ^ k) 0

lemma wordsPoly_concat (k : ℕ) (xs : List (BitVec w)) (x : BitVec w) :
    wordsPoly k (xs ++ [x]) = (wordsPoly k xs + toPoly x) * X ^ k := by
  simp [wordsPoly]

lemma crc_concat (g : BitVec w) (k : ℕ) (c : BitVec w) (xs : List (BitVec w)) (x : BitVec w) :
    crc g k c (xs ++ [x]) = (step g)^[k] (crc g k c xs ^^^ x) := by
  simp [crc]

/-- A CRC is the remainder of what was in the register, shifted through the message, and the
message. -/
theorem toPoly_crc (g : BitVec w) (k : ℕ) (c : BitVec w) (xs : List (BitVec w)) :
    toPoly (crc g k c xs) =
      (toPoly c * X ^ (k * xs.length) + wordsPoly k xs) %ₘ modulus g := by
  induction xs using List.reverseRecOn with
  | nil => simp [crc, wordsPoly, toPoly_modByMonic]
  | append_singleton xs x ih =>
    have hx := toPoly_modByMonic g x
    rw [crc_concat, toPoly_iterate, toPoly_xor, ih, ← hx, ← add_modByMonic,
      mul_modByMonic_right (modulus_monic g), wordsPoly_concat, List.length_append,
      List.length_singleton, Nat.mul_succ, pow_add]
    congr 1
    ring

/-! ## Strings of bits -/

/-- The polynomial with these coefficients, the highest first. -/
noncomputable def readBits (bits : List Bool) : (ZMod 2)[X] :=
  bits.foldl (fun p b => p * X + C (bit b)) 0

lemma readBits_concat (bits : List Bool) (b : Bool) :
    readBits (bits ++ [b]) = readBits bits * X + C (bit b) := by
  simp [readBits]

lemma readBits_append (bits more : List Bool) :
    readBits (bits ++ more) = readBits bits * X ^ more.length + readBits more := by
  induction more using List.reverseRecOn with
  | nil => simp [readBits]
  | append_singleton more b ih =>
    rw [← List.append_assoc, readBits_concat, ih, readBits_concat, List.length_append,
      List.length_singleton, pow_succ]
    ring

/-- The bits of a register, the most significant first. -/
def msbFirst (c : BitVec w) : List Bool := (List.range w).reverse.map c.getLsbD

@[simp] lemma length_msbFirst (c : BitVec w) : (msbFirst c).length = w := by simp [msbFirst]

/-- Reading the first `n` bits of a function of the place. -/
lemma readBits_range (f : ℕ → Bool) (n : ℕ) :
    readBits ((List.range n).reverse.map f) = ∑ i ∈ Finset.range n, C (bit (f i)) * X ^ i := by
  induction n with
  | zero => rfl
  | succ n ih =>
    have hb : readBits [f n] = C (bit (f n)) := by simp [readBits]
    rw [List.range_succ, List.reverse_append, List.reverse_singleton, List.map_append,
      List.map_singleton, readBits_append, ih, hb, Finset.sum_range_succ, List.length_map,
      List.length_reverse, List.length_range, add_comm]

lemma readBits_msbFirst (c : BitVec w) : readBits (msbFirst c) = toPoly c := readBits_range _ w

end Crc
