import ApogeeFC.Codec.Corruption
import ApogeeFC.Lib.CrcPoly

/-!
# The CRC is a remainder

`crc16_ccitt_false` divides polynomials over the field of two elements. The message is read bit by bit,
the most significant bit of each byte first, as a polynomial without bound on its degree; the result is
the remainder of the message, shifted by the width of the register, and the initial value, shifted
through the message.
-/

namespace ApogeeFC.Codec
open Crc Polynomial

/-- A byte string as a polynomial of `8 * m.length` coefficients, the highest first. -/
noncomputable def messagePoly (m : List UInt8) : (ZMod 2)[X] :=
  readBits (m.flatMap fun byte => msbFirst byte.toBitVec)

lemma messagePoly_concat (m : List UInt8) (byte : UInt8) :
    messagePoly (m ++ [byte]) = messagePoly m * X ^ 8 + toPoly byte.toBitVec := by
  rw [messagePoly, List.flatMap_append, List.flatMap_singleton, readBits_append, length_msbFirst,
    readBits_msbFirst]
  rfl

/-- The byte is put in the upper half of the register. -/
lemma toPoly_high (byte : UInt8) : toPoly (high byte) = toPoly byte.toBitVec * X ^ 8 := by
  ext n
  have hbit : (high byte).getLsbD n = (decide (8 ≤ n) && byte.toBitVec.getLsbD (n - 8)) := by
    by_cases h8 : 8 ≤ n
    · by_cases h16 : n < 16
      · simp [high, h8, h16]
      · rw [BitVec.getLsbD_of_ge _ _ (Nat.le_of_not_lt h16), BitVec.getLsbD_of_ge _ (n - 8) (by omega),
          Bool.and_false]
    · simp [high, h8]
  rw [coeff_mul_X_pow', coeff_toPoly, coeff_toPoly, hbit]
  split
  case isTrue h => simp [h]
  case isFalse h => simp [h]

/-- The words of the register run are the message, shifted by its width. -/
lemma wordsPoly_high (m : List UInt8) : wordsPoly 8 (m.map high) = messagePoly m * X ^ 16 := by
  induction m using List.reverseRecOn with
  | nil => simp [wordsPoly, messagePoly, readBits]
  | append_singleton m byte ih =>
    rw [List.map_append, List.map_singleton, wordsPoly_concat, ih, toPoly_high, messagePoly_concat]
    ring

/-- The generator of CCITT, with its leading term. -/
lemma modulus_generator : modulus generator = X ^ 16 + X ^ 12 + X ^ 5 + 1 := by
  have hbits : ∀ i < 16, generator.getLsbD i = decide (i = 0 ∨ i = 5 ∨ i = 12) := by decide
  have hlow : toPoly generator =
      ∑ i ∈ Finset.range 16, C (bit (decide (i = 0 ∨ i = 5 ∨ i = 12))) * X ^ i :=
    Finset.sum_congr rfl fun i hi => by rw [hbits i (Finset.mem_range.mp hi)]
  have hsum : toPoly generator = 1 + X ^ 5 + X ^ 12 := by
    rw [hlow]
    simp [Finset.sum_range_succ]
  rw [modulus, hsum]
  ring

/-- The initial value has all its coefficients. -/
lemma toPoly_initial : toPoly (0xFFFF#16) = ∑ i ∈ Finset.range 16, X ^ i := by
  refine Finset.sum_congr rfl fun i hi => ?_
  have hbits : ∀ i < 16, (0xFFFF#16).getLsbD i = true := by decide
  rw [hbits i (Finset.mem_range.mp hi), bit_true, C_1, one_mul]

/-- `crc16_ccitt_false` computes the coefficients of the remainder, for messages of any length. -/
theorem crc_remainder (m : List UInt8) (i : ℕ) :
    ((messagePoly m * X ^ 16 + (∑ j ∈ Finset.range 16, X ^ j) * X ^ (8 * m.length)) %ₘ
      (X ^ 16 + X ^ 12 + X ^ 5 + 1)).coeff i = bit ((crc16CcittFalse m).toNat.testBit i) := by
  have hcrc := toPoly_crc generator 8 0xFFFF#16 (m.map high)
  have hfold : (crc16CcittFalse m).toBitVec = crc generator 8 0xFFFF#16 (m.map high) :=
    toBitVec_foldl 0xFFFF m
  rw [← hfold, wordsPoly_high, modulus_generator, toPoly_initial, List.length_map, add_comm] at hcrc
  rw [← hcrc, coeff_toPoly]
  rfl

end ApogeeFC.Codec
