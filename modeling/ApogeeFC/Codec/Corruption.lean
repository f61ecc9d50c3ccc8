import ApogeeFC.Codec.FrameWire
import ApogeeFC.Lib.Crc

/-!
# What the CRC detects

Whether `decode` notices that a frame was corrupted. The exclusive or of two frames of one length is
determined by that of their CRC-covered bytes (`diff_frames`), and its ones are powers of `x` whose sum
is zero (`syndrome_places`). So an odd number of flipped bits is always noticed, and so are two of them,
since no frame is as long as the order of `x` (`bit_errors_detected`).

The CRC is stored low byte first, so the bits of the last covered byte and those of the first CRC byte
are not next to each other in the order in which the register sees them. Of all errors within two
adjacent bytes, one at this place goes unnoticed (`adjacent_bytes_detected_iff`).
-/

namespace ApogeeFC.Codec
open LittleEndian Crc

/-- The generator of `crc16_ccitt_false`, without its leading term. -/
abbrev generator : BitVec 16 := 0x1021#16

/-- A byte in the upper half of the register. -/
def high (byte : UInt8) : BitVec 16 := (byte.toUInt16 <<< 8).toBitVec

/-- A byte in the lower half of the register. -/
def low (byte : UInt8) : BitVec 16 := byte.toUInt16.toBitVec

/-- What `crc16_ccitt_false` makes of an error in the covered bytes. -/
def errorCrc (error : List UInt8) : BitVec 16 := crc generator 8 0#16 (error.map high)

/-- The bytewise exclusive or. -/
def diff (a b : List UInt8) : List UInt8 := List.zipWith (· ^^^ ·) a b

/-- The places of the ones in a byte. -/
def ones (byte : UInt8) : List ℕ := (List.range 8).filter fun k => byte.toNat.testBit k

/-- The number of bits in which two byte strings differ. -/
def bitDistance (a b : List UInt8) : ℕ := ((diff a b).map fun byte => (ones byte).length).sum

/-- The inner loop is the step of the register. -/
lemma toBitVec_crcBit (c : UInt16) : (crcBit c).toBitVec = step generator c.toBitVec := by
  have hm : c &&& 0x8000 ≠ 0 ↔ c.toBitVec.msb = true := by
    rw [Ne, ← UInt16.toBitVec_inj, BitVec.msb_eq_getLsbD_last]
    have h8 : (c &&& 0x8000).toBitVec = c.toBitVec &&& BitVec.twoPow 16 15 := rfl
    rw [h8, BitVec.and_twoPow]
    cases c.toBitVec.getLsbD 15 with
    | false => simp
    | true => simp
  rw [crcBit, step]
  by_cases h : c.toBitVec.msb = true
  · rw [if_pos (hm.mpr h), if_pos h]
    rfl
  · rw [if_neg (mt hm.mp h), if_neg h]
    rfl

lemma toBitVec_iterate (n : ℕ) (c : UInt16) :
    (crcBit^[n] c).toBitVec = (step generator)^[n] c.toBitVec := by
  induction n generalizing c with
  | zero => rfl
  | succ n ih =>
    rw [Function.iterate_succ_apply, ih, toBitVec_crcBit, Function.iterate_succ_apply]

/-- The outer loop is the CRC of the bytes in the upper half. -/
lemma toBitVec_foldl (c : UInt16) (bytes : List UInt8) :
    (bytes.foldl crcByte c).toBitVec = crc generator 8 c.toBitVec (bytes.map high) := by
  induction bytes generalizing c with
  | nil => rfl
  | cons b bytes ih =>
    rw [List.foldl_cons, ih, crcByte, toBitVec_iterate]
    rfl

lemma high_xor (a b : UInt8) : high (a ^^^ b) = high a ^^^ high b := by
  rw [high, UInt8.toUInt16_xor, UInt16.shiftLeft_xor]
  rfl

lemma map_high_diff (a b : List UInt8) :
    (diff a b).map high = List.zipWith (· ^^^ ·) (a.map high) (b.map high) := by
  rw [diff, List.map_zipWith, List.zipWith_map]
  simp only [high_xor]

/-- The CRCs of two byte strings differ by that of the error. -/
lemma crc_diff {a b : List UInt8} (h : a.length = b.length) :
    (crc16CcittFalse a).toBitVec ^^^ (crc16CcittFalse b).toBitVec = errorCrc (diff a b) := by
  rw [crc16CcittFalse, crc16CcittFalse, toBitVec_foldl, toBitVec_foldl, errorCrc, map_high_diff,
    ← crc_xor generator 8 (by simpa using h), BitVec.xor_self]

lemma diff_append {a a' b b' : List UInt8} (h : a.length = b.length) :
    diff (a ++ a') (b ++ b') = diff a b ++ diff a' b' := List.zipWith_append h

lemma diff_self (a : List UInt8) : diff a a = List.replicate a.length 0 := by
  refine List.ext_getElem (by simp [diff]) fun i h1 h2 => ?_
  simp [diff]

@[simp] lemma length_diff {a b : List UInt8} (h : a.length = b.length) :
    (diff a b).length = a.length := by
  simp [diff, h]

lemma bytes16_cut (v : UInt16) : bytes16 v = [v.toUInt8, (v >>> 8).toUInt8] := by
  have h : ∀ u : UInt16, (u &&& 0xFF).toUInt8 = u.toUInt8 := by
    intro u
    rw [UInt16.toUInt8_and]
    exact UInt8.and_neg_one
  rw [bytes16, h, h]

lemma diff_bytes16 (u v : UInt16) : diff (bytes16 u) (bytes16 v) = bytes16 (u ^^^ v) := by
  rw [bytes16_cut, bytes16_cut, bytes16_cut, UInt16.shiftRight_xor, UInt16.toUInt8_xor,
    UInt16.toUInt8_xor]
  rfl

/-- The difference of two frames of one length is an error in the covered bytes and the CRC of that
error. -/
lemma diff_frames {a b : List UInt8} (ha : (decode a).ok) (hb : (decode b).ok)
    (h : a.length = b.length) :
    ∃ error, error.length + 4 = a.length ∧ error.length ≤ 72 ∧
      diff a b = [0, 0] ++ (error ++ bytes16 (.ofBitVec (errorCrc error))) := by
  obtain ⟨t, -, seq, p, -, hp, e⟩ := decode_inv ha
  obtain ⟨t', -, seq', p', -, -, e'⟩ := decode_inv hb
  subst e; subst e'
  rw [length_wire, length_wire] at h
  have hbody : (wireBody t seq p).length = (wireBody t' seq' p').length := by
    rw [length_wireBody, length_wireBody]
    omega
  have hlen : (diff (wireBody t seq p) (wireBody t' seq' p')).length = 8 + p.length := by
    rw [length_diff hbody, length_wireBody]
  -- the sync pairs are equal, and the CRCs differ by that of the difference
  refine ⟨diff (wireBody t seq p) (wireBody t' seq' p'), by rw [hlen, length_wire]; omega, ?_, ?_⟩
  · rw [hlen]
    change p.length ≤ 64 at hp
    omega
  · rw [wire, wire, List.append_assoc, List.append_assoc, diff_append rfl, diff_append hbody,
      diff_bytes16, ← crc_diff hbody]
    rfl

/-- Both halves of the register, as powers. -/
lemma syndrome_halves (byte : UInt8) :
    syndrome generator (ones byte) = low byte ∧
      syndrome generator ((ones byte).map (8 + ·)) = high byte := by
  have hall : ∀ n < 256, syndrome generator (ones (UInt8.ofNat n)) = low (UInt8.ofNat n) ∧
      syndrome generator ((ones (UInt8.ofNat n)).map (8 + ·)) = high (UInt8.ofNat n) := by
    decide +kernel
  have h := hall byte.toNat byte.toNat_lt
  rwa [UInt8.ofNat_toNat] at h

lemma getLsbD_low {byte : UInt8} {i : ℕ} (hi : 8 ≤ i) : (low byte).getLsbD i = false := by
  rw [low, UInt8.toBitVec_toUInt16, BitVec.getLsbD_setWidth, BitVec.getLsbD_of_ge _ _ hi,
    Bool.and_false]

lemma getLsbD_high {byte : UInt8} {i : ℕ} (hi : i < 8) : (high byte).getLsbD i = false := by
  simp [high, hi]

/-- A word is the sum of its halves. -/
lemma word16_halves (b0 b1 : UInt8) : (word16 b0 b1).toBitVec = low b0 ^^^ high b1 := by
  have e : (word16 b0 b1).toBitVec = low b0 ||| high b1 := rfl
  refine BitVec.eq_of_getLsbD_eq fun i _ => ?_
  rw [e, BitVec.getLsbD_or, BitVec.getLsbD_xor]
  by_cases hi : i < 8
  · rw [getLsbD_high hi, Bool.or_false, Bool.xor_false]
  · rw [getLsbD_low (Nat.le_of_not_lt hi), Bool.false_or, Bool.false_xor]

/-- The places of the ones in an error in the covered bytes, and then in the two CRC bytes. -/
def places (error : List UInt8) (c0 c1 : UInt8) : List ℕ :=
  exponents 8 (error.map fun byte => (ones byte).map (8 + ·)) ++
    (ones c0 ++ (ones c1).map (8 + ·))

lemma length_places (error : List UInt8) (c0 c1 : UInt8) :
    (places error c0 c1).length =
      (error.map fun byte => (ones byte).length).sum + ((ones c0).length + (ones c1).length) := by
  simp [places, length_exponents, Function.comp_def]

/-- If the CRC bytes hold the CRC of the error, the powers at its ones add up to zero. -/
lemma syndrome_places {error : List UInt8} {c0 c1 : UInt8}
    (h : (word16 c0 c1).toBitVec = errorCrc error) :
    syndrome generator (places error c0 c1) = 0#16 := by
  have herr : syndrome generator (exponents 8 (error.map fun byte => (ones byte).map (8 + ·))) =
      errorCrc error := by
    rw [← crc_syndrome, errorCrc, List.map_map]
    congr 1
    exact List.map_congr_left fun byte _ => (syndrome_halves byte).2
  rw [places, syndrome_append, syndrome_append, herr, (syndrome_halves c0).1, (syndrome_halves c1).2,
    ← word16_halves, h, BitVec.xor_self]

lemma ones_lt {byte : UInt8} : ∀ k ∈ ones byte, k < 8 := by
  intro k hk
  exact List.mem_range.mp (List.mem_filter.mp hk).1

lemma nodup_ones (byte : UInt8) : (ones byte).Nodup := List.nodup_range.filter _

/-- The ones of a byte in the upper half. -/
lemma ones_high (byte : UInt8) :
    ((ones byte).map (8 + ·)).Nodup ∧ ∀ k ∈ (ones byte).map (8 + ·), 8 ≤ k ∧ k < 8 + 8 := by
  refine ⟨(nodup_ones byte).map fun a b => Nat.add_left_cancel, fun k hk => ?_⟩
  obtain ⟨m, hm, e⟩ := List.mem_map.mp hk
  have := ones_lt m hm
  omega

/-- No place comes twice, and all are within a frame. -/
lemma places_distinct {error : List UInt8} (h : error.length ≤ 72) (c0 c1 : UInt8) :
    (places error c0 c1).Nodup ∧ ∀ k ∈ places error c0 c1, k < 592 := by
  have hwords : ∀ ns ∈ error.map (fun byte => (ones byte).map (8 + ·)),
      ns.Nodup ∧ ∀ n ∈ ns, 8 ≤ n ∧ n < 8 + 8 := by
    rw [List.forall_mem_map]
    exact fun byte _ => ones_high byte
  have hrange := exponents_range fun ns hns => (hwords ns hns).2
  have hcrc : ∀ k ∈ ones c0 ++ (ones c1).map (8 + ·), k < 16 := by
    intro k hk
    obtain hk | hk := List.mem_append.mp hk
    · exact Nat.lt_trans (ones_lt k hk) (by decide)
    · exact ((ones_high c1).2 k hk).2
  constructor
  · refine List.nodup_append.mpr ⟨nodup_exponents hwords, ?_, fun a ha b hb => ?_⟩
    · refine List.nodup_append.mpr ⟨nodup_ones c0, (ones_high c1).1, fun a ha b hb => ?_⟩
      have h1 := ones_lt a ha
      have h2 := ((ones_high c1).2 b hb).1
      omega
    · have h1 := (hrange a ha).1
      have h2 := hcrc b hb
      omega
  · intro k hk
    obtain hk | hk := List.mem_append.mp hk
    · have h1 := (hrange k hk).2
      rw [List.length_map] at h1
      omega
    · exact Nat.lt_trans (hcrc k hk) (by decide)

/-- The order of `x` is more than the number of bits in a frame. -/
lemma power_ne_one : ∀ n, 0 < n → n < 592 → power generator n ≠ 1#16 := by
  have h : avoidsOne generator 591 1#16 = true := by decide +kernel
  exact fun n hn hlt => ne_one_of_avoidsOne h hn (Nat.le_of_lt_succ hlt)

/-- Two frames of one length differ in an even number of bits, and not in two. -/
lemma bitDistance_frames {a b : List UInt8} (ha : (decode a).ok) (hb : (decode b).ok)
    (h : a.length = b.length) : Even (bitDistance a b) ∧ bitDistance a b ≠ 2 := by
  obtain ⟨error, -, hle, e⟩ := diff_frames ha hb h
  obtain ⟨c0, c1, hc⟩ : ∃ c0 c1, bytes16 (.ofBitVec (errorCrc error)) = [c0, c1] := ⟨_, _, rfl⟩
  have hword : (word16 c0 c1).toBitVec = errorCrc error := by
    rw [word16_bytes16 _ _ _ hc]
  -- the ones of the difference are distinct powers whose sum is zero
  have hdist : bitDistance a b = (places error c0 c1).length := by
    rw [bitDistance, e, hc, length_places]
    simp [ones]
  have hz := syndrome_places hword
  rw [hdist]
  refine ⟨even_of_syndrome (by decide) (by decide) hz, fun htwo => ?_⟩
  obtain ⟨i, j, hij⟩ := List.length_eq_two.mp htwo
  obtain ⟨hnodup, hlt⟩ := places_distinct hle c0 c1
  rw [hij] at hz hnodup hlt
  refine syndrome_pair_ne (by decide) power_ne_one (hlt i (by simp)) (hlt j (by simp)) ?_ hz
  simpa using hnodup

/-- Guaranteed detection of bit errors: no byte string that differs from the encoding of a valid frame
in two bits, or in any odd number of bits, is accepted. -/
theorem bit_errors_detected {frame : Frame} (h : (encode frame).ok) {b : List UInt8}
    (hl : b.length = (encode frame).frame.view.length)
    (hd : bitDistance b (encode frame).frame.view = 2 ∨
      Odd (bitDistance b (encode frame).frame.view)) : ¬ (decode b).ok := by
  intro hb
  obtain ⟨heven, htwo⟩ := bitDistance_frames hb (decode_ok_iff.mpr ⟨frame, h, rfl⟩) hl
  obtain hd | hd := hd
  · exact htwo hd
  · exact Nat.not_odd_iff_even.mpr heven hd

/-- The top bits of a byte of the sequence number and of a byte of the payload. -/
theorem bit_errors_detected_three :
    ¬ (decode (((encode threeByteFrame).frame.view.set 6 0x84).set 12 0x87)).ok :=
  @bit_errors_detected threeByteFrame (by decide) _ (by decide +kernel) (.inl (by decide +kernel))

/-! ## Two adjacent bytes -/

lemma errorCrc_cons (byte : UInt8) (error : List UInt8) : errorCrc (byte :: error) =
    (step generator)^[8 * error.length + 8] (high byte) ^^^ errorCrc error := by
  rw [errorCrc, errorCrc, List.map_cons, crc_cons, crc_eq, BitVec.zero_xor, List.length_map,
    ← Function.iterate_add_apply]

lemma errorCrc_zero_cons (error : List UInt8) : errorCrc (0 :: error) = errorCrc error := by
  rw [errorCrc_cons, show high 0 = 0#16 from rfl, iterate_zero, BitVec.zero_xor]

lemma errorCrc_zeros (n : ℕ) (error : List UInt8) :
    errorCrc (List.replicate n 0 ++ error) = errorCrc error := by
  induction n with
  | zero => rfl
  | succ n ih => rw [List.replicate_succ, List.cons_append, errorCrc_zero_cons, ih]

/-- Half the register is a byte of shifts. -/
lemma iterate_low (byte : UInt8) : (step generator)^[8] (low byte) = high byte := by
  rw [← (syndrome_halves byte).1, iterate_syndrome, (syndrome_halves byte).2]

lemma pair_inj {a b c d : UInt8} (h : [a, b] = [c, d]) : a = c ∧ b = d := by simpa using h

lemma eq_zero_of_halves {b0 b1 : UInt8} (h : low b0 ^^^ high b1 = 0#16) : b0 = 0 ∧ b1 = 0 := by
  rw [← word16_halves] at h
  have hw : word16 b0 b1 = 0 := UInt16.toBitVec_inj.mp h
  have hb := bytes16_word16 b0 b1
  rw [hw] at hb
  exact pair_inj hb.symm

/-- An error of two bytes fits the register, so it cannot cancel itself out. -/
lemma errorCrc_pair {b0 b1 : UInt8} {n : ℕ}
    (h : errorCrc (b0 :: b1 :: List.replicate n 0) = 0#16) : b0 = 0 ∧ b1 = 0 := by
  have hz := errorCrc_zeros n []
  rw [List.append_nil] at hz
  rw [errorCrc_cons, errorCrc_cons, hz, show errorCrc [] = 0#16 from rfl, BitVec.xor_zero,
    List.length_cons, List.length_replicate, Nat.mul_succ, ← iterate_low b1,
    ← Function.iterate_add_apply, ← iterate_xor] at h
  have hhalves := eq_zero_of_iterate (by decide) h
  rw [BitVec.xor_comm] at hhalves
  exact (eq_zero_of_halves hhalves).symm

/-- Nothing but the entries at `i` and `i + 1` differs from zero. -/
def ZeroBut (i : ℕ) (error : List UInt8) : Prop :=
  ∀ k e, error[k]? = some e → k ≠ i → k ≠ i + 1 → e = 0

lemma ZeroBut.left {i : ℕ} {xs ys : List UInt8} (h : ZeroBut i (xs ++ ys)) : ZeroBut i xs := by
  intro k e hk
  refine h k e ?_
  rwa [List.getElem?_append_left (List.getElem?_eq_some_iff.mp hk).1]

/-- Everything up to `i` is zero. -/
lemma ZeroBut.before {i : ℕ} {error : List UInt8} (h : ZeroBut i error) (hi : error.length ≤ i) :
    ∀ e ∈ error, e = 0 := by
  intro e he
  obtain ⟨k, hk⟩ := List.mem_iff_getElem?.mp he
  have hlt := (List.getElem?_eq_some_iff.mp hk).1
  exact h k e hk (by omega) (by omega)

/-- Everything from `i + 2` on is zero. -/
lemma ZeroBut.after {b0 b1 : UInt8} {error : List UInt8} (h : ZeroBut 0 (b0 :: b1 :: error)) :
    ∀ e ∈ error, e = 0 := by
  intro e he
  obtain ⟨k, hk⟩ := List.mem_iff_getElem?.mp he
  exact h (k + 2) e hk (by omega) (by omega)

lemma ZeroBut.tail {i : ℕ} {b0 : UInt8} {error : List UInt8} (h : ZeroBut (i + 1) (b0 :: error)) :
    b0 = 0 ∧ ZeroBut i error :=
  ⟨h 0 b0 rfl (by omega) (by omega), fun k e hk h0 h1 => h (k + 1) e hk (by omega) (by omega)⟩

lemma eq_replicate {error : List UInt8} (h : ∀ e ∈ error, e = 0) :
    error = List.replicate error.length 0 := List.eq_replicate_iff.mpr ⟨rfl, h⟩

/-- An error within two adjacent covered bytes is noticed. -/
lemma errorCrc_adjacent {error : List UInt8} {i : ℕ} (hz : ZeroBut i error)
    (h : errorCrc error = 0#16) : ∀ e ∈ error, e = 0 := by
  induction error generalizing i with
  | nil => simp
  | cons b0 error ih =>
    cases i with
    | succ i =>
      obtain ⟨hb, hz'⟩ := hz.tail
      subst hb
      rw [errorCrc_zero_cons] at h
      rw [List.forall_mem_cons]
      exact ⟨rfl, ih hz' h⟩
    | zero =>
      cases error with
      | nil =>
        rw [errorCrc_cons, show errorCrc [] = 0#16 from rfl, BitVec.xor_zero] at h
        have hb := eq_zero_of_iterate (by decide) h
        have hh : low 0 ^^^ high b0 = 0#16 := by rw [hb]; rfl
        simpa using (eq_zero_of_halves hh).2
      -- the zeros behind the two bytes only shift their CRC
      | cons b1 error =>
        have hrest := hz.after
        rw [eq_replicate hrest] at h
        obtain ⟨e0, e1⟩ := errorCrc_pair h
        subst e0; subst e1
        simpa using hrest

/-- Of the errors in the last covered byte, one has a CRC that fits the low byte. -/
lemma errorCrc_last {byte c0 : UInt8}
    (h : bytes16 (.ofBitVec (errorCrc [byte])) = [c0, 0]) :
    byte = 0 ∧ c0 = 0 ∨ byte = 0x89 ∧ c0 = 0xA1 := by
  have hall : ∀ n < 256, (bytes16 (.ofBitVec (errorCrc [UInt8.ofNat n])))[1]? = some 0 →
      UInt8.ofNat n = 0 ∨ UInt8.ofNat n = 0x89 := by
    decide +kernel
  have hb := hall byte.toNat byte.toNat_lt
  rw [UInt8.ofNat_toNat] at hb
  obtain e | e := hb (by rw [h]; rfl)
  · subst e
    have h0 : bytes16 (.ofBitVec (errorCrc [0])) = [0, 0] := by decide
    rw [h0] at h
    exact .inl ⟨rfl, (pair_inj h).1.symm⟩
  · subst e
    have h0 : bytes16 (.ofBitVec (errorCrc [0x89])) = [0xA1, 0] := by decide +kernel
    rw [h0] at h
    exact .inr ⟨rfl, (pair_inj h).1.symm⟩

lemma errorCrc_eq_zero {error : List UInt8} (h : bytes16 (.ofBitVec (errorCrc error)) = [0, 0]) :
    errorCrc error = 0#16 := by
  have hw := word16_bytes16 _ _ _ h
  exact (congrArg UInt16.toBitVec hw).symm

lemma errorCrc_replicate (n : ℕ) : errorCrc (List.replicate n 0) = 0#16 := by
  have h := errorCrc_zeros n []
  rw [List.append_nil] at h
  exact h

/-- An error within two adjacent bytes after the sync pair that the CRC does not notice is the one at
the boundary. -/
lemma adjacent_error {error : List UInt8} {c0 c1 : UInt8} {i : ℕ}
    (hz : ZeroBut i (error ++ [c0, c1]))
    (hc : bytes16 (.ofBitVec (errorCrc error)) = [c0, c1]) :
    (∀ e ∈ error ++ [c0, c1], e = 0) ∨
      i + 1 = error.length ∧ error[i]? = some 0x89 ∧ c0 = 0xA1 := by
  have hc0 : (error ++ [c0, c1])[error.length]? = some c0 := by simp
  have hc1 : (error ++ [c0, c1])[error.length + 1]? = some c1 := by simp
  obtain hi | hi | hi := Nat.lt_trichotomy (i + 1) error.length
  · -- both CRC bytes are right
    have e0 : c0 = 0 := hz _ _ hc0 (by omega) (by omega)
    have e1 : c1 = 0 := hz _ _ hc1 (by omega) (by omega)
    subst e0; subst e1
    have hzero := errorCrc_adjacent hz.left (errorCrc_eq_zero hc)
    left
    simpa [or_imp, forall_and] using hzero
  · -- the last covered byte and the first CRC byte
    have e1 : c1 = 0 := hz _ _ hc1 (by omega) (by omega)
    subst e1
    obtain e | ⟨init, x, e⟩ := List.eq_nil_or_concat' error
    · subst e
      cases hi
    subst e
    rw [List.length_append, List.length_singleton] at hi
    have hlast : i = init.length := Nat.succ.inj hi
    subst hlast
    have hinit := hz.left.left.before (Nat.le_refl _)
    rw [eq_replicate hinit, errorCrc_zeros] at hc
    obtain ⟨ex, e0⟩ | ⟨ex, e0⟩ := errorCrc_last hc
    · subst ex; subst e0
      left
      simpa [or_imp, forall_and] using hinit
    · subst ex; subst e0
      exact .inr ⟨by simp, by simp, rfl⟩
  · -- all covered bytes are right
    have hzero := hz.left.before (Nat.le_of_lt_succ hi)
    rw [eq_replicate hzero, errorCrc_replicate] at hc
    obtain ⟨e0, e1⟩ := pair_inj hc
    subst e0; subst e1
    left
    simpa [or_imp, forall_and] using hzero

lemma eq_xor_of_xor {a b e : UInt8} (h : a ^^^ b = e) : a = b ^^^ e := by
  subst h
  rw [UInt8.xor_comm a b, ← UInt8.xor_assoc, UInt8.xor_self, UInt8.zero_xor]

/-- The entries of the difference. -/
lemma getElem?_diff {a b : List UInt8} {k : ℕ} {e : UInt8} :
    (diff a b)[k]? = some e ↔ ∃ x y, a[k]? = some x ∧ b[k]? = some y ∧ x ^^^ y = e :=
  List.getElem?_zipWith_eq_some

/-- Strings whose difference is zero are equal. -/
lemma eq_of_diff {a b : List UInt8} (h : a.length = b.length) (hz : ∀ e ∈ diff a b, e = 0) :
    a = b := by
  refine List.ext_getElem h fun k h1 h2 => ?_
  have he := getElem?_diff.mpr
    ⟨_, _, List.getElem?_eq_getElem h1, List.getElem?_eq_getElem h2, rfl⟩
  exact UInt8.xor_eq_zero_iff.mp (hz _ (List.mem_of_getElem? he))

/-- Some frame of the same type and length has any other byte before the CRC. -/
lemma wireBody_last (t : UInt8) (seq : UInt32) (p : List UInt8) :
    ∃ init x, wireBody t seq p = init ++ [x] ∧
      ∀ y, ∃ seq' p', p'.length = p.length ∧ wireBody t seq' p' = init ++ [y] := by
  obtain e | ⟨p0, x, e⟩ := List.eq_nil_or_concat' p
  · subst e
    obtain ⟨s0, s1, s2, s3, hs⟩ : ∃ s0 s1 s2 s3, bytes32 seq = [s0, s1, s2, s3] :=
      ⟨_, _, _, _, rfl⟩
    refine ⟨[protocolVersion, t] ++ bytes16 0 ++ [s0, s1, s2], s3, ?_, fun y => ?_⟩
    · rw [wireBody, hs]
      simp
    · refine ⟨word32 s0 s1 s2 y, [], rfl, ?_⟩
      rw [wireBody, bytes32_word32]
      simp
  · subst e
    refine ⟨[protocolVersion, t] ++ bytes16 (.ofNat (p0 ++ [x]).length) ++ bytes32 seq ++ p0, x, ?_,
      fun y => ⟨seq, p0 ++ [y], by simp, ?_⟩⟩
    · simp [wireBody]
    · simp [wireBody]

/-- What the error in the last covered byte does to the CRC. -/
lemma crc_last (init : List UInt8) (x : UInt8) :
    crc16CcittFalse (init ++ [x ^^^ 0x89]) ^^^ crc16CcittFalse (init ++ [x]) =
      .ofBitVec (errorCrc [0x89]) := by
  have hx : x ^^^ 0x89 ^^^ x = 0x89 := by
    rw [UInt8.xor_comm x, UInt8.xor_assoc, UInt8.xor_self, UInt8.xor_zero]
  have hdiff : diff (init ++ [x ^^^ 0x89]) (init ++ [x]) = List.replicate init.length 0 ++ [0x89] := by
    rw [diff_append rfl, diff_self]
    exact congrArg (List.replicate init.length 0 ++ [·]) hx
  have h := @crc_diff (init ++ [x ^^^ 0x89]) (init ++ [x]) (by simp)
  rw [hdiff, errorCrc_zeros] at h
  exact UInt16.toBitVec_inj.mp h

/-- The error at the boundary makes another frame of a frame. -/
lemma boundary_error (t : UInt8) (seq : UInt32) (p : List UInt8) :
    ∃ init x c0 c1, wire t seq p = init ++ [x, c0, c1] ∧
      ∃ seq' p', p'.length = p.length ∧
        wire t seq' p' = init ++ [x ^^^ 0x89, c0 ^^^ 0xA1, c1] := by
  obtain ⟨init, x, hbody, hother⟩ := wireBody_last t seq p
  obtain ⟨seq', p', hp, hbody'⟩ := hother (x ^^^ 0x89)
  obtain ⟨c0, c1, hc⟩ : ∃ c0 c1, bytes16 (crc16CcittFalse (init ++ [x])) = [c0, c1] := ⟨_, _, rfl⟩
  obtain ⟨d0, d1, hd⟩ : ∃ d0 d1, bytes16 (crc16CcittFalse (init ++ [x ^^^ 0x89])) = [d0, d1] :=
    ⟨_, _, rfl⟩
  have hcrc := diff_bytes16 (crc16CcittFalse (init ++ [x ^^^ 0x89])) (crc16CcittFalse (init ++ [x]))
  have h89 : bytes16 (.ofBitVec (errorCrc [0x89])) = [0xA1, 0] := by decide +kernel
  rw [hc, hd, crc_last, h89] at hcrc
  obtain ⟨h0, h1⟩ := pair_inj hcrc
  have e0 := eq_xor_of_xor h0
  have e1 := UInt8.xor_eq_zero_iff.mp h1
  subst e0; subst e1
  refine ⟨[0xA5, 0x5A] ++ init, x, c0, d1, ?_, seq', p', hp, ?_⟩
  · rw [wire, hbody, hc]
    simp
  · rw [wire, hbody', hd]
    simp

lemma getElem?_of_diff {a b : List UInt8} {k : ℕ} {e : UInt8} (h : (diff a b)[k]? = some e) :
    a[k]? = b[k]?.map (· ^^^ e) := by
  obtain ⟨x, y, hx, hy, he⟩ := getElem?_diff.mp h
  rw [hx, hy, eq_xor_of_xor he]
  rfl

/-- What differs within two adjacent bytes has no other ones in its difference. -/
lemma zeroBut_diff {a b : List UInt8} {i : ℕ}
    (hd : ∀ k, k ≠ i → k ≠ i + 1 → a[k]? = b[k]?) : ZeroBut i (diff a b) := by
  intro k e hk h0 h1
  obtain ⟨x, y, hx, hy, he⟩ := getElem?_diff.mp hk
  rw [hd k h0 h1, hy] at hx
  rw [← he, Option.some.inj hx, UInt8.xor_self]

/-- Two frames that differ only within two adjacent bytes differ at the boundary. -/
lemma boundary_of_frames {a b : List UInt8} (ha : (decode a).ok) (hb : (decode b).ok)
    (h : a.length = b.length) {i : ℕ} (hd : ∀ k, k ≠ i → k ≠ i + 1 → a[k]? = b[k]?)
    (hne : a ≠ b) :
    i + 3 = b.length ∧ a[i]? = b[i]?.map (· ^^^ 0x89) ∧ a[i + 1]? = b[i + 1]?.map (· ^^^ 0xA1) := by
  obtain ⟨error, hlen, -, e⟩ := diff_frames ha hb h
  obtain ⟨c0, c1, hc⟩ : ∃ c0 c1, bytes16 (.ofBitVec (errorCrc error)) = [c0, c1] := ⟨_, _, rfl⟩
  rw [hc] at e
  have hz := zeroBut_diff hd
  rw [e] at hz
  -- counted from behind the sync pair, which is intact
  have hz' : ZeroBut (i - 2) (error ++ [c0, c1]) :=
    fun k x hk h0 h1 => hz (k + 2) x hk (by omega) (by omega)
  obtain hzero | ⟨hi, h89, e0⟩ := adjacent_error hz' hc
  · refine absurd (eq_of_diff h ?_) hne
    rw [e]
    simpa using hzero
  · subst e0
    have hmin := length_of_decode ha
    obtain ⟨j, ej⟩ : ∃ j, i = j + 2 := ⟨i - 2, by omega⟩
    subst ej
    rw [Nat.add_sub_cancel] at hi h89
    refine ⟨by omega, getElem?_of_diff ?_, getElem?_of_diff ?_⟩
    · rw [e]
      change (error ++ [0xA1, c1])[j]? = some 0x89
      rw [List.getElem?_append_left (by omega), h89]
    · rw [e]
      change (error ++ [0xA1, c1])[j + 1]? = some 0xA1
      rw [hi]
      simp

/-- A string that differs from another only in the first two of its last three bytes. -/
lemma eq_of_boundary {b init : List UInt8} {x y x' y' c : UInt8}
    (hd : ∀ k, k ≠ init.length → k ≠ init.length + 1 → b[k]? = (init ++ [x, y, c])[k]?)
    (h0 : b[init.length]? = some x') (h1 : b[init.length + 1]? = some y') :
    b = init ++ [x', y', c] := by
  refine List.ext_getElem? fun k => ?_
  by_cases hk0 : k = init.length
  · rw [hk0, h0]
    simp
  by_cases hk1 : k = init.length + 1
  · rw [hk1, h1]
    simp
  rw [hd k hk0 hk1]
  obtain hlt | hge := Nat.lt_or_ge k init.length
  · rw [List.getElem?_append_left hlt, List.getElem?_append_left hlt]
  · obtain ⟨m, em⟩ : ∃ m, k = init.length + (m + 2) := ⟨k - init.length - 2, by omega⟩
    rw [List.getElem?_append_right hge, List.getElem?_append_right hge, em, Nat.add_sub_cancel_left]
    rfl

/-- Two adjacent corrupted bytes are always noticed, but for one error at the boundary between the
covered bytes and the CRC, which never is. -/
theorem adjacent_bytes_detected_iff {frame : Frame} (h : (encode frame).ok) {b : List UInt8}
    (hl : b.length = (encode frame).frame.view.length) {i : ℕ}
    (hi : i + 1 < (encode frame).frame.view.length)
    (hd : ∀ k, k ≠ i → k ≠ i + 1 → b[k]? = (encode frame).frame.view[k]?)
    (hne : b ≠ (encode frame).frame.view) :
    (decode b).ok ↔
      i + 3 = (encode frame).frame.view.length ∧
        b[i]? = (encode frame).frame.view[i]?.map (· ^^^ 0x89) ∧
        b[i + 1]? = (encode frame).frame.view[i + 1]?.map (· ^^^ 0xA1) := by
  have hw : (decode (encode frame).frame.view).ok := decode_ok_iff.mpr ⟨frame, h, rfl⟩
  refine ⟨fun hb => boundary_of_frames hb hw hl hd hne, ?_⟩
  rintro ⟨hlast, h0, h1⟩
  obtain ⟨t, type, seq, p, ht, hp, e⟩ := decode_inv hw
  obtain ⟨init, x, c0, c1, e', seq', p', hp', hother⟩ := boundary_error t seq p
  rw [e, e'] at hd hlast h0 h1
  have hinit : i = init.length := by
    simp only [List.length_append, List.length_cons, List.length_nil] at hlast
    omega
  subst hinit
  have hx : b[init.length]? = some (x ^^^ 0x89) := h0.trans (by simp)
  have hc : b[init.length + 1]? = some (c0 ^^^ 0xA1) := h1.trans (by simp)
  rw [eq_of_boundary hd hx hc, ← hother, decode_wire ht (by simpa [hp'] using hp)]
  rfl

/-- The last byte of the payload and the first CRC byte. -/
theorem adjacent_bytes_detected_iff_three :
    (decode (((encode threeByteFrame).frame.view.set 12 0x8E).set 13 0x9E)).ok :=
  (@adjacent_bytes_detected_iff threeByteFrame (by decide) _ (by decide +kernel) 12
    (by decide +kernel)
    (fun k h0 h1 => by rw [List.getElem?_set_ne h1.symm, List.getElem?_set_ne h0.symm])
    (by decide +kernel)).mpr (by decide +kernel)

/-- Errors within two adjacent bytes are not always noticed: the payload of a one-byte command and the
first CRC byte. -/
theorem adjacent_bytes_undetected :
    ¬ ∀ (frame : Frame) (b : List UInt8) (i : ℕ), (encode frame).ok →
      b.length = (encode frame).frame.view.length →
      i + 1 < (encode frame).frame.view.length →
      (∀ k, k ≠ i → k ≠ i + 1 → b[k]? = (encode frame).frame.view[k]?) →
      b ≠ (encode frame).frame.view → ¬ (decode b).ok := by
  intro h
  refine h { messageType := .command, payloadLength := 1 }
    (((encode { messageType := .command, payloadLength := 1 }).frame.view.set 10 0x89).set 11 0x25) 10
    (by decide +kernel) (by decide +kernel) (by decide +kernel) (fun k h0 h1 => ?_)
    (by decide +kernel) (by decide +kernel)
  rw [List.getElem?_set_ne h1.symm, List.getElem?_set_ne h0.symm]

end ApogeeFC.Codec
