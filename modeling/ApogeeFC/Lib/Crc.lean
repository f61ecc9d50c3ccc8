import Mathlib.Algebra.Ring.Parity
import Mathlib.Data.List.Nodup
import Mathlib.Logic.Function.Iterate
import Mathlib.Tactic.Common

/-!
# Cyclic redundancy checks

A register of `w` bits that is shifted up one place at a time and, when a one falls out, reduced by the
low part `g` of the generator: multiplication by `x` in the polynomials modulo the generator. `crc`
runs it over a message, `k` places for each word.

Everything is linear in exclusive or, so whether an error goes unnoticed does not depend on the message
but on the error alone. An error is given by the powers of `x` at the places it flips, and it goes
unnoticed exactly if these add up to zero (`syndrome`). That cannot be if their number is odd and the
generator has an even number of terms (`even_of_syndrome`), nor for two of them that are closer than
the order of `x` (`syndrome_pair_ne`).
-/

namespace Crc

variable {w : ℕ} (g : BitVec w)

/-- Shift by one place, modulo the generator. -/
def step (c : BitVec w) : BitVec w := if c.msb then (c <<< 1) ^^^ g else c <<< 1

/-- `k` places for each word of the message. -/
def crc (k : ℕ) (c : BitVec w) (xs : List (BitVec w)) : BitVec w :=
  xs.foldl (fun c x => (step g)^[k] (c ^^^ x)) c

/-- The power `x ^ n`. -/
def power (n : ℕ) : BitVec w := (step g)^[n] 1#w

/-- The sum of powers of `x`. -/
def syndrome (ns : List ℕ) : BitVec w := ns.foldr (fun n c => power g n ^^^ c) 0#w

@[simp] lemma syndrome_nil : syndrome g [] = 0#w := rfl

@[simp] lemma syndrome_cons (n : ℕ) (ns : List ℕ) :
    syndrome g (n :: ns) = power g n ^^^ syndrome g ns := rfl

/-! ## Linearity -/

@[simp] lemma step_zero : step g 0#w = 0#w := by simp [step]

lemma step_xor (a b : BitVec w) : step g (a ^^^ b) = step g a ^^^ step g b := by
  have hd := BitVec.shiftLeft_xor_distrib a b 1
  rw [step, step, step, BitVec.msb_xor, hd]
  cases a.msb with
  | false =>
    cases b.msb with
    | false => rfl
    | true => exact BitVec.xor_assoc _ _ _
  | true =>
    cases b.msb with
    | false =>
      simp only [Bool.xor_false, if_true, Bool.false_eq_true, if_false]
      ac_rfl
    | true =>
      -- both are reduced, and their sum need not be
      have hg : a <<< 1 ^^^ g ^^^ (b <<< 1 ^^^ g) = a <<< 1 ^^^ b <<< 1 ^^^ (g ^^^ g) := by ac_rfl
      simp only [Bool.xor_self, Bool.false_eq_true, if_false, if_true, hg, BitVec.xor_self,
        BitVec.xor_zero]

@[simp] lemma iterate_zero (n : ℕ) : (step g)^[n] 0#w = 0#w :=
  Function.iterate_fixed (step_zero g) n

lemma iterate_xor (n : ℕ) (a b : BitVec w) :
    (step g)^[n] (a ^^^ b) = (step g)^[n] a ^^^ (step g)^[n] b := by
  induction n generalizing a b with
  | zero => rfl
  | succ n ih => rw [Function.iterate_succ_apply, step_xor, ih]; rfl

/-- The CRC of a sum of messages is the sum of their CRCs. -/
lemma crc_xor (k : ℕ) {xs ys : List (BitVec w)} (h : xs.length = ys.length) (c d : BitVec w) :
    crc g k (c ^^^ d) (List.zipWith (· ^^^ ·) xs ys) = crc g k c xs ^^^ crc g k d ys := by
  induction xs generalizing c d ys with
  | nil =>
    rw [List.length_nil] at h
    rw [List.length_eq_zero_iff.mp h.symm]
    rfl
  | cons x xs ih =>
    cases ys with
    | nil => cases h
    | cons y ys =>
      have e : c ^^^ d ^^^ (x ^^^ y) = c ^^^ x ^^^ (d ^^^ y) := by ac_rfl
      rw [List.zipWith_cons_cons, crc, List.foldl_cons, e, iterate_xor]
      exact ih (Nat.succ.inj h) _ _

lemma crc_cons (k : ℕ) (c x : BitVec w) (xs : List (BitVec w)) :
    crc g k c (x :: xs) = crc g k ((step g)^[k] (c ^^^ x)) xs := rfl

/-- Zeros only shift. -/
lemma crc_replicate (k : ℕ) (c : BitVec w) (n : ℕ) :
    crc g k c (List.replicate n 0#w) = (step g)^[k * n] c := by
  induction n generalizing c with
  | zero => rfl
  | succ n ih =>
    rw [List.replicate_succ, crc_cons, ih, BitVec.xor_zero, ← Function.iterate_add_apply]
    rfl

/-- What a register starts with is shifted through the message. -/
lemma crc_eq (k : ℕ) (c : BitVec w) (xs : List (BitVec w)) :
    crc g k c xs = (step g)^[k * xs.length] c ^^^ crc g k 0#w xs := by
  -- the run is the sum of one over zeros from `c` and one over the message from zero
  have hlen : (List.replicate xs.length 0#w).length = xs.length := List.length_replicate
  have h := crc_xor g k hlen c 0#w
  have hz : List.zipWith (· ^^^ ·) (List.replicate xs.length 0#w) xs = xs := by
    refine List.ext_getElem (by simp) fun i h1 h2 => ?_
    simp
  rw [hz, BitVec.xor_zero, crc_replicate] at h
  exact h

/-! ## Powers and syndromes -/

lemma iterate_power (k n : ℕ) : (step g)^[k] (power g n) = power g (k + n) :=
  (Function.iterate_add_apply (step g) k n 1#w).symm

lemma syndrome_append (ns ms : List ℕ) :
    syndrome g (ns ++ ms) = syndrome g ns ^^^ syndrome g ms := by
  induction ns with
  | nil => simp
  | cons n ns ih => rw [List.cons_append, syndrome_cons, syndrome_cons, ih, BitVec.xor_assoc]

/-- Shifting a sum shifts the powers. -/
lemma iterate_syndrome (k : ℕ) (ns : List ℕ) :
    (step g)^[k] (syndrome g ns) = syndrome g (ns.map (k + ·)) := by
  induction ns with
  | nil => simp
  | cons n ns ih =>
    rw [syndrome_cons, iterate_xor, iterate_power, ih, List.map_cons, syndrome_cons]

/-- The powers of a message whose words are given by powers. -/
def exponents (k : ℕ) : List (List ℕ) → List ℕ
  | [] => []
  | ns :: words => ns.map (k * (words.length + 1) + ·) ++ exponents k words

lemma crc_syndrome (k : ℕ) (words : List (List ℕ)) :
    crc g k 0#w (words.map (syndrome g)) = syndrome g (exponents k words) := by
  induction words with
  | nil => rfl
  | cons ns words ih =>
    rw [List.map_cons, crc_cons, crc_eq, ih, exponents, syndrome_append, BitVec.zero_xor,
      List.length_map, ← Function.iterate_add_apply, iterate_syndrome, Nat.mul_succ]

lemma length_exponents (k : ℕ) (words : List (List ℕ)) :
    (exponents k words).length = (words.map List.length).sum := by
  induction words with
  | nil => rfl
  | cons ns words ih => simp [exponents, ih]

/-- If the words have their powers in one range of `k`, the message has its powers in one range. -/
lemma exponents_range {k lo : ℕ} {words : List (List ℕ)}
    (h : ∀ ns ∈ words, ∀ n ∈ ns, lo ≤ n ∧ n < lo + k) :
    ∀ n ∈ exponents k words, lo + k ≤ n ∧ n < lo + k * (words.length + 1) := by
  induction words with
  | nil => simp [exponents]
  | cons ns words ih =>
    rw [List.forall_mem_cons] at h
    intro n hn
    rw [List.length_cons, Nat.mul_succ]
    rw [exponents, List.mem_append, List.mem_map] at hn
    obtain ⟨m, hm, e⟩ | hn := hn
    · obtain ⟨h1, h2⟩ := h.1 m hm
      have hk : k ≤ k * (words.length + 1) := Nat.le_mul_of_pos_right k (Nat.succ_pos _)
      omega
    · obtain ⟨h1, h2⟩ := ih h.2 n hn
      omega

/-- Then its powers are distinct if those of each word are. -/
lemma nodup_exponents {k lo : ℕ} {words : List (List ℕ)}
    (h : ∀ ns ∈ words, ns.Nodup ∧ ∀ n ∈ ns, lo ≤ n ∧ n < lo + k) : (exponents k words).Nodup := by
  induction words with
  | nil => exact List.nodup_nil
  | cons ns words ih =>
    rw [List.forall_mem_cons] at h
    refine List.nodup_append.mpr ⟨h.1.1.map fun a b => Nat.add_left_cancel, ih h.2, ?_⟩
    intro a ha b hb
    obtain ⟨m, hm, e⟩ := List.mem_map.mp ha
    obtain ⟨h1, -⟩ := h.1.2 m hm
    obtain ⟨-, h2⟩ := exponents_range (fun ns hns => (h.2 ns hns).2) b hb
    omega

/-! ## Odd errors -/

/-- The exclusive or of the first `n` flags. -/
def xorSum : ℕ → (ℕ → Bool) → Bool
  | 0, _ => false
  | n + 1, f => xorSum n f ^^ f n

lemma xorSum_xor (n : ℕ) (f h : ℕ → Bool) :
    xorSum n (fun i => f i ^^ h i) = (xorSum n f ^^ xorSum n h) := by
  induction n with
  | zero => rfl
  | succ n ih =>
    rw [xorSum, xorSum, xorSum, ih, Bool.xor_assoc, Bool.xor_assoc,
      Bool.xor_left_comm (xorSum n h)]

lemma xorSum_congr {n : ℕ} {f h : ℕ → Bool} (e : ∀ i < n, f i = h i) : xorSum n f = xorSum n h := by
  induction n with
  | zero => rfl
  | succ n ih => rw [xorSum, xorSum, ih fun i hi => e i (by omega), e n (Nat.lt_succ_self n)]

/-- The first flag can be taken out as well as the last. -/
lemma xorSum_succ (n : ℕ) (f : ℕ → Bool) :
    xorSum (n + 1) f = (f 0 ^^ xorSum n fun i => f (i + 1)) := by
  induction n with
  | zero => simp [xorSum]
  | succ n ih => rw [xorSum, ih, xorSum, Bool.xor_assoc]

/-- Whether the number of ones is odd. -/
def parity (c : BitVec w) : Bool := xorSum w c.getLsbD

lemma parity_xor (a b : BitVec w) : parity (a ^^^ b) = (parity a ^^ parity b) := by
  rw [parity, parity, parity, ← xorSum_xor]
  exact xorSum_congr fun i _ => BitVec.getLsbD_xor

/-- A shift loses the top bit. -/
lemma parity_shiftLeft (c : BitVec w) : parity (c <<< 1) = (parity c ^^ c.msb) := by
  cases w with
  | zero => simp [parity, xorSum, BitVec.msb_eq_getLsbD_last]
  | succ n =>
    have h : xorSum n (fun i => (c <<< 1).getLsbD (i + 1)) = xorSum n c.getLsbD := by
      refine xorSum_congr fun i hi => ?_
      rw [BitVec.getLsbD_shiftLeft]
      simp [hi]
    rw [parity, parity, xorSum_succ, h, xorSum, BitVec.msb_eq_getLsbD_last]
    simp

variable {g}

/-- If the generator has an even number of terms, its low part has an odd number of them, and parity
is kept. -/
lemma parity_step (hg : parity g = true) (c : BitVec w) : parity (step g c) = parity c := by
  rw [step]
  cases hm : c.msb with
  | false => rw [if_neg (by simp), parity_shiftLeft, hm, Bool.xor_false]
  | true => rw [if_pos rfl, parity_xor, parity_shiftLeft, hm, hg, Bool.xor_assoc, Bool.xor_self,
      Bool.xor_false]

lemma parity_one (hw : 0 < w) : parity 1#w = true := by
  obtain ⟨n, e⟩ := Nat.exists_eq_succ_of_ne_zero (Nat.ne_of_gt hw)
  subst e
  have h : xorSum n (fun i => (1#(n + 1)).getLsbD (i + 1)) = xorSum n fun _ => false :=
    xorSum_congr fun i _ => by simp
  have hz : ∀ n, xorSum n (fun _ => false) = false := by
    intro n
    induction n with
    | zero => rfl
    | succ n ih => rw [xorSum, ih]; rfl
  rw [parity, xorSum_succ, h, hz]
  simp

lemma parity_power (hw : 0 < w) (hg : parity g = true) (n : ℕ) : parity (power g n) = true := by
  induction n with
  | zero => exact parity_one hw
  | succ n ih =>
    rw [power, Function.iterate_succ_apply', parity_step hg]
    exact ih

lemma parity_syndrome (hw : 0 < w) (hg : parity g = true) (ns : List ℕ) :
    parity (syndrome g ns) = true ↔ Odd ns.length := by
  induction ns with
  | nil =>
    have hz := parity_xor (0#w) 0#w
    rw [BitVec.xor_self, Bool.xor_self] at hz
    simp [hz]
  | cons n ns ih =>
    rw [syndrome_cons, parity_xor, parity_power hw hg, List.length_cons, Nat.odd_add_one, ← ih]
    simp

/-- An error of an odd number of bits has a syndrome. -/
theorem even_of_syndrome (hw : 0 < w) (hg : parity g = true) {ns : List ℕ}
    (h : syndrome g ns = 0#w) : Even ns.length := by
  have hz := parity_xor (0#w) 0#w
  rw [BitVec.xor_self, Bool.xor_self] at hz
  rw [← Nat.not_odd_iff_even, ← parity_syndrome hw hg, h, hz]
  simp

/-! ## Errors of two bits -/

/-- If the generator has a constant term, a shift can be undone. -/
lemma eq_zero_of_step (hg : g.getLsbD 0 = true) {c : BitVec w} (h : step g c = 0#w) : c = 0#w := by
  have hw : 0 < w := BitVec.lt_of_getLsbD hg
  rw [step] at h
  cases hm : c.msb with
  | true =>
    -- the constant term stays in the lowest place
    rw [hm, if_pos rfl] at h
    have h0 := congrArg (BitVec.getLsbD · 0) h
    simp [BitVec.getLsbD_shiftLeft, hg] at h0
  | false =>
    rw [hm, if_neg (by simp)] at h
    refine BitVec.eq_of_getLsbD_eq fun i hi => ?_
    by_cases hlast : i + 1 < w
    · have h1 : c.getLsbD i = (c <<< 1).getLsbD (i + 1) := by
        rw [BitVec.getLsbD_shiftLeft]
        simp [hlast]
      rw [h1, h, BitVec.getLsbD_zero, BitVec.getLsbD_zero]
    · have e : i = w - 1 := by omega
      rw [BitVec.msb_eq_getLsbD_last, ← e] at hm
      rw [hm, BitVec.getLsbD_zero]

lemma eq_zero_of_iterate (hg : g.getLsbD 0 = true) {n : ℕ} {c : BitVec w}
    (h : (step g)^[n] c = 0#w) : c = 0#w := by
  induction n generalizing c with
  | zero => exact h
  | succ n ih => exact eq_zero_of_step hg (ih h)

/-- Two bits closer than the order of `x` have a syndrome. -/
theorem syndrome_pair_ne (hg : g.getLsbD 0 = true) {N : ℕ}
    (hN : ∀ n, 0 < n → n < N → power g n ≠ 1#w) {i j : ℕ} (hi : i < N) (hj : j < N) (hij : i ≠ j) :
    syndrome g [i, j] ≠ 0#w := by
  wlog hlt : i < j generalizing i j
  case inr =>
    have hsym := this hj hi hij.symm (by omega)
    simp only [syndrome_cons, syndrome_nil, BitVec.xor_zero] at hsym ⊢
    rwa [BitVec.xor_comm]
  intro h
  -- the syndrome is `1 + x ^ (j - i)`, shifted
  have e : (step g)^[i] (1#w ^^^ power g (j - i)) = 0#w := by
    rw [syndrome_cons, syndrome_cons, syndrome_nil, BitVec.xor_zero] at h
    rw [iterate_xor, iterate_power, Nat.add_sub_cancel' (Nat.le_of_lt hlt)]
    exact h
  exact hN (j - i) (by omega) (by omega) (BitVec.xor_eq_zero_iff.mp (eq_zero_of_iterate hg e)).symm

/-- The next `n` shifts do not come to one. -/
def avoidsOne (g : BitVec w) : ℕ → BitVec w → Bool
  | 0, _ => true
  | n + 1, c => step g c != 1#w && avoidsOne g n (step g c)

lemma ne_one_of_avoidsOne {n : ℕ} {c : BitVec w} (h : avoidsOne g n c = true) {k : ℕ} (hk : 0 < k)
    (hkn : k ≤ n) : (step g)^[k] c ≠ 1#w := by
  induction n generalizing c k with
  | zero => omega
  | succ n ih =>
    rw [avoidsOne, Bool.and_eq_true, bne_iff_ne] at h
    obtain ⟨k, e⟩ := Nat.exists_eq_succ_of_ne_zero (Nat.ne_of_gt hk)
    subst e
    rw [Function.iterate_succ_apply]
    by_cases hz : k = 0
    · subst hz
      exact h.1
    · exact ih h.2 (by omega) (by omega)

end Crc
