import Mathlib.Tactic.Common
import Mathlib.Tactic.Ring

/-!
# Little-endian words

`toLe k v` are the `k` low bytes of a natural number, least significant first, and `ofLe` reads them
back; they are inverse to each other (`ofLe_toLe`, `toLe_ofLe`). Programs write words with shifts and
masks, either spelled out byte by byte (`bytes16`, `word16`, `bytes32`, `word32`) or in a loop over
the bytes (`bytesLoop`, `wordLoop`). Each of them is tied to `toLe` or `ofLe`, and its round trips
follow from theirs.
-/

namespace LittleEndian

/-- The `k` low bytes of `v`, least significant first. -/
def toLe : Nat → Nat → List UInt8
  | 0, _ => []
  | k + 1, v => UInt8.ofNat v :: toLe k (v / 256)

/-- The number with the given bytes, least significant first. -/
def ofLe : List UInt8 → Nat
  | [] => 0
  | b :: bs => b.toNat + 256 * ofLe bs

@[simp] lemma length_toLe (k v : Nat) : (toLe k v).length = k := by
  induction k generalizing v with
  | zero => rfl
  | succ k ih => simp [toLe, ih]

/-- Reading what was written. -/
lemma ofLe_toLe {k v : Nat} (h : v < 256 ^ k) : ofLe (toLe k v) = v := by
  induction k generalizing v with
  | zero => simp [toLe, ofLe] at h ⊢; omega
  | succ k ih =>
    have hv : v / 256 < 256 ^ k := by
      rw [Nat.pow_succ] at h
      omega
    rw [toLe, ofLe, ih hv, UInt8.toNat_ofNat']
    omega

/-- Writing what was read. -/
lemma toLe_ofLe (bs : List UInt8) : toLe bs.length (ofLe bs) = bs := by
  induction bs with
  | nil => rfl
  | cons b bs ih =>
    have hb := b.toNat_lt
    have hd : (b.toNat + 256 * ofLe bs) / 256 = ofLe bs := by omega
    have hm : UInt8.ofNat (b.toNat + 256 * ofLe bs) = b := by
      apply UInt8.toNat_inj.mp
      rw [UInt8.toNat_ofNat']
      omega
    rw [List.length_cons, ofLe, toLe, hd, hm, ih]

/-- The two bytes stored for a 16-bit word. -/
def bytes16 (v : UInt16) : List UInt8 :=
  [(v &&& 0xFF).toUInt8, ((v >>> 8) &&& 0xFF).toUInt8]

/-- The 16-bit word with the given bytes. -/
def word16 (b0 b1 : UInt8) : UInt16 := b0.toUInt16 ||| (b1.toUInt16 <<< 8)

/-- The four bytes stored for a 32-bit word. -/
def bytes32 (v : UInt32) : List UInt8 :=
  [(v &&& 0xFF).toUInt8, ((v >>> 8) &&& 0xFF).toUInt8, ((v >>> 16) &&& 0xFF).toUInt8,
    ((v >>> 24) &&& 0xFF).toUInt8]

/-- The 32-bit word with the given bytes. -/
def word32 (b0 b1 b2 b3 : UInt8) : UInt32 :=
  b0.toUInt32 ||| (b1.toUInt32 <<< 8) ||| (b2.toUInt32 <<< 16) ||| (b3.toUInt32 <<< 24)

/-- The bytes stored by a loop that shifts the word down by one byte at a time. -/
def bytesLoop {w : Nat} (count : Nat) (v : BitVec w) : List UInt8 :=
  (List.range count).map fun byte =>
    UInt8.ofBitVec (((v >>> (byte * 8)) &&& 0xFF#w).setWidth 8)

/-- The word read by a loop that shifts byte `k` up by `k` bytes and ors it in. -/
def wordLoop {w : Nat} : Nat → BitVec w → List UInt8 → BitVec w
  | _, value, [] => value
  | k, value, b :: bs => wordLoop (k + 1) (value ||| (b.toBitVec.setWidth w <<< (k * 8))) bs

@[simp] lemma length_bytes16 (v : UInt16) : (bytes16 v).length = 2 := rfl

@[simp] lemma length_bytes32 (v : UInt32) : (bytes32 v).length = 4 := rfl

@[simp] lemma length_bytesLoop {w : Nat} (count : Nat) (v : BitVec w) :
    (bytesLoop count v).length = count := by simp [bytesLoop]

/-- A masked byte of a 16-bit word. -/
lemma byte16 (v : UInt16) {k : UInt16} (hk : k.toNat < 16) :
    ((v >>> k) &&& 0xFF).toUInt8 = UInt8.ofNat (v.toNat / 2 ^ k.toNat) := by
  apply UInt8.toNat_inj.mp
  simp [Nat.and_two_pow_sub_one_eq_mod _ 8, Nat.shiftRight_eq_div_pow, Nat.mod_eq_of_lt hk]

/-- A masked byte of a 32-bit word. -/
lemma byte32 (v : UInt32) {k : UInt32} (hk : k.toNat < 32) :
    ((v >>> k) &&& 0xFF).toUInt8 = UInt8.ofNat (v.toNat / 2 ^ k.toNat) := by
  apply UInt8.toNat_inj.mp
  simp [Nat.and_two_pow_sub_one_eq_mod _ 8, Nat.shiftRight_eq_div_pow, Nat.mod_eq_of_lt hk]

lemma bytes16_eq (v : UInt16) : bytes16 v = toLe 2 v.toNat := by
  have h0 := byte16 v (k := 0) (by decide)
  have h1 := byte16 v (k := 8) (by decide)
  simp at h0 h1
  simp [bytes16, toLe, h0, h1]

lemma bytes32_eq (v : UInt32) : bytes32 v = toLe 4 v.toNat := by
  have h0 := byte32 v (k := 0) (by decide)
  have h1 := byte32 v (k := 8) (by decide)
  have h2 := byte32 v (k := 16) (by decide)
  have h3 := byte32 v (k := 24) (by decide)
  simp at h0 h1 h2 h3
  simp [bytes32, toLe, h0, h1, h2, h3, Nat.div_div_eq_div_mul]

/-- A byte shifted into a 16-bit word. -/
lemma toNat_shift16 (b : UInt8) : (b.toUInt16 <<< 8).toNat = b.toNat * 2 ^ 8 := by
  have h := b.toNat_lt
  simp only [UInt16.toNat_shiftLeft, UInt8.toNat_toUInt16, Nat.shiftLeft_eq]
  exact Nat.mod_eq_of_lt (by simp; omega)

/-- A byte shifted into a 32-bit word. -/
lemma toNat_shift32 (b : UInt8) {k : UInt32} (hk : k.toNat ≤ 24) :
    (b.toUInt32 <<< k).toNat = b.toNat * 2 ^ k.toNat := by
  have h := b.toNat_lt
  have hp : 2 ^ k.toNat ≤ 2 ^ 24 := Nat.pow_le_pow_right (by omega) hk
  have hb : b.toNat * 2 ^ k.toNat ≤ 255 * 2 ^ 24 := Nat.mul_le_mul (by omega) hp
  have hm : k.toNat % 32 = k.toNat := Nat.mod_eq_of_lt (by omega)
  rw [UInt32.toNat_shiftLeft, UInt8.toNat_toUInt32, hm, Nat.shiftLeft_eq]
  exact Nat.mod_eq_of_lt (by omega)

/-- A number or-ed onto the low end of a multiple of a power of two. -/
lemma or_mul_two_pow {a k : Nat} (b : Nat) (h : a < 2 ^ k) : a ||| b * 2 ^ k = a + b * 2 ^ k := by
  rw [Nat.or_comm, ← Nat.shiftLeft_eq, ← Nat.shiftLeft_add_eq_or_of_lt h, Nat.add_comm]

lemma toNat_word16 (b0 b1 : UInt8) : (word16 b0 b1).toNat = ofLe [b0, b1] := by
  have h0 := b0.toNat_lt
  rw [word16, UInt16.toNat_or, toNat_shift16, UInt8.toNat_toUInt16, or_mul_two_pow _ (by omega)]
  simp only [ofLe]
  omega

lemma toNat_word32 (b0 b1 b2 b3 : UInt8) : (word32 b0 b1 b2 b3).toNat = ofLe [b0, b1, b2, b3] := by
  have h0 := b0.toNat_lt
  have h1 := b1.toNat_lt
  have h2 := b2.toNat_lt
  have e1 := toNat_shift32 b1 (k := 8) (by decide)
  have e2 := toNat_shift32 b2 (k := 16) (by decide)
  have e3 := toNat_shift32 b3 (k := 24) (by decide)
  simp only [UInt32.reduceToNat] at e1 e2 e3
  have o1 := or_mul_two_pow (a := b0.toNat) (k := 8) b1.toNat (by omega)
  have o2 := or_mul_two_pow (a := b0.toNat + b1.toNat * 2 ^ 8) (k := 16) b2.toNat (by omega)
  have o3 := or_mul_two_pow (a := b0.toNat + b1.toNat * 2 ^ 8 + b2.toNat * 2 ^ 16) (k := 24)
    b3.toNat (by omega)
  rw [word32, UInt32.toNat_or, UInt32.toNat_or, UInt32.toNat_or, e1, e2, e3, UInt8.toNat_toUInt32,
    o1, o2, o3]
  simp only [ofLe]
  omega

lemma word16_bytes16 (v : UInt16) (b0 b1 : UInt8) (h : bytes16 v = [b0, b1]) : word16 b0 b1 = v := by
  apply UInt16.toNat_inj.mp
  rw [toNat_word16, ← h, bytes16_eq, ofLe_toLe v.toNat_lt]

lemma bytes16_word16 (b0 b1 : UInt8) : bytes16 (word16 b0 b1) = [b0, b1] := by
  rw [bytes16_eq, toNat_word16]
  exact toLe_ofLe [b0, b1]

lemma word32_bytes32 (v : UInt32) (b0 b1 b2 b3 : UInt8) (h : bytes32 v = [b0, b1, b2, b3]) :
    word32 b0 b1 b2 b3 = v := by
  apply UInt32.toNat_inj.mp
  rw [toNat_word32, ← h, bytes32_eq, ofLe_toLe v.toNat_lt]

lemma bytes32_word32 (b0 b1 b2 b3 : UInt8) :
    bytes32 (word32 b0 b1 b2 b3) = [b0, b1, b2, b3] := by
  rw [bytes32_eq, toNat_word32]
  exact toLe_ofLe [b0, b1, b2, b3]

/-- The bytes of `toLe` are the successive quotients. -/
lemma toLe_eq_map (k v : Nat) :
    toLe k v = (List.range k).map fun i => UInt8.ofNat (v / 2 ^ (i * 8)) := by
  induction k generalizing v with
  | zero => rfl
  | succ k ih =>
    rw [toLe, ih, List.range_succ_eq_map, List.map_cons, List.map_map]
    congr 1
    · simp
    · apply List.map_congr_left
      intro i _
      have hp : 2 ^ ((i + 1) * 8) = 256 * 2 ^ (i * 8) := by rw [Nat.add_mul, Nat.pow_add]; omega
      rw [Function.comp_apply, Nat.div_div_eq_div_mul, Nat.succ_eq_add_one, hp]

lemma bytesLoop_eq {w : Nat} (count : Nat) (v : BitVec w) (hw : 8 ≤ w) :
    bytesLoop count v = toLe count v.toNat := by
  rw [bytesLoop, toLe_eq_map]
  apply List.map_congr_left
  intro i _
  have hm : 255 % 2 ^ w = 255 :=
    Nat.mod_eq_of_lt (Nat.lt_of_lt_of_le (by decide) (Nat.pow_le_pow_right (by omega) hw))
  apply UInt8.toNat_inj.mp
  simp [hm, Nat.and_two_pow_sub_one_eq_mod _ 8, Nat.shiftRight_eq_div_pow]

/-- What the reading loop has or-ed in so far stays below the next byte. -/
lemma toNat_wordLoop {w k : Nat} {value : BitVec w} {bs : List UInt8}
    (hv : value.toNat < 2 ^ (k * 8)) (hk : (k + bs.length) * 8 ≤ w) :
    (wordLoop k value bs).toNat = value.toNat + 2 ^ (k * 8) * ofLe bs := by
  induction bs generalizing k value with
  | nil => simp [wordLoop, ofLe]
  | cons b bs ih =>
    have hb := b.toNat_lt
    rw [List.length_cons] at hk
    have hp : 2 ^ ((k + 1) * 8) = 2 ^ (k * 8) * 256 := by rw [Nat.succ_mul, Nat.pow_add]
    have hle : 2 ^ ((k + 1) * 8) ≤ 2 ^ w := Nat.pow_le_pow_right (by omega) (by omega)
    have hbw : 2 ^ 8 ≤ 2 ^ w := Nat.pow_le_pow_right (by omega) (by omega)
    have hm : b.toNat * 2 ^ (k * 8) < 2 ^ ((k + 1) * 8) := by
      rw [hp, Nat.mul_comm]
      exact Nat.mul_lt_mul_of_pos_left hb (Nat.two_pow_pos _)
    have ho : (value ||| (b.toBitVec.setWidth w <<< (k * 8))).toNat =
        value.toNat + b.toNat * 2 ^ (k * 8) := by
      have h8 : b.toNat % 2 ^ w = b.toNat := Nat.mod_eq_of_lt (by omega)
      rw [BitVec.toNat_or, BitVec.toNat_shiftLeft, BitVec.toNat_setWidth, UInt8.toNat_toBitVec, h8,
        Nat.shiftLeft_eq, Nat.mod_eq_of_lt (by omega), or_mul_two_pow _ hv]
    have hlt : value.toNat + b.toNat * 2 ^ (k * 8) < 2 ^ ((k + 1) * 8) := by
      have : (b.toNat + 1) * 2 ^ (k * 8) ≤ 256 * 2 ^ (k * 8) := Nat.mul_le_mul_right _ (by omega)
      rw [hp]
      rw [Nat.succ_mul] at this
      omega
    rw [wordLoop, ih (by rw [ho]; exact hlt) (by omega), ho, ofLe, hp]
    ring

lemma wordLoop_bytesLoop {w : Nat} (count : Nat) (v : BitVec w) (hw : w = count * 8) (h8 : 8 ≤ w) :
    wordLoop 0 0#w (bytesLoop count v) = v := by
  apply BitVec.eq_of_toNat_eq
  have hv : v.toNat < 256 ^ count := by
    have hp : 2 ^ w = 256 ^ count := by rw [hw, Nat.mul_comm, Nat.pow_mul]
    exact hp ▸ v.isLt
  rw [toNat_wordLoop (by simp) (by simp [hw]), bytesLoop_eq count v h8, ofLe_toLe hv]
  simp

lemma bytesLoop_wordLoop {w k : Nat} {bs : List UInt8} (hk : bs.length = k) (hw : w = k * 8)
    (h8 : 8 ≤ w) : bytesLoop k (wordLoop 0 0#w bs) = bs := by
  subst hk
  rw [bytesLoop_eq _ _ h8, toNat_wordLoop (by simp) (by simp [hw])]
  simpa using toLe_ofLe bs

end LittleEndian
