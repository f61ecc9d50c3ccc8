import ApogeeFC.Codec.FrameWire
import ApogeeFC.Lib.Scan
import ApogeeFC.Stream.Decoder

/-!
# The reference scan

What a stream of bytes means, without a buffer: at each position either a frame starts that `decode`
accepts, or one byte is skipped, or more bytes are needed to tell. `frameScanner` is this rule as a
`Scanner`, so `frameScanner.scan` reads a whole stream offline.

`dropToSync` is a run of skips up to the next place where a frame can start, which is how the decoder
discards bytes.
-/

namespace ApogeeFC.Stream
open LittleEndian Codec Scan

/-- The length field of a header. -/
def claimedLength (r : List UInt8) : Nat := (word16 (r.getD 4 0) (r.getD 5 0)).toNat

/-- The sync pair is here. -/
def Synced (r : List UInt8) : Prop := r.take 2 = [syncFirst, syncSecond]

instance (r : List UInt8) : Decidable (Synced r) := inferInstanceAs (Decidable (_ = _))

/-- The verdict of the reference scan at the start of `r`. -/
def frameVerdict (r : List UInt8) : Verdict :=
  if Synced r then
    if r.length < headerSize then .wait
    else if maximumPayloadSize < claimedLength r then .skip
    else if r.length < minimumFrameSize + claimedLength r then .wait
    else if (decode (r.take (minimumFrameSize + claimedLength r))).ok then
      .take (minimumFrameSize + claimedLength r)
    else .skip
  else if r = [] ∨ r = [syncFirst] then .wait
  else .skip

lemma claimedLength_append {r : List UInt8} (h : headerSize ≤ r.length) (t : List UInt8) :
    claimedLength (r ++ t) = claimedLength r := by
  have hr : 6 ≤ r.length := h
  simp only [claimedLength, List.getD_eq_getElem?_getD]
  rw [List.getElem?_append_left (by omega), List.getElem?_append_left (by omega)]

lemma claimedLength_take {r : List UInt8} {n} (h : headerSize ≤ n) :
    claimedLength (r.take n) = claimedLength r := by
  have hn : 6 ≤ n := h
  simp only [claimedLength, List.getD_eq_getElem?_getD]
  rw [List.getElem?_take_of_lt (by omega), List.getElem?_take_of_lt (by omega)]

lemma synced_cons {a b : UInt8} {r} :
    Synced (a :: b :: r) ↔ a = syncFirst ∧ b = syncSecond := by
  simp [Synced]

lemma Synced.length {r : List UInt8} (h : Synced r) : 2 ≤ r.length := by
  have hl := congrArg List.length h
  simp only [List.length_take, List.length_cons, List.length_nil] at hl
  omega

lemma not_synced_nil : ¬ Synced [] := nofun

lemma not_synced_singleton (a : UInt8) : ¬ Synced [a] := by
  intro h
  have hl := h.length
  rw [List.length_singleton] at hl
  omega

/-- A synced list, taken apart. -/
lemma Synced.eq {r : List UInt8} (h : Synced r) : ∃ s, r = syncFirst :: syncSecond :: s :=
  ⟨r.drop 2, by rw [← List.take_append_drop 2 r, h]; rfl⟩

lemma Synced.append {r : List UInt8} (h : Synced r) (t : List UInt8) : Synced (r ++ t) := by
  rw [Synced, List.take_append_of_le_length h.length]
  exact h

/-- The claimed frame starts like what it is taken from. -/
lemma Synced.candidate {r : List UInt8} (h : Synced r)
    (hc : minimumFrameSize + claimedLength r ≤ r.length) :
    Synced (r.take (minimumFrameSize + claimedLength r)) ∧
      claimedLength (r.take (minimumFrameSize + claimedLength r)) = claimedLength r ∧
      (r.take (minimumFrameSize + claimedLength r)).length =
        minimumFrameSize + claimedLength r := by
  have h2 : 2 ≤ minimumFrameSize + claimedLength r := Nat.le_trans (by decide) (Nat.le_add_right _ _)
  have h6 : headerSize ≤ minimumFrameSize + claimedLength r :=
    Nat.le_trans (by decide) (Nat.le_add_right _ _)
  refine ⟨?_, claimedLength_take h6, ?_⟩
  · rw [Synced, List.take_take, Nat.min_eq_left h2]
    exact h
  · rw [List.length_take, Nat.min_eq_left hc]

/-- The verdict where no frame can start. -/
lemma frameVerdict_noise {r : List UInt8} (h : ¬ Synced r) :
    frameVerdict r = if r = [] ∨ r = [syncFirst] then .wait else .skip := by
  rw [frameVerdict, if_neg h]

/-- The verdict on an incomplete header. -/
lemma frameVerdict_short {r : List UInt8} (h : Synced r) (hs : r.length < headerSize) :
    frameVerdict r = .wait := by
  rw [frameVerdict, if_pos h, if_pos hs]

/-- The verdict on a header that claims too much. -/
lemma frameVerdict_long {r : List UInt8} (h : Synced r) (hs : headerSize ≤ r.length)
    (hl : maximumPayloadSize < claimedLength r) : frameVerdict r = .skip := by
  rw [frameVerdict, if_pos h, if_neg (Nat.not_lt.mpr hs), if_pos hl]

/-- The verdict on a header whose frame is not complete. -/
lemma frameVerdict_pending {r : List UInt8} (h : Synced r) (hl : claimedLength r ≤ maximumPayloadSize)
    (hp : r.length < minimumFrameSize + claimedLength r) : frameVerdict r = .wait := by
  rw [frameVerdict, if_pos h, if_neg (Nat.not_lt.mpr hl), if_pos hp, ite_self]

/-- The verdict on a complete candidate. -/
lemma frameVerdict_complete {r : List UInt8} (h : Synced r)
    (hl : claimedLength r ≤ maximumPayloadSize)
    (hc : minimumFrameSize + claimedLength r ≤ r.length) :
    frameVerdict r = if (decode (r.take (minimumFrameSize + claimedLength r))).ok then
      .take (minimumFrameSize + claimedLength r) else .skip := by
  have hs : ¬ r.length < headerSize := by
    change 12 + _ ≤ _ at hc
    change ¬ _ < 6
    omega
  rw [frameVerdict, if_pos h, if_neg hs, if_neg (Nat.not_lt.mpr hl), if_neg (Nat.not_lt.mpr hc)]

/-- The verdict on a candidate with nothing behind it. -/
lemma frameVerdict_whole {r : List UInt8} (h : Synced r) (hl : claimedLength r ≤ maximumPayloadSize)
    (hc : r.length = minimumFrameSize + claimedLength r) :
    frameVerdict r = if (decode r).ok then .take r.length else .skip := by
  rw [frameVerdict_complete h hl (Nat.le_of_eq hc.symm), ← hc, List.take_length]

/-- The verdict on a candidate that a byte completes. -/
lemma frameVerdict_completed {r : List UInt8} (h : Synced r)
    (hl : claimedLength r ≤ maximumPayloadSize)
    (hc : r.length + 1 = minimumFrameSize + claimedLength r) (b : UInt8) :
    frameVerdict (r ++ [b]) =
      if (decode (r ++ [b])).ok then .take (r ++ [b]).length else .skip := by
  have hcl : claimedLength (r ++ [b]) = claimedLength r := by
    apply claimedLength_append
    change 6 ≤ _
    change _ = 12 + _ at hc
    omega
  apply frameVerdict_whole (h.append [b])
  · rwa [hcl]
  · rw [hcl, ← hc, List.length_append, List.length_singleton]

/-- Inversion of a `take` verdict. -/
lemma frameVerdict_take_inv {r : List UInt8} {n} (h : frameVerdict r = .take n) :
    Synced r ∧ claimedLength r ≤ maximumPayloadSize ∧ n = minimumFrameSize + claimedLength r ∧
      n ≤ r.length ∧ (decode (r.take n)).ok := by
  unfold frameVerdict at h
  split at h
  case isFalse => split at h <;> cases h
  case isTrue hs =>
    split at h
    · cases h
    split at h
    · cases h
    rename_i hl
    split at h
    · cases h
    rename_i hc
    split at h
    case isFalse => cases h
    case isTrue hd =>
      cases h
      exact ⟨hs, Nat.le_of_not_lt hl, rfl, Nat.le_of_not_lt hc, hd⟩

/-- Inversion of a `wait` verdict. -/
lemma frameVerdict_wait_inv {r : List UInt8} (h : frameVerdict r = .wait) :
    r = [] ∨ r = [syncFirst] ∨ Synced r ∧ (r.length < headerSize ∨
      claimedLength r ≤ maximumPayloadSize ∧ r.length < minimumFrameSize + claimedLength r) := by
  unfold frameVerdict at h
  split at h
  case isFalse =>
    split at h
    case isFalse => cases h
    case isTrue he => exact he.elim .inl fun e => .inr (.inl e)
  case isTrue hs =>
    split at h
    case isTrue hh => exact .inr (.inr ⟨hs, .inl hh⟩)
    case isFalse =>
      split at h
      · cases h
      rename_i hl
      split at h
      case isTrue hp => exact .inr (.inr ⟨hs, .inr ⟨Nat.le_of_not_lt hl, hp⟩⟩)
      case isFalse => split at h <;> cases h

/-- What waits behind a header is a frame that is not complete. -/
lemma frameVerdict_wait_header {r : List UInt8} (h : frameVerdict r = .wait)
    (hh : headerSize ≤ r.length) :
    Synced r ∧ claimedLength r ≤ maximumPayloadSize ∧
      r.length < minimumFrameSize + claimedLength r := by
  obtain e | e | ⟨hs, hc⟩ := frameVerdict_wait_inv h
  · subst e
    exact absurd hh (by decide)
  · subst e
    exact absurd hh (by decide)
  · exact ⟨hs, hc.resolve_left (Nat.not_lt.mpr hh)⟩

/-- More input does not change a verdict. -/
lemma frameVerdict_stable {r : List UInt8} (t : List UInt8) (h : frameVerdict r ≠ .wait) :
    frameVerdict (r ++ t) = frameVerdict r := by
  by_cases hs : Synced r
  case neg =>
    rw [frameVerdict_noise hs] at h ⊢
    have hr : ¬ (r = [] ∨ r = [syncFirst]) := fun e => h (if_pos e)
    obtain ⟨hr0, hr1⟩ := not_or.mp hr
    -- the first two bytes, or a lone byte other than `A5`, already rule out a sync pair
    match r with
    | [] => exact absurd rfl hr0
    | [a] =>
      have ha : a ≠ syncFirst := fun e => hr1 (by rw [e])
      have hs' : ¬ Synced ([a] ++ t) := by
        cases t with
        | nil => exact hs
        | cons b t => exact fun e => ha (synced_cons.mp e).1
      rw [frameVerdict_noise hs', if_neg (by simp [ha]), if_neg hr]
    | a :: b :: r =>
      have hs' : ¬ Synced (a :: b :: r ++ t) := by
        rw [List.cons_append, List.cons_append, synced_cons, ← synced_cons]
        exact hs
      rw [frameVerdict_noise hs', if_neg (by simp), if_neg hr]
  case pos =>
    by_cases hh : r.length < headerSize
    · exact absurd (frameVerdict_short hs hh) h
    have hle : headerSize ≤ r.length := Nat.le_of_not_lt hh
    have hle' : headerSize ≤ (r ++ t).length := by rw [List.length_append]; omega
    have hcl := claimedLength_append hle t
    by_cases hl : maximumPayloadSize < claimedLength r
    · rw [frameVerdict_long hs hle hl, frameVerdict_long (hs.append t) hle' (by rwa [hcl])]
    have hl := Nat.le_of_not_lt hl
    by_cases hp : r.length < minimumFrameSize + claimedLength r
    · exact absurd (frameVerdict_pending hs hl hp) h
    have hp := Nat.le_of_not_lt hp
    rw [frameVerdict_complete hs hl hp, frameVerdict_complete (hs.append t) (by rwa [hcl])
      (by rw [hcl, List.length_append]; omega), hcl, List.take_append_of_le_length hp]

/-- A taken frame is taken by itself. -/
lemma frameVerdict_take_self {r : List UInt8} {n} (h : frameVerdict r = .take n) :
    frameVerdict (r.take n) = .take n := by
  obtain ⟨hs, hl, e, hn, hd⟩ := frameVerdict_take_inv h
  subst e
  obtain ⟨hs', hcl, hlen⟩ := hs.candidate hn
  rw [frameVerdict_whole hs' (by rwa [hcl]) (by rw [hcl, hlen]), if_pos hd, hlen]

/-- The reference scan. -/
def frameScanner : Scanner UInt8 where
  verdict := frameVerdict
  verdict_nil := rfl
  take_pos h := by
    obtain ⟨-, -, e, -⟩ := frameVerdict_take_inv h
    rw [e]
    exact Nat.add_pos_left (by decide) _
  take_le h := (frameVerdict_take_inv h).2.2.2.1
  take_self := frameVerdict_take_self
  stable := frameVerdict_stable

/-- The scanner accepts what `decode` accepts. -/
lemma accepts_iff {f : List UInt8} : frameScanner.Accepts f ↔ (decode f).ok := by
  constructor
  · intro h
    obtain ⟨-, -, -, -, hd⟩ := frameVerdict_take_inv h
    rwa [List.take_length] at hd
  · intro h
    obtain ⟨t, type, seq, p, -, hp, e⟩ := decode_inv h
    subst e
    have hmax : p.length ≤ 64 := hp
    have hs : Synced (wire t seq p) := rfl
    have hcl : claimedLength (wire t seq p) = p.length := by
      obtain ⟨l0, l1, hl⟩ : ∃ l0 l1, bytes16 (.ofNat p.length) = [l0, l1] := ⟨_, _, rfl⟩
      have hw := word16_bytes16 _ _ _ hl
      have hg : claimedLength (wire t seq p) = (word16 l0 l1).toNat := by
        simp [claimedLength, wire, wireBody, hl]
      rw [hg, hw, UInt16.toNat_ofNat', Nat.mod_eq_of_lt (by omega)]
    have hlen : (wire t seq p).length = minimumFrameSize + p.length := length_wire t seq p
    change frameVerdict (wire t seq p) = .take (wire t seq p).length
    rw [frameVerdict_whole hs (by rwa [hcl]) (by rw [hcl, hlen]), if_pos h]

/-- Drop bytes up to the next place where a frame can start. -/
def dropToSync : List UInt8 → List UInt8
  | [] => []
  | [a] => if a = syncFirst then [a] else []
  | a :: b :: r => if a = syncFirst ∧ b = syncSecond then a :: b :: r else dropToSync (b :: r)

lemma dropToSync_synced {r : List UInt8} (h : Synced r) : dropToSync r = r := by
  obtain ⟨s, e⟩ := h.eq
  subst e
  exact if_pos ⟨rfl, rfl⟩

lemma dropToSync_cons {a b : UInt8} {r} (h : ¬ Synced (a :: b :: r)) :
    dropToSync (a :: b :: r) = dropToSync (b :: r) :=
  if_neg fun e => h (synced_cons.mpr e)

lemma length_dropToSync (r : List UInt8) : (dropToSync r).length ≤ r.length := by
  induction r using dropToSync.induct with
  | case1 => exact Nat.le_refl _
  | case2 => exact Nat.le_refl _
  | case3 a h => rw [dropToSync, if_neg h]; exact Nat.zero_le _
  | case4 a b r h => rw [dropToSync, if_pos h]
  | case5 a b r h ih =>
    rw [dropToSync, if_neg h]
    exact Nat.le_succ_of_le ih

/-- Where `dropToSync` stops, a frame can start. -/
lemma dropToSync_stops (r : List UInt8) :
    dropToSync r = [] ∨ dropToSync r = [syncFirst] ∨ Synced (dropToSync r) := by
  induction r using dropToSync.induct with
  | case1 => exact .inl rfl
  | case2 => exact .inr (.inl rfl)
  | case3 a h => exact .inl (if_neg h)
  | case4 a b r h =>
    rw [dropToSync, if_pos h]
    exact .inr (.inr (synced_cons.mpr h))
  | case5 a b r h ih =>
    rw [dropToSync, if_neg h]
    exact ih

/-- Where `dropToSync` stops with less than a header, more input is needed. -/
lemma frameVerdict_dropToSync {r : List UInt8} (h : (dropToSync r).length < headerSize) :
    frameVerdict (dropToSync r) = .wait := by
  obtain e | e | hs := dropToSync_stops r
  · rw [e]
    rfl
  · rw [e]
    rfl
  · exact frameVerdict_short hs h

/-- Where `dropToSync` stops with a header or more, that header is synced. -/
lemma synced_dropToSync {r : List UInt8} (h : headerSize ≤ (dropToSync r).length) :
    Synced (dropToSync r) := by
  obtain e | e | hs := dropToSync_stops r
  · rw [e] at h
    exact absurd h (by decide)
  · rw [e] at h
    exact absurd h (by decide)
  · exact hs

/-- What `dropToSync` drops is skipped by the scan. -/
lemma scans_dropToSync {r : List UInt8} {ts rest} (h : Scans frameScanner (dropToSync r) ts rest) :
    ∃ noise, noise ++ dropToSync r = r ∧
      Scans frameScanner r (noise.map .skip ++ ts) rest := by
  induction r using dropToSync.induct with
  | case1 => exact ⟨[], rfl, h⟩
  | case2 => exact ⟨[], rfl, h⟩
  | case3 a ha =>
    rw [dropToSync, if_neg ha] at h ⊢
    refine ⟨[a], rfl, .skip ?_ h⟩
    change frameVerdict [a] = .skip
    rw [frameVerdict_noise (not_synced_singleton a), if_neg (by simp [ha])]
  | case4 a b r hs =>
    rw [dropToSync, if_pos hs] at h ⊢
    exact ⟨[], rfl, h⟩
  | case5 a b r hs ih =>
    rw [dropToSync, if_neg hs] at h ⊢
    obtain ⟨noise, e, hscan⟩ := ih h
    refine ⟨a :: noise, by rw [List.cons_append, e], .skip ?_ hscan⟩
    change frameVerdict (a :: b :: r) = .skip
    rw [frameVerdict_noise (fun e => hs (synced_cons.mp e)), if_neg (by simp)]

end ApogeeFC.Stream
