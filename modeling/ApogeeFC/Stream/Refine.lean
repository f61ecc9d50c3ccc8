import ApogeeFC.Stream.Drive
import Mathlib.Data.List.GetD

/-!
# The array decoder refines the decoder on lists

`Holds d r`: the array of `d` holds the pending bytes `r`. Each operation of the decoder has one lemma
that says that it succeeds (no access leaves the array, no loop goes on forever) and what it does to
the pending bytes. They add up to `pushByte_feeds`: a decoder whose pending bytes wait for more input
can always take a byte, and does what `Feeds` says.
-/

namespace ApogeeFC.Stream
open Buffer LittleEndian Codec Scan

/-- The array of `d` holds the pending bytes `r`. -/
structure Holds (d : FrameStreamDecoder) (r : List UInt8) : Prop where
  fits : d.size ≤ maximumFrameSize
  pending : d.pending = r

namespace Holds
variable {d : FrameStreamDecoder} {r : List UInt8}

lemma size (h : Holds d r) : d.size = r.length := by
  rw [← h.pending, FrameStreamDecoder.pending, length_contents, Nat.min_eq_left h.fits]

lemma length_le (h : Holds d r) : r.length ≤ maximumFrameSize := h.size ▸ h.fits

/-- The fields besides the live bytes do not matter. -/
lemma congr (h : Holds d r) (d' : FrameStreamDecoder) (hb : d'.buffer = d.buffer)
    (hs : d'.size = d.size) : Holds d' r where
  fits := hs ▸ h.fits
  pending := by rw [FrameStreamDecoder.pending, hb, hs]; exact h.pending

/-- An empty decoder. -/
lemma nil (h : d.size = 0) : Holds d [] where
  fits := h ▸ Nat.zero_le _
  pending := by rw [FrameStreamDecoder.pending, h, contents_zero]

/-- Reading a pending byte. -/
lemma read (h : Holds d r) {i} (hi : i < r.length) : Buffer.read d.buffer i = some r[i] := by
  rw [read_of_lt (h.size ▸ hi) h.fits, ← List.getElem?_eq_getElem hi]
  exact congrArg (·[i]?) h.pending

lemma append (h : Holds d r) (b : UInt8) (hr : r.length < maximumFrameSize) :
    ∃ d', d.append b = some d' ∧ Holds d' (r ++ [b]) := by
  obtain ⟨v, hw, hc⟩ := write_contents (v := d.buffer) b (h.size ▸ hr)
  refine ⟨{ d with buffer := v, size := d.size + 1 }, by simp [FrameStreamDecoder.append, hw], ?_, ?_⟩
  · rw [h.size]
    exact hr
  · rw [← h.pending]
    exact hc

lemma copyFrame (h : Holds d r) :
    ∃ frame, d.copyFrame = some frame ∧ frame.size = r.length ∧
      contents frame.bytes r.length = r := by
  have hfits := h.length_le
  obtain ⟨v, hv, hc⟩ := copyN_contents d.buffer 0 r.length
    (Vector.replicate maximumFrameSize 0) (by rw [Nat.zero_add]; exact hfits) hfits
  refine ⟨{ bytes := v, size := d.size }, ?_, h.size, ?_⟩
  · simp [FrameStreamDecoder.copyFrame, h.size, hv]
  · rw [hc, List.drop_zero, Nat.zero_add, ← h.size]
    exact h.pending

lemma retain (h : Holds d r) {offset} (ho : offset ≤ r.length) :
    ∃ d', d.retain offset = some d' ∧ Holds d' (r.drop offset) := by
  have hfits := h.length_le
  have he : offset + (r.length - offset) = r.length := by omega
  obtain ⟨v, hv, hc⟩ := copyN_contents d.buffer offset (r.length - offset)
    d.buffer (by rw [he]; exact hfits) (Nat.le_trans (Nat.sub_le _ _) hfits)
  refine ⟨{ d with buffer := v, size := r.length - offset }, ?_, ?_, ?_⟩
  · simp [FrameStreamDecoder.retain, h.size, hv]
  · exact Nat.le_trans (Nat.sub_le _ _) hfits
  · rw [FrameStreamDecoder.pending, hc, he, ← h.size]
    exact congrArg (List.drop offset) h.pending

lemma keepSyncFirst (d : FrameStreamDecoder) :
    ∃ d', d.keepSyncFirst = some d' ∧ Holds d' [syncFirst] := by
  obtain ⟨v, hw, hc⟩ := write_contents (v := d.buffer) (i := 0) syncFirst (by decide)
  refine ⟨{ d with buffer := v, size := 1 }, by simp [FrameStreamDecoder.keepSyncFirst, hw], ?_, ?_⟩
  · exact Nat.le_of_ble_eq_true rfl
  · rw [FrameStreamDecoder.pending, hc, contents_zero, List.nil_append]

lemma last (h : Holds d r) (hr : r ≠ []) : d.last = some (r.getLast hr) := by
  have hp := List.length_pos_iff.mpr hr
  rw [FrameStreamDecoder.last, if_neg (by rw [h.size]; omega), h.size, h.read (by omega),
    List.getLast_eq_getElem]

end Holds

/-- What the search for a sync pair from `index` on finds: an offset where `dropToSync` stops, or the
end of the bytes if there is no pair. -/
def Found (r : List UInt8) (index offset : Nat) : Prop :=
  offset < r.length ∧ Synced (r.drop offset) ∧ dropToSync (r.drop index) = r.drop offset ∨
  offset = r.length ∧ ¬ Synced (r.drop index) ∧ ∀ hr : r ≠ [],
    dropToSync (r.drop index) = if r.getLast hr = syncFirst then [syncFirst] else []

namespace Holds
variable {d : FrameStreamDecoder} {r : List UInt8}

/-- The search succeeds, by induction on the rounds of the `for` loop. -/
lemma syncOffset (h : Holds d r) (index rounds : Nat) (hi : index + rounds + 1 = r.length) :
    ∃ offset, d.syncOffset index rounds = some offset ∧ Found r index offset := by
  induction rounds generalizing index with
  | zero =>
    refine ⟨r.length, by rw [FrameStreamDecoder.syncOffset, h.size], .inr ⟨rfl, ?_, ?_⟩⟩
    · intro hs
      have hl := hs.length
      rw [List.length_drop] at hl
      omega
    · intro hr
      have he : r.drop index = [r.getLast hr] := by
        rw [List.drop_eq_getElem_cons (by omega), List.drop_of_length_le (by omega),
          List.getLast_eq_getElem]
        simp [← hi]
      rw [he, dropToSync]
      split
      case isTrue ha => rw [ha]
      case isFalse => rfl
  | succ rounds ih =>
    have h0 : index < r.length := by omega
    have h1 : index + 1 < r.length := by omega
    have he : r.drop index = r[index] :: r[index + 1] :: r.drop (index + 2) := by
      rw [List.drop_eq_getElem_cons h0, List.drop_eq_getElem_cons h1]
    rw [FrameStreamDecoder.syncOffset, h.read h0, h.read h1]
    simp only [Option.bind_eq_bind, Option.bind_some]
    split
    case isTrue hs =>
      have hsync : Synced (r.drop index) := by
        rw [he]
        exact synced_cons.mpr hs
      exact ⟨index, rfl, .inl ⟨h0, hsync, dropToSync_synced hsync⟩⟩
    case isFalse hs =>
      have hsync : ¬ Synced (r.drop index) := by
        rw [he]
        exact fun e => hs (synced_cons.mp e)
      have hdrop : dropToSync (r.drop index) = dropToSync (r.drop (index + 1)) := by
        rw [he] at hsync ⊢
        rw [dropToSync_cons hsync, List.drop_eq_getElem_cons h1]
      obtain ⟨offset, ho, hf⟩ := ih (index + 1) (by omega)
      refine ⟨offset, ho, ?_⟩
      obtain ⟨hlt, hso, hd⟩ | ⟨heq, -, hd⟩ := hf
      · exact .inl ⟨hlt, hso, hdrop.trans hd⟩
      · exact .inr ⟨heq, hsync, fun hr => hdrop.trans (hd hr)⟩

lemma rescan (h : Holds d r) (hr : 2 ≤ r.length) :
    ∃ d', d.rescan = some d' ∧ Holds d' (dropToSync r.tail) := by
  have hne : r ≠ [] := by
    intro e
    subst e
    simp at hr
  obtain ⟨offset, ho, hf⟩ := h.syncOffset 1 (r.length - 1 - 1) (by omega)
  rw [← List.drop_one]
  simp only [FrameStreamDecoder.rescan, h.size, ho, Option.bind_eq_bind, Option.bind_some]
  obtain ⟨hlt, -, hd⟩ | ⟨heq, -, hd⟩ := hf
  · obtain ⟨d1, hd1, hh⟩ := h.retain (Nat.le_of_lt hlt)
    rw [if_pos hlt, hd1, hd]
    exact ⟨_, rfl, hh.congr _ rfl rfl⟩
  · rw [if_neg (by omega), h.last hne, Option.bind_some, hd hne]
    split
    case isTrue =>
      obtain ⟨d1, hd1, hh⟩ := keepSyncFirst d
      rw [hd1]
      exact ⟨_, rfl, hh.congr _ rfl rfl⟩
    case isFalse => exact ⟨_, rfl, .nil rfl⟩

lemma reject (h : Holds d r) (hr : 2 ≤ r.length) (status : DecodeStatus) :
    ∃ d' calls, d.reject status = some (d', calls) ∧ Holds d' (dropToSync r.tail) ∧
      calls.map HandlerCall.report = [.frameRejected r.length status r] := by
  obtain ⟨frame, hframe, hsize, hview⟩ := h.copyFrame
  obtain ⟨d', hd', hh⟩ := h.rescan hr
  simp only [FrameStreamDecoder.reject, hframe, hd', Option.bind_eq_bind, Option.bind_some]
  refine ⟨_, _, rfl, hh, ?_⟩
  simp only [List.map_cons, List.map_nil, HandlerCall.report, FrameStreamDecoder.call,
    FrameStreamDecoder.bufferedSize, EncodedFrame.view, hsize, hview, h.size]

lemma alignToSync (h : Holds d r) :
    ∃ d' calls, d.alignToSync = some (d', calls) ∧ Holds d' (dropToSync r) ∧
      calls.map HandlerCall.report = alignReports r := by
  by_cases hr : r = []
  · subst hr
    have h0 : d.size = 0 := h.size
    rw [FrameStreamDecoder.alignToSync, if_pos h0]
    exact ⟨_, _, rfl, h, rfl⟩
  have hpos := List.length_pos_iff.mpr hr
  obtain ⟨offset, ho, hf⟩ := h.syncOffset 0 (r.length - 1 - 0) (by omega)
  rw [FrameStreamDecoder.alignToSync, if_neg (by rw [h.size]; omega)]
  simp only [h.size, ho, Option.bind_eq_bind, Option.bind_some]
  rw [Found, List.drop_zero] at hf
  obtain ⟨hlt, hso, hd⟩ | ⟨heq, hs, hd⟩ := hf
  · rw [if_pos hlt]
    split
    case isTrue h0 =>
      have hs : ¬ Synced r := by
        intro hs
        have hl := congrArg List.length (hd.symm.trans (dropToSync_synced hs))
        rw [List.length_drop] at hl
        omega
      have hk : r.length - (r.drop offset).length = offset := by
        rw [List.length_drop]
        omega
      obtain ⟨d', hd', hh⟩ := h.retain (Nat.le_of_lt hlt)
      rw [hd', hd, alignReports, if_neg (by simp [hr, hs]), hd, hk, ← h.size]
      exact ⟨_, _, rfl, hh, rfl⟩
    case isFalse h0 =>
      have e : offset = 0 := by omega
      subst e
      rw [List.drop_zero] at hso hd
      rw [hd, alignReports, if_pos (.inr hso)]
      exact ⟨_, _, rfl, h, rfl⟩
  · have hreps : alignReports r =
        [.noiseDiscarded r.length (r.length - (dropToSync r).length)] := if_neg (by simp [hr, hs])
    rw [if_neg (by omega), h.last hr, Option.bind_some, hreps, hd hr]
    by_cases ha : r.getLast hr = syncFirst
    · obtain ⟨d', hd', hh⟩ := keepSyncFirst d
      rw [if_pos ha, if_pos ha, hd', ← h.size]
      exact ⟨_, _, rfl, hh, rfl⟩
    · rw [if_neg ha, if_neg ha, ← h.size]
      exact ⟨_, _, rfl, .nil rfl, rfl⟩

lemma deliver (h : Holds d r) {n} (he : d.expectedSize = n) (hn : n ≤ r.length) :
    ∃ d' calls, d.deliver = some (d', calls) ∧ Holds d' (dropToSync (r.drop n)) ∧
      calls.map HandlerCall.report =
        .frameDecoded r.length (r.take n) :: alignReports (r.drop n) := by
  obtain ⟨frame, hframe, -, hview⟩ := h.copyFrame
  obtain ⟨d1, hd1, hh1⟩ := h.retain hn
  obtain ⟨d2, calls, hd2, hh2, hcalls⟩ :=
    alignToSync (hh1.congr { d1 with expectedSize := 0 } rfl rfl)
  simp only [FrameStreamDecoder.deliver, hframe, he, hd1, hd2, Option.bind_eq_bind, Option.bind_some]
  refine ⟨_, _, rfl, hh2, ?_⟩
  have hv : contents frame.bytes n = r.take n := by
    rw [← take_contents hn, hview]
  simp only [List.map_cons, hcalls, HandlerCall.report, FrameStreamDecoder.call,
    FrameStreamDecoder.bufferedSize, EncodedFrame.view, hv, h.size]

end Holds

/-- One round of the loop of `process_buffer` on the pending bytes, as `processRound` returns it. -/
inductive Rounds : List UInt8 → Bool → List Report → List UInt8 → Prop
  | wait {r} : frameVerdict r = .wait → Rounds r false [] r
  | reject {r} : frameVerdict r = .skip →
    Rounds r (headerSize ≤ (dropToSync r.tail).length)
      [.frameRejected r.length (rejectStatus r) r] (dropToSync r.tail)
  | deliver {r n} : frameVerdict r = .take n →
    Rounds r (headerSize ≤ (dropToSync (r.drop n)).length)
      (.frameDecoded r.length (r.take n) :: alignReports (r.drop n)) (dropToSync (r.drop n))

namespace Holds
variable {d : FrameStreamDecoder} {r : List UInt8}

lemma processRound (h : Holds d r) (hs : Synced r) :
    ∃ again d' calls r', d.processRound = some (again, d', calls) ∧ Holds d' r' ∧
      Rounds r again (calls.map HandlerCall.report) r' := by
  by_cases hh : r.length < headerSize
  · rw [FrameStreamDecoder.processRound, if_pos (by rwa [h.size])]
    exact ⟨_, _, _, _, rfl, h, .wait (frameVerdict_short hs hh)⟩
  have hle := Nat.le_of_not_lt hh
  have h6 : 6 ≤ r.length := hle
  have hcl : (word16 r[4] r[5]).toNat = claimedLength r := by
    rw [claimedLength, List.getD_eq_getElem _ _ (by omega), List.getD_eq_getElem _ _ (by omega)]
  rw [FrameStreamDecoder.processRound, if_neg (by rwa [h.size]), h.read (by omega), h.read (by omega)]
  simp only [Option.bind_eq_bind, Option.bind_some, hcl]
  -- the header claims more than a frame can hold
  by_cases hl : maximumPayloadSize < claimedLength r
  · obtain ⟨d', calls, hd', hh', hcalls⟩ := h.reject hs.length .payloadTooLarge
    rw [if_pos hl, hd', Option.bind_some, hh'.size]
    refine ⟨_, _, _, _, rfl, hh', ?_⟩
    have hst : rejectStatus r = .payloadTooLarge := if_pos hl
    rw [hcalls, ← hst]
    exact .reject (frameVerdict_long hs hle hl)
  rw [if_neg hl]
  have hl := Nat.le_of_not_lt hl
  -- the candidate is not complete
  by_cases hp : r.length < minimumFrameSize + claimedLength r
  · rw [if_pos (by rwa [h.size])]
    exact ⟨_, _, _, _, rfl, h.congr _ rfl rfl, .wait (frameVerdict_pending hs hl hp)⟩
  rw [if_neg (by rwa [h.size])]
  have hp := Nat.le_of_not_lt hp
  -- `decode` decides
  have hv := frameVerdict_complete hs hl hp
  have hslice : slice d.buffer (minimumFrameSize + claimedLength r) =
      some (r.take (minimumFrameSize + claimedLength r)) := by
    rw [slice_of_le _ (Nat.le_trans hp h.length_le), ← take_contents hp, ← h.size]
    exact congrArg (fun l => some (l.take (minimumFrameSize + claimedLength r))) h.pending
  rw [hslice, Option.bind_some]
  have hd := h.congr { d with expectedSize := minimumFrameSize + claimedLength r } rfl rfl
  split
  case isTrue hok =>
    obtain ⟨d', calls, hd', hh', hcalls⟩ := hd.deliver rfl hp
    rw [hd', Option.bind_some, hh'.size]
    refine ⟨_, _, _, _, rfl, hh', ?_⟩
    rw [hcalls]
    exact .deliver (hv.trans (if_pos hok))
  case isFalse hok =>
    obtain ⟨d', calls, hd', hh', hcalls⟩ := hd.reject hs.length
      (decode (r.take (minimumFrameSize + claimedLength r))).status
    rw [hd', Option.bind_some, hh'.size]
    refine ⟨_, _, _, _, rfl, hh', ?_⟩
    have hst : rejectStatus r = (decode (r.take (minimumFrameSize + claimedLength r))).status :=
      if_neg (Nat.not_lt.mpr hl)
    rw [hcalls, ← hst]
    exact .reject (hv.trans (if_neg hok))

end Holds

/-- The last round. -/
lemma Rounds.done {r reps r'} (hs : Synced r) (h : Rounds r false reps r') : Drives r reps r' := by
  generalize e : false = again at h
  cases h with
  | wait hv => exact .wait hv
  | reject hv =>
    have hlt := Nat.lt_of_not_le (of_decide_eq_false e.symm)
    exact .reject hs hv (.wait (frameVerdict_dropToSync hlt))
  | deliver hv =>
    have hlt := Nat.lt_of_not_le (of_decide_eq_false e.symm)
    have hd := Drives.deliver hv (.wait (frameVerdict_dropToSync hlt))
    rwa [List.append_nil] at hd

/-- A round that is not the last shortens the pending bytes. -/
lemma Rounds.again {r reps r'} (hs : Synced r) (h : Rounds r true reps r') :
    Synced r' ∧ r'.length < r.length ∧
      ∀ {reps' rest}, Drives r' reps' rest → Drives r (reps ++ reps') rest := by
  generalize e : true = again at h
  cases h with
  | wait hv => cases e
  | reject hv =>
    have hle := of_decide_eq_true e.symm
    have hl := length_dropToSync r.tail
    have h2 := hs.length
    rw [List.length_tail] at hl
    exact ⟨synced_dropToSync hle, by omega, fun hd => .reject hs hv hd⟩
  | @deliver n hv =>
    have hle := of_decide_eq_true e.symm
    have hl := length_dropToSync (r.drop n)
    have h2 := hs.length
    have hn := frameScanner.take_pos hv
    rw [List.length_drop] at hl
    exact ⟨synced_dropToSync hle, by omega, fun hd => .deliver hv hd⟩

namespace Holds
variable {d : FrameStreamDecoder} {r : List UInt8}

/-- The loop comes to an end: every round that goes round again shortens the pending bytes. -/
lemma processBuffer (h : Holds d r) (hs : Synced r) (rounds : Nat)
    (hr : r.length < rounds) :
    ∃ d' calls r', d.processBuffer rounds = some (d', calls) ∧ Holds d' r' ∧
      Drives r (calls.map HandlerCall.report) r' := by
  induction rounds generalizing d r with
  | zero => exact absurd hr (Nat.not_lt_zero _)
  | succ rounds ih =>
    obtain ⟨again, d1, calls, r1, hround, hh, hrounds⟩ := h.processRound hs
    simp only [FrameStreamDecoder.processBuffer, hround, Option.bind_eq_bind, Option.bind_some]
    cases again with
    | false => exact ⟨_, _, _, rfl, hh, hrounds.done hs⟩
    | true =>
      obtain ⟨hs1, hlt, hdrives⟩ := hrounds.again hs
      obtain ⟨d2, more, r2, hbuf, hh2, hd⟩ := ih hh hs1 (Nat.lt_of_lt_of_le hlt (Nat.le_of_lt_succ hr))
      rw [if_pos rfl, hbuf]
      refine ⟨_, _, _, rfl, hh2, ?_⟩
      rw [List.map_append]
      exact hdrives hd

end Holds

/-- Waiting bytes leave room for one more. -/
lemma length_of_wait {r : List UInt8} (hw : frameVerdict r = .wait) : r.length < maximumFrameSize := by
  change _ < 76
  obtain e | e | ⟨-, hc | ⟨hl, hc⟩⟩ := frameVerdict_wait_inv hw
  · rw [e]
    decide
  · rw [e]
    decide
  · change _ < 6 at hc
    omega
  · change _ ≤ 64 at hl
    change _ < 12 + _ at hc
    omega

/-- The decoder can take a byte whenever its pending bytes wait for one, and does what `Feeds` says. -/
lemma pushByte_feeds {d : FrameStreamDecoder} {r : List UInt8} (h : Holds d r)
    (hw : frameVerdict r = .wait) (b : UInt8) :
    ∃ d' calls r', d.pushByte b = some (d', calls) ∧ Holds d' r' ∧
      Feeds r b (calls.map HandlerCall.report) r' := by
  obtain ⟨d1, happ, hh⟩ := h.append b (length_of_wait hw)
  rw [FrameStreamDecoder.pushByte, h.size, happ]
  obtain e | e | ⟨hs, -⟩ := frameVerdict_wait_inv hw
  · subst e
    rw [if_pos List.length_nil]
    by_cases hb : b = syncFirst
    · subst hb
      rw [if_pos rfl]
      exact ⟨_, _, _, rfl, hh, .start⟩
    · rw [if_neg hb]
      have hcall : [d.emitNoise 1].map HandlerCall.report = [.noiseDiscarded 0 1] := by
        rw [← List.length_nil (α := UInt8), ← h.size]
        rfl
      refine ⟨_, _, _, rfl, h, ?_⟩
      rw [hcall]
      exact .idle hb
  · subst e
    rw [if_neg (by simp), if_pos List.length_singleton]
    by_cases h2 : b = syncSecond
    · subst h2
      rw [if_pos rfl]
      exact ⟨_, _, _, rfl, hh, .sync⟩
    rw [if_neg h2]
    by_cases hb : b = syncFirst
    · subst hb
      rw [if_pos rfl]
      have hcall : [d.emitNoise 1].map HandlerCall.report = [.noiseDiscarded 1 1] := by
        have hsize : d.size = 1 := h.size
        rw [← hsize]
        rfl
      refine ⟨_, _, _, rfl, h, ?_⟩
      rw [hcall]
      exact .slide
    · rw [if_neg hb]
      exact ⟨_, _, _, rfl, .nil rfl, .drop hb h2⟩
  · have h2 := hs.length
    rw [if_neg (by omega), if_neg (by omega)]
    obtain ⟨d2, calls, r', hbuf, hh2, hd⟩ :=
      hh.processBuffer (hs.append [b]) (d1.size + 1) (by rw [hh.size]; omega)
    simp only [Option.bind_eq_bind, Option.bind_some, hbuf]
    exact ⟨_, _, _, rfl, hh2, .drive hs hd⟩

/-- `finish` reports the pending bytes as truncated and drops them. -/
lemma finish_drops {d : FrameStreamDecoder} {r : List UInt8} (h : Holds d r) :
    ∃ d' calls, d.finish = some (d', calls) ∧ Holds d' [] ∧
      calls.map HandlerCall.report = if r = [] then [] else [.truncated r.length r] := by
  rw [FrameStreamDecoder.finish, h.size]
  by_cases e : r = []
  · subst e
    rw [if_pos List.length_nil, if_pos rfl]
    exact ⟨_, _, rfl, h, rfl⟩
  · obtain ⟨frame, hframe, hsize, hview⟩ := h.copyFrame
    rw [if_neg (by simpa using e), if_neg e, hframe]
    refine ⟨_, _, rfl, .nil rfl, ?_⟩
    simp only [List.map_cons, List.map_nil, HandlerCall.report, FrameStreamDecoder.call,
      FrameStreamDecoder.bufferedSize, EncodedFrame.view, hsize, hview, h.size]

end ApogeeFC.Stream
