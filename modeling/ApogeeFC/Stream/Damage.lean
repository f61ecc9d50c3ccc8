import ApogeeFC.Codec.Corruption
import ApogeeFC.Stream.CleanStream

/-!
# Damaged streams

Frames and noise on a line that flips bits. A frame that has lost an odd number of bits, or two of them,
but neither its sync pair nor its length field, is a whole candidate that `decode` refuses. The decoder
waits for its last byte, reports it as rejected, and looks for a sync pair behind its first byte. If there
is none, be it one that the flipped bits have made or one that the frame carries, it starts afresh, unless
the last byte is an `A5`.

A stream of such pieces is reported piece by piece (`Piece.reports`): all that the decoder carries from
one piece to the next is whether it holds an `A5`. So every frame that arrives intact is delivered with
its last byte, and every damaged one is rejected with its last byte (`damaged_streams_reported`).
-/

namespace ApogeeFC.Stream
open Codec Mealy Scan

/-- A header, and as many bytes behind it as it claims. -/
structure Candidate (f : List UInt8) : Prop where
  synced : Synced f
  claimed : claimedLength f ≤ maximumPayloadSize
  length : f.length = minimumFrameSize + claimedLength f

/-- What may arrive in place of a frame. Behind its first byte there is no sync pair, also none that was
sent, as the decoder would start over there. -/
structure Damaged (sent got : List UInt8) : Prop where
  length : got.length = sent.length
  synced : Synced got
  claimed : claimedLength got = claimedLength sent
  flipped : Odd (bitDistance got sent) ∨ bitDistance got sent = 2
  unsynced : NoSync got.tail

/-- A piece of a stream: a byte of noise, or a frame, intact or damaged. -/
inductive Piece where
  | noise (byte : UInt8)
  | frame (sent : List UInt8)
  | damaged (sent got : List UInt8)
  deriving DecidableEq, Repr

namespace Piece

/-- What arrives. -/
def bytes : Piece → List UInt8
  | noise byte => [byte]
  | frame sent => sent
  | damaged _ got => got

/-- The frame that was sent. -/
def sent? : Piece → Option (List UInt8)
  | noise _ => none
  | frame sent => some sent
  | damaged sent _ => some sent

/-- The frame that was sent, if it arrives as it was sent. -/
def intact? : Piece → Option (List UInt8)
  | frame sent => some sent
  | _ => none

/-- An `A5` is left of the piece, which may be the start of a frame. -/
def trails : Piece → Bool
  | noise byte => byte = syncFirst
  | frame _ => false
  | damaged _ got => got.getLast? = some syncFirst

/-- Noise makes no sync pair, and frames are frames. `pending` says that an `A5` is left of the piece
before. -/
def Legal (pending : Bool) : Piece → Prop
  | noise byte => ¬ (pending = true ∧ byte = syncSecond)
  | frame sent => (decode sent).ok
  | damaged sent got => (decode sent).ok ∧ Damaged sent got

/-- The reports of the piece, each with how many of its bytes have been pushed. -/
def reports (pending : Bool) : Piece → List (Nat × Report)
  | noise byte =>
    if byte = syncFirst then if pending then [(1, .noiseDiscarded 1 1)] else []
    else [(1, .noiseDiscarded 0 (if pending then 2 else 1))]
  | frame sent =>
    (if pending then [(1, .noiseDiscarded 1 1)] else []) ++
      [(sent.length, .frameDecoded sent.length sent)]
  | damaged _ got =>
    (if pending then [(1, .noiseDiscarded 1 1)] else []) ++
      [(got.length, .frameRejected got.length (decode got).status got)]

end Piece

/-- The bytes held between two pieces. -/
def held (pending : Bool) : List UInt8 := if pending then [syncFirst] else []

/-- An `A5` is left of the last of the pieces. -/
def trailing : Bool → List Piece → Bool
  | pending, [] => pending
  | _, piece :: pieces => trailing piece.trails pieces

/-- Every piece is legal behind the one before it. -/
def Legal : Bool → List Piece → Prop
  | _, [] => True
  | pending, piece :: pieces => piece.Legal pending ∧ Legal piece.trails pieces

/-- The reports of pieces that start at `k`. -/
def reports : Nat → Bool → List Piece → List (Nat × Report)
  | _, _, [] => []
  | k, pending, piece :: pieces =>
    (piece.reports pending).map (fun r => (k + r.1, r.2)) ++
      reports (k + piece.bytes.length) piece.trails pieces

/-- The reports of calls, each with the number of bytes pushed. -/
def stamped (calls : List StampedCall) : List (Nat × Report) :=
  calls.map fun c => (c.pushed, c.call.report)

@[simp] lemma stamped_append (calls more : List StampedCall) :
    stamped (calls ++ more) = stamped calls ++ stamped more := List.map_append

lemma stamped_mk (k : Nat) (calls : List HandlerCall) :
    stamped (calls.map (StampedCall.mk k)) = (calls.map HandlerCall.report).map (k, ·) := by
  simp [stamped, Function.comp_def]

lemma held_cases (pending : Bool) : held pending = [] ∨ held pending = [syncFirst] := by
  cases pending with
  | false => exact .inl rfl
  | true => exact .inr rfl

/-- What `decode` accepts is a candidate. -/
lemma candidate_of_ok {f : List UInt8} (h : (decode f).ok) : Candidate f := by
  obtain ⟨hs, hl, hn, -⟩ := frameVerdict_take_inv (accepts_iff.mpr h)
  exact ⟨hs, hl, hn⟩

/-- A damaged frame is still a candidate. -/
lemma Damaged.candidate {sent got : List UInt8} (h : Damaged sent got) (hok : (decode sent).ok) :
    Candidate got where
  synced := h.synced
  claimed := by
    rw [h.claimed]
    exact (candidate_of_ok hok).claimed
  length := by
    rw [h.length, h.claimed]
    exact (candidate_of_ok hok).length

/-- The CRC shows the damage. -/
lemma Damaged.refused {sent got : List UInt8} (h : Damaged sent got) (hok : (decode sent).ok) :
    ¬ (decode got).ok := by
  intro hgot
  obtain ⟨heven, htwo⟩ := bitDistance_frames hgot hok h.length
  rcases h.flipped with hd | hd
  · exact Nat.not_odd_iff_even.mpr heven hd
  · exact htwo hd

/-- The loop waits in a candidate. -/
lemma Candidate.waits {p q : List UInt8} (h : Candidate (p ++ q)) (hp : Synced p) (hq : q ≠ []) :
    frameVerdict p = .wait := by
  have hpos := List.length_pos_iff.mpr hq
  by_cases hh : p.length < headerSize
  · exact frameVerdict_short hp hh
  have hcl := claimedLength_append (Nat.le_of_not_lt hh) q
  have hl := h.claimed
  have hlen := h.length
  rw [hcl] at hl hlen
  rw [List.length_append] at hlen
  apply frameVerdict_pending hp hl
  omega

/-- Without a sync pair, nothing is kept but a trailing `A5`. -/
lemma dropToSync_noSync {r : List UInt8} (h : NoSync r) : dropToSync r = trail r := by
  induction r using dropToSync.induct with
  | case1 => rfl
  | case2 => rfl
  | case3 a ha =>
    rw [dropToSync, if_neg ha, trail_cons (.inl ha)]
    rfl
  | case4 a b r hab =>
    obtain ⟨ea, eb⟩ := hab
    subst ea; subst eb
    exact absurd ⟨[], r, rfl⟩ h
  | case5 a b r hab ih =>
    have ht : trail (a :: b :: r) = trail (b :: r) := trail_cons (.inr (by simp))
    rw [dropToSync, if_neg hab, ih h.tail, ht]

/-- What is left of a damaged frame. -/
lemma Damaged.left {sent got : List UInt8} (h : Damaged sent got) :
    dropToSync got.tail = held (Piece.damaged sent got).trails := by
  rw [dropToSync_noSync h.unsynced]
  obtain ⟨s, e⟩ := h.synced.eq
  have ht : trail got = trail got.tail := by
    rw [e]
    exact trail_cons (.inr (by simp))
  rw [← ht, trail, held, Piece.trails]
  simp

/-- The loop rejects a damaged frame. -/
lemma Drives.refuses {sent got reps rest} (h : Damaged sent got) (hok : (decode sent).ok)
    (hd : Drives got reps rest) :
    reps = [.frameRejected got.length (decode got).status got] ∧
      rest = held (Piece.damaged sent got).trails := by
  have hc := h.candidate hok
  have hv : frameVerdict got = .skip := by
    rw [frameVerdict_whole hc.synced hc.claimed hc.length, if_neg (h.refused hok)]
  cases hd with
  | wait hv' => exact absurd (hv.symm.trans hv') (by simp)
  | deliver hv' _ => exact absurd (hv.symm.trans hv') (by simp)
  | reject _ _ hd =>
    rw [h.left] at hd
    have hw : frameVerdict (held (Piece.damaged sent got).trails) = .wait := by
      obtain e | e := held_cases (Piece.damaged sent got).trails
      · rw [e]
        rfl
      · rw [e]
        rfl
    obtain ⟨e1, e2⟩ := hd.waits hw
    subst e1; subst e2
    refine ⟨?_, rfl⟩
    rw [rejectStatus, if_neg (Nat.not_lt.mpr hc.claimed), ← hc.length, List.take_length]

/-- The rest of a candidate that has begun. The loop runs with its last byte. -/
lemma push_candidate_rest {c : CountedDecoder} {p q : List UInt8} (h : Ready c.decoder p)
    (hp : Synced p) (hf : Candidate (p ++ q)) (hq : q ≠ []) :
    ∃ c' calls reps rest, c.push q = some (c', calls) ∧ Ready c'.decoder rest ∧
      c'.pushed = c.pushed + q.length ∧ Drives (p ++ q) reps rest ∧
      stamped calls = reps.map (c.pushed + q.length, ·) := by
  induction q generalizing c p with
  | nil => exact absurd rfl hq
  | cons b q ih =>
    obtain ⟨c1, r1, calls, hpush, hready, hpushed, hfeeds⟩ := pushByte_stamped h b
    have hd := hfeeds.synced_inv hp
    by_cases hq' : q = []
    case pos =>
      subst hq'
      exact ⟨c1, _, _, r1, by rw [CountedDecoder.push, run_singleton]; exact hpush, hready, hpushed,
        hd, stamped_mk _ _⟩
    have e : p ++ b :: q = (p ++ [b]) ++ q := by rw [List.append_assoc]; rfl
    rw [e] at hf ⊢
    obtain ⟨hreps, e1⟩ := hd.waits (hf.waits (hp.append [b]) hq')
    subst e1
    obtain ⟨c2, more, reps, rest, hpush2, hready2, hpushed2, hd2, hs2⟩ :=
      ih hready (hp.append [b]) hf hq'
    have el : c1.pushed + q.length = c.pushed + (b :: q).length := by
      rw [hpushed, List.length_cons]
      omega
    rw [el] at hpushed2 hs2
    refine ⟨c2, _, reps, rest, run_cons hpush hpush2, hready2, hpushed2, hd2, ?_⟩
    rw [stamped_append, stamped_mk, hreps, hs2]
    rfl

/-- The first byte of a candidate. An `A5` left of the piece before it is noise. -/
lemma Feeds.begins {pending : Bool} {reps rest} (h : Feeds (held pending) syncFirst reps rest) :
    rest = [syncFirst] ∧ reps = if pending then [.noiseDiscarded 1 1] else [] := by
  cases pending with
  | false =>
    obtain ⟨-, hreps, e⟩ | ⟨hb, -⟩ := h.nil_inv
    · exact ⟨e, hreps⟩
    · exact absurd rfl hb
  | true =>
    obtain ⟨hb, -⟩ | ⟨-, hreps, e⟩ | ⟨⟨hb, -⟩, -⟩ := h.half_inv
    · exact absurd hb (by decide)
    · exact ⟨e, hreps⟩
    · exact absurd rfl hb

/-- A byte of noise. -/
lemma Feeds.noise_piece {pending : Bool} {b : UInt8} {reps rest} (h : Feeds (held pending) b reps rest)
    (hl : (Piece.noise b).Legal pending) :
    rest = held (Piece.noise b).trails ∧ reps = ((Piece.noise b).reports pending).map Prod.snd := by
  cases pending with
  | false =>
    obtain ⟨hb, hreps, e⟩ | ⟨hb, hreps, e⟩ := h.nil_inv
    · subst hb
      exact ⟨e, hreps⟩
    · rw [hreps, e]
      simp [Piece.trails, Piece.reports, held, hb]
  | true =>
    obtain ⟨hb, -, -⟩ | ⟨hb, hreps, e⟩ | ⟨⟨hb, -⟩, hreps, e⟩ := h.half_inv
    -- a sync pair is not noise
    · exact absurd ⟨rfl, hb⟩ hl
    · subst hb
      exact ⟨e, hreps⟩
    · rw [hreps, e]
      simp [Piece.trails, Piece.reports, held, hb]

/-- A byte of noise is reported when it is pushed. -/
lemma Piece.fst_noise {pending : Bool} {b : UInt8} {r : Nat × Report}
    (h : r ∈ (Piece.noise b).reports pending) : r.1 = 1 := by
  rw [Piece.reports] at h
  split at h
  · split at h
    · rw [List.mem_singleton.mp h]
    · cases h
  · rw [List.mem_singleton.mp h]

/-- A candidate, behind an `A5` that may be left of the piece before it. -/
lemma push_candidate {c : CountedDecoder} {pending : Bool} {f : List UInt8}
    (h : Ready c.decoder (held pending)) (hf : Candidate f) :
    ∃ c' calls reps rest, c.push f = some (c', calls) ∧ Ready c'.decoder rest ∧
      c'.pushed = c.pushed + f.length ∧ Drives f reps rest ∧
      stamped calls = (if pending then [(c.pushed + 1, .noiseDiscarded 1 1)] else []) ++
        reps.map (c.pushed + f.length, ·) := by
  obtain ⟨s, e⟩ := hf.synced.eq
  subst e
  have hs : s ≠ [] := by
    intro e
    subst e
    have hlen := hf.length
    change 2 = 12 + _ at hlen
    omega
  obtain ⟨c1, r1, calls1, hpush1, hready1, hpushed1, hfeeds1⟩ := pushByte_stamped h syncFirst
  obtain ⟨e1, hreps1⟩ := hfeeds1.begins
  subst e1
  obtain ⟨c2, r2, calls2, hpush2, hready2, hpushed2, hfeeds2⟩ := pushByte_stamped hready1 syncSecond
  obtain ⟨-, hreps2, e2⟩ | ⟨hb, -⟩ | ⟨⟨-, hb⟩, -⟩ := hfeeds2.half_inv
  · subst e2
    obtain ⟨c3, calls3, reps, rest, hpush3, hready3, hpushed3, hd3, hs3⟩ :=
      push_candidate_rest hready2 rfl hf hs
    have el : c2.pushed + s.length = c.pushed + (syncFirst :: syncSecond :: s).length := by
      rw [hpushed2, hpushed1, List.length_cons, List.length_cons]
      omega
    rw [el] at hpushed3 hs3
    refine ⟨c3, _, reps, rest, run_cons hpush1 (run_cons hpush2 hpush3), hready3, hpushed3, hd3, ?_⟩
    rw [stamped_append, stamped_append, stamped_mk, hreps1, stamped_mk, hreps2, hs3]
    cases pending with
    | false => rfl
    | true => rfl
  · exact absurd hb (by decide)
  · exact absurd rfl hb

/-- One piece. -/
lemma push_piece {c : CountedDecoder} {pending : Bool} {piece : Piece}
    (h : Ready c.decoder (held pending)) (hl : piece.Legal pending) :
    ∃ c' calls, c.push piece.bytes = some (c', calls) ∧ Ready c'.decoder (held piece.trails) ∧
      c'.pushed = c.pushed + piece.bytes.length ∧
      stamped calls = (piece.reports pending).map fun r => (c.pushed + r.1, r.2) := by
  cases piece with
  | noise b =>
    obtain ⟨c1, r1, calls, hpush, hready, hpushed, hfeeds⟩ := pushByte_stamped h b
    obtain ⟨e1, hreps⟩ := hfeeds.noise_piece hl
    subst e1
    refine ⟨c1, _, by rw [Piece.bytes, CountedDecoder.push, run_singleton]; exact hpush, hready,
      hpushed, ?_⟩
    rw [stamped_mk, hreps, List.map_map]
    apply List.map_congr_left
    intro r hr
    rw [Function.comp_apply, Piece.fst_noise hr]
  | frame f =>
    obtain ⟨c1, calls, reps, rest, hpush, hready, hpushed, hd, hs⟩ :=
      push_candidate h (candidate_of_ok hl)
    obtain ⟨e1, e2⟩ := hd.accepts (accepts_iff.mpr hl)
    subst e1; subst e2
    refine ⟨c1, calls, hpush, hready, hpushed, ?_⟩
    rw [hs, Piece.reports]
    cases pending with
    | false => rfl
    | true => rfl
  | damaged f g =>
    obtain ⟨hok, hdam⟩ := hl
    obtain ⟨c1, calls, reps, rest, hpush, hready, hpushed, hd, hs⟩ :=
      push_candidate h (hdam.candidate hok)
    obtain ⟨e1, e2⟩ := hd.refuses hdam hok
    subst e1; subst e2
    refine ⟨c1, calls, hpush, hready, hpushed, ?_⟩
    rw [hs, Piece.reports]
    cases pending with
    | false => rfl
    | true => rfl

/-- Pieces, one after the other. -/
lemma push_pieces {c : CountedDecoder} {pending : Bool} {pieces : List Piece}
    (h : Ready c.decoder (held pending)) (hl : Legal pending pieces) :
    ∃ c' calls, c.push (pieces.flatMap Piece.bytes) = some (c', calls) ∧
      Ready c'.decoder (held (trailing pending pieces)) ∧
      stamped calls = reports c.pushed pending pieces := by
  induction pieces generalizing c pending with
  | nil => exact ⟨c, [], rfl, h, rfl⟩
  | cons piece pieces ih =>
    obtain ⟨c1, calls1, hpush1, hready1, hpushed1, hs1⟩ := push_piece h hl.1
    obtain ⟨c2, calls2, hpush2, hready2, hs2⟩ := ih hready1 hl.2
    rw [hpushed1] at hs2
    refine ⟨c2, _, run_append hpush1 hpush2, hready2, ?_⟩
    rw [stamped_append, hs1, hs2]
    rfl

/-- The frames among the reports of a piece. -/
lemma Piece.delivered_reports (piece : Piece) (pending : Bool) :
    (delivered ((piece.reports pending).map Prod.snd)).map Prod.snd = piece.intact?.toList ∧
      tally Report.rejected ((piece.reports pending).map Prod.snd) =
        if piece.sent? = piece.intact? then 0 else 1 := by
  cases piece with
  | noise b =>
    rw [Piece.reports]
    split
    · cases pending with
      | false => exact ⟨rfl, rfl⟩
      | true => exact ⟨rfl, rfl⟩
    · exact ⟨rfl, rfl⟩
  | frame f =>
    cases pending with
    | false => exact ⟨rfl, by simp [Piece.reports, Piece.sent?, Piece.intact?]⟩
    | true => exact ⟨rfl, by simp [Piece.reports, Piece.sent?, Piece.intact?]⟩
  | damaged f g =>
    cases pending with
    | false => exact ⟨rfl, rfl⟩
    | true => exact ⟨rfl, rfl⟩

/-- The number of frames that were damaged. -/
def damages (pieces : List Piece) : Nat := pieces.countP fun piece => piece.sent? ≠ piece.intact?

/-- Among the reports are the intact frames, in order, and a rejection for every damaged one. -/
lemma delivered_reports (k : Nat) (pending : Bool) (pieces : List Piece) :
    (delivered ((reports k pending pieces).map Prod.snd)).map Prod.snd =
        pieces.filterMap Piece.intact? ∧
      tally Report.rejected ((reports k pending pieces).map Prod.snd) = damages pieces := by
  induction pieces generalizing k pending with
  | nil => exact ⟨rfl, rfl⟩
  | cons piece pieces ih =>
    obtain ⟨hd, ht⟩ := piece.delivered_reports pending
    obtain ⟨hd', ht'⟩ := ih (k + piece.bytes.length) piece.trails
    have hmap : ((piece.reports pending).map fun r => (k + r.1, r.2)).map Prod.snd =
        (piece.reports pending).map Prod.snd := by
      rw [List.map_map]
      rfl
    rw [reports, List.map_append, hmap]
    constructor
    · rw [delivered_append, List.map_append, hd, hd', List.filterMap_cons]
      cases piece.intact? with
      | none => rfl
      | some f => rfl
    · rw [tally_append, ht, ht', damages, damages, List.countP_cons, Nat.add_comm]
      simp

/-- The frames of the calls are those of their reports. -/
lemma decodedFrames_reports (calls : List HandlerCall) :
    decodedFrames calls = (delivered (calls.map HandlerCall.report)).map Prod.snd := by
  rw [decodedFrames, delivered, List.map_filterMap, List.filterMap_map]
  congr 1
  funext c
  simp only [Function.comp_apply, frame?_report]
  split
  · rfl
  · rfl

/-- Legal pieces, pushed on a fresh decoder. -/
lemma push_legal {pieces : List Piece} (h : Legal false pieces) :
    ∃ c calls, CountedDecoder.push {} (pieces.flatMap Piece.bytes) = some (c, calls) ∧
      stamped calls = reports 0 false pieces ∧
      Ready c.decoder (held (trailing false pieces)) ∧
      (calls.map StampedCall.call).map HandlerCall.report = (reports 0 false pieces).map Prod.snd ∧
      decodedFrames (calls.map StampedCall.call) = pieces.filterMap Piece.intact? := by
  have hready : Ready ({} : CountedDecoder).decoder (held false) := .empty rfl
  obtain ⟨c, calls, hpush, hready', hs⟩ := push_pieces hready h
  have hreps : (calls.map StampedCall.call).map HandlerCall.report =
      (reports 0 false pieces).map Prod.snd := by
    rw [List.map_map, ← hs, stamped, List.map_map]
    rfl
  refine ⟨c, calls, hpush, hs, hready', hreps, ?_⟩
  rw [decodedFrames_reports, hreps, (delivered_reports 0 false pieces).1]

/-- Damaged streams. However a legal stream of pieces is cut into chunks, the decoder makes the reports
of its pieces, in order and where they say, and holds nothing in the end but an `A5` that is left of the
last piece. So it delivers the frames that arrive intact and rejects each damaged one once. -/
theorem damaged_streams_reported {pieces : List Piece} (h : Legal false pieces)
    {chunks : List (List UInt8)} (hc : chunks.flatten = pieces.flatMap Piece.bytes) :
    ∃ c calls, run CountedDecoder.push {} chunks = some (c, calls) ∧
      run FrameStreamDecoder.push {} chunks = some (c.decoder, calls.map StampedCall.call) ∧
      stamped calls = reports 0 false pieces ∧
      decodedFrames (calls.map StampedCall.call) = pieces.filterMap Piece.intact? ∧
      rejections (calls.map StampedCall.call) = damages pieces ∧
      c.decoder.pending = held (trailing false pieces) := by
  obtain ⟨c, calls, hpush, hs, hready, hreps, hdec⟩ := push_legal h
  rw [← hc] at hpush
  refine ⟨c, calls, run_run.mpr hpush, run_run.mpr (push_of_counted hpush), hs, hdec, ?_,
    hready.pending⟩
  rw [← tally_rejected, hreps, (delivered_reports 0 false pieces).2]

/-- What arrives of a ping after five of its bits were flipped. It ends with `A5`. -/
def damagedPing : List UInt8 := ((encode pingFrame).frame.view.set 6 0x06).set 12 syncFirst

lemma damaged_damagedPing : Damaged (encode pingFrame).frame.view damagedPing where
  length := by decide +kernel
  synced := by decide +kernel
  claimed := by decide +kernel
  flipped := .inl (by decide +kernel)
  unsynced := by decide +kernel

/-- A damaged ping between two others, in two chunks. -/
theorem damaged_streams_reported_pings :
    ∃ c calls, run CountedDecoder.push {}
        [(encode pingFrame).frame.view, damagedPing ++ (encode pingFrame).frame.view] =
        some (c, calls) ∧
      stamped calls =
        [(13, .frameDecoded 13 (encode pingFrame).frame.view),
          (26, .frameRejected 13 .crcMismatch damagedPing), (27, .noiseDiscarded 1 1),
          (39, .frameDecoded 13 (encode pingFrame).frame.view)] ∧
      rejections (calls.map StampedCall.call) = 1 ∧ c.decoder.pending = [] := by
  have hok : (decode (encode pingFrame).frame.view).ok := by decide +kernel
  obtain ⟨c, calls, hrun, -, hs, -, hrej, hpending⟩ :=
    @damaged_streams_reported
      [.frame (encode pingFrame).frame.view, .damaged (encode pingFrame).frame.view damagedPing,
        .frame (encode pingFrame).frame.view]
      ⟨hok, ⟨hok, damaged_damagedPing⟩, hok, trivial⟩
      [(encode pingFrame).frame.view, damagedPing ++ (encode pingFrame).frame.view]
      (by simp [Piece.bytes])
  have hlen : (encode pingFrame).frame.view.length = 13 := by decide +kernel
  have hlen' : damagedPing.length = 13 := by decide +kernel
  have hlast : damagedPing.getLast? = some syncFirst := by decide +kernel
  have hstatus : (decode damagedPing).status = .crcMismatch := by decide +kernel
  refine ⟨c, calls, hrun, ?_, ?_, hpending⟩
  · rw [hs]
    simp [reports, Piece.reports, Piece.bytes, Piece.trails, hlen, hlen', hlast, hstatus]
  · rw [hrej]
    simp [damages, Piece.sent?, Piece.intact?]

end ApogeeFC.Stream
