import ApogeeFC.Stream.Refine

/-!
# Pushing bytes refines the reference scan

A decoder that holds pending bytes can be fed any bytes: it never fails, delivers the frames that the
reference scan finds in the pending bytes followed by the new ones, and is left with the suffix the
scan has not read (`push_scans`). How the bytes are cut into chunks does not matter.

To say which occurrence of a frame an event is about, `CountedDecoder` counts the bytes pushed. While
a handler runs, the pending bytes are the last `buffered_size()` bytes of the stream, and the frame of
a `FrameDecoded` event is in front of them.
-/

namespace ApogeeFC.Stream
open Codec Scan

/-- The decoder holds the pending bytes `r` and waits for more. -/
structure Ready (d : FrameStreamDecoder) (r : List UInt8) : Prop extends Holds d r where
  waits : frameVerdict r = .wait

/-- An empty decoder is ready. -/
lemma Ready.empty {d : FrameStreamDecoder} (h : d.size = 0) : Ready d [] where
  toHolds := .nil h
  waits := rfl

/-- The bytes of the frames of the `FrameDecoded` events. -/
def decodedFrames (calls : List HandlerCall) : List (List UInt8) :=
  calls.filterMap fun c =>
    if c.event.status = .frameDecoded then some c.event.frame.view else none

/-- A call, and how many bytes had been pushed when it was made. -/
structure StampedCall where
  pushed : Nat
  call : HandlerCall
  deriving DecidableEq, Repr

/-- Where in the stream the pending bytes started when the call was made. -/
def StampedCall.start (c : StampedCall) : Nat := c.pushed - c.call.bufferedSize

/-- The frames of the `FrameDecoded` events, each with where in the stream it starts. -/
def locatedFrames (calls : List StampedCall) : List (Nat × List UInt8) :=
  calls.filterMap fun c =>
    if c.call.event.status = .frameDecoded then some (c.start, c.call.event.frame.view) else none

/-- A decoder and the number of bytes pushed to it. -/
structure CountedDecoder where
  pushed : Nat := 0
  decoder : FrameStreamDecoder := {}
  deriving DecidableEq, Repr

namespace CountedDecoder

def pushByte (c : CountedDecoder) (byte : UInt8) : Option (CountedDecoder × List StampedCall) := do
  let (decoder, calls) ← c.decoder.pushByte byte
  some ({ pushed := c.pushed + 1, decoder }, calls.map (StampedCall.mk (c.pushed + 1)))

def push (c : CountedDecoder) (bytes : List UInt8) : Option (CountedDecoder × List StampedCall) :=
  Mealy.run pushByte c bytes

def finish (c : CountedDecoder) : Option (CountedDecoder × List StampedCall) := do
  let (decoder, calls) ← c.decoder.finish
  some ({ c with decoder }, calls.map (StampedCall.mk c.pushed))

end CountedDecoder

lemma decodedFrames_cons {call : HandlerCall} (hs : call.event.status = .frameDecoded)
    (calls : List HandlerCall) :
    decodedFrames (call :: calls) = call.event.frame.view :: decodedFrames calls := by
  simp [decodedFrames, hs]

lemma decodedFrames_skip {call : HandlerCall} (hs : call.event.status ≠ .frameDecoded)
    (calls : List HandlerCall) : decodedFrames (call :: calls) = decodedFrames calls := by
  simp [decodedFrames, hs]

lemma locatedFrames_append (calls calls' : List StampedCall) :
    locatedFrames (calls ++ calls') = locatedFrames calls ++ locatedFrames calls' := by
  simp [locatedFrames]

/-- A call delivers a frame exactly if its event is `FrameDecoded`. -/
lemma frame?_report (c : HandlerCall) : c.report.frame? =
    if c.event.status = .frameDecoded then some (c.bufferedSize, c.event.frame.view) else none := by
  unfold HandlerCall.report
  split <;> simp_all [Report.frame?]

/-- The first of some quiet calls delivers a frame. -/
lemma quiet_calls {call : HandlerCall} {calls : List HandlerCall} :
    Quiet ((call :: calls).map HandlerCall.report) ↔
      call.event.status = .frameDecoded ∧ Quiet (calls.map HandlerCall.report) := by
  rw [Quiet, List.map_cons, List.forall_mem_cons, frame?_report]
  split
  case isTrue hs => simp [hs, Quiet]
  case isFalse hs => simp [hs]

/-- Forgetting where the frames are. -/
lemma map_snd_locatedFrames (calls : List StampedCall) :
    (locatedFrames calls).map Prod.snd = decodedFrames (calls.map StampedCall.call) := by
  rw [locatedFrames, decodedFrames, List.map_filterMap, List.filterMap_map]
  congr 1
  funext c
  simp only [Function.comp_apply]
  split <;> rfl

/-- The frames of calls made after `k` bytes were pushed. -/
lemma locatedFrames_stamp (k : Nat) (calls : List HandlerCall) :
    locatedFrames (calls.map (StampedCall.mk k)) =
      (delivered (calls.map HandlerCall.report)).map fun x => (k - x.1, x.2) := by
  rw [locatedFrames, delivered, List.map_filterMap, List.filterMap_map, List.filterMap_map]
  congr 1
  funext c
  simp only [Function.comp_apply, frame?_report]
  split <;> rfl

/-- Positions counted from the end of the stream are positions counted from its start. -/
lemma map_framesAt {n m : Nat} {ts : List (Token UInt8)} (hts : (spell ts).length ≤ n)
    (hn : n ≤ m) : (framesAt n ts).map (fun x => (m - x.1, x.2)) = locate (m - n) ts := by
  induction ts generalizing n with
  | nil => rfl
  | cons t ts ih =>
    cases t with
    | skip a =>
      rw [spell_skip, List.length_cons] at hts
      have e : m - n + 1 = m - (n - 1) := by omega
      rw [framesAt, locate, ih (by omega) (by omega), e]
    | frame f =>
      rw [spell_frame, List.length_append] at hts
      have e : m - n + f.length = m - (n - f.length) := by omega
      rw [framesAt, List.map_cons, locate, ih (by omega) (by omega), e]

/-- Pushing one byte reads on with the reference scan. -/
lemma pushByte_scans {c : CountedDecoder} {r : List UInt8} (h : Ready c.decoder r)
    (hr : r.length ≤ c.pushed) (b : UInt8) :
    ∃ c' calls ts r', c.pushByte b = some (c', calls) ∧ Ready c'.decoder r' ∧
      c'.pushed = c.pushed + 1 ∧ Scans frameScanner (r ++ [b]) ts r' ∧
      locatedFrames calls = locate (c.pushed - r.length) ts ∧
      (Quiet (calls.map fun x => x.call.report) ↔ Clean ts) := by
  obtain ⟨d', calls, r', hpush, hh, hfeeds⟩ := pushByte_feeds h.toHolds h.waits b
  obtain ⟨ts, hscan, hdel, hquiet⟩ := hfeeds.scans h.waits
  refine ⟨⟨c.pushed + 1, d'⟩, calls.map (StampedCall.mk (c.pushed + 1)), ts, r', ?_,
    ⟨hh, hscan.rest_wait⟩, rfl, hscan, ?_, ?_⟩
  · simp [CountedDecoder.pushByte, hpush]
  · have hts : (spell ts).length ≤ r.length + 1 := by
      have hl := congrArg List.length hscan.spell
      rw [List.length_append, List.length_append, List.length_singleton] at hl
      omega
    rw [locatedFrames_stamp, hdel, map_framesAt hts (by omega), Nat.add_sub_add_right]
  · rw [List.map_map]
    exact hquiet

/-- Pushing bytes reads on with the reference scan. -/
lemma push_scans {c : CountedDecoder} {r : List UInt8} (h : Ready c.decoder r)
    (hr : r.length ≤ c.pushed) (bytes : List UInt8) :
    ∃ c' calls ts r', c.push bytes = some (c', calls) ∧ Ready c'.decoder r' ∧
      c'.pushed = c.pushed + bytes.length ∧ Scans frameScanner (r ++ bytes) ts r' ∧
      locatedFrames calls = locate (c.pushed - r.length) ts ∧
      (Quiet (calls.map fun x => x.call.report) ↔ Clean ts) := by
  induction bytes generalizing c r with
  | nil =>
    rw [List.append_nil]
    exact ⟨c, [], [], r, rfl, h, rfl, .wait h.waits, rfl, by simp⟩
  | cons b bytes ih =>
    obtain ⟨c1, calls1, ts1, r1, hpush1, hready1, hpushed1, hscan1, hloc1, hquiet1⟩ :=
      pushByte_scans h hr b
    -- the unread suffix got shorter by what the tokens spell
    have hl : (spell ts1).length + r1.length = r.length + 1 := by
      have hl := congrArg List.length hscan1.spell
      rwa [List.length_append, List.length_append, List.length_singleton] at hl
    obtain ⟨c2, calls2, ts2, r2, hpush2, hready2, hpushed2, hscan2, hloc2, hquiet2⟩ :=
      ih hready1 (by omega)
    refine ⟨c2, calls1 ++ calls2, ts1 ++ ts2, r2, Mealy.run_cons hpush1 hpush2, hready2, ?_, ?_, ?_,
      ?_⟩
    · rw [hpushed2, hpushed1, List.length_cons]
      omega
    · have hscan := hscan1.append hscan2
      rwa [List.append_assoc] at hscan
    · have e : c1.pushed - r1.length = c.pushed - r.length + (spell ts1).length := by omega
      rw [locatedFrames_append, hloc1, hloc2, locate_append, e]
    · rw [List.map_append, quiet_append, hquiet1, hquiet2, clean_append]

/-- Counting does not change what the decoder does. -/
lemma push_of_counted {c c' : CountedDecoder} {bytes calls} (h : c.push bytes = some (c', calls)) :
    c.decoder.push bytes = some (c'.decoder, calls.map StampedCall.call) := by
  have hstep : ∀ {d : FrameStreamDecoder} {c : CountedDecoder} {b c' calls}, d = c.decoder →
      c.pushByte b = some (c', calls) →
      ∃ d' calls', d.pushByte b = some (d', calls') ∧ d' = c'.decoder ∧
        calls' = calls.map StampedCall.call := by
    intro d c b c' calls e hp
    subst e
    cases hd : c.decoder.pushByte b with
    | none => simp [CountedDecoder.pushByte, hd] at hp
    | some x =>
      simp only [CountedDecoder.pushByte, hd, Option.bind_eq_bind, Option.bind_some,
        Option.some.injEq, Prod.mk.injEq] at hp
      obtain ⟨e1, e2⟩ := hp
      subst e1; subst e2
      refine ⟨_, _, rfl, rfl, ?_⟩
      rw [List.map_map]
      exact (List.map_id _).symm
  obtain ⟨d', calls', hrun, e1, e2⟩ := Mealy.run_simulates (R := fun d c => d = c.decoder)
    (O := fun calls' calls => calls' = calls.map StampedCall.call) rfl
    (by intro o1 o2 p1 p2 h1 h2; rw [h1, h2, List.map_append]) hstep rfl h
  rw [← e1, ← e2]
  exact hrun

/-- A fresh decoder fed with a stream in chunks reads it with the reference scan. -/
lemma session_scans (chunks : List (List UInt8)) :
    ∃ c calls ts rest, Mealy.run CountedDecoder.push {} chunks = some (c, calls) ∧
      Ready c.decoder rest ∧ c.pushed = chunks.flatten.length ∧
      Scans frameScanner chunks.flatten ts rest ∧ locatedFrames calls = locate 0 ts := by
  obtain ⟨c, calls, ts, rest, hpush, hready, hpushed, hscan, hloc, -⟩ :=
    push_scans (c := {}) (r := []) (.empty rfl) (Nat.le_refl _) chunks.flatten
  refine ⟨c, calls, ts, rest, Mealy.run_run.mpr hpush, hready, ?_, hscan, hloc⟩
  rw [hpushed, Nat.zero_add]

/-- Pushing bytes to a decoder with pending bytes reads on with the reference scan, wherever the
stream started. -/
lemma FrameStreamDecoder.push_scans {d : FrameStreamDecoder} {r : List UInt8} (h : Ready d r)
    (bytes : List UInt8) :
    ∃ d' calls ts r', d.push bytes = some (d', calls) ∧ Ready d' r' ∧
      Scans frameScanner (r ++ bytes) ts r' ∧ decodedFrames calls = frames ts ∧
      (Quiet (calls.map HandlerCall.report) ↔ Clean ts) := by
  obtain ⟨c', calls, ts, r', hpush, hready, -, hscan, hloc, hquiet⟩ :=
    Stream.push_scans (c := ⟨r.length, d⟩) h (Nat.le_refl _) bytes
  refine ⟨c'.decoder, calls.map StampedCall.call, ts, r', push_of_counted hpush, hready, hscan, ?_, ?_⟩
  · rw [← map_snd_locatedFrames, hloc, map_snd_locate]
  · rw [List.map_map]
    exact hquiet

/-- A decoder on which nothing was pushed yet, or `finish` was called last. -/
def FreshOrFinished (d : FrameStreamDecoder) : Prop :=
  d = {} ∨ ∃ (d₀ : FrameStreamDecoder) (calls : List HandlerCall), d₀.finish = some (d, calls)

/-- `finish` leaves an empty buffer, whatever was in it. -/
lemma size_finish {d d' : FrameStreamDecoder} {calls} (h : d.finish = some (d', calls)) :
    d'.size = 0 := by
  unfold FrameStreamDecoder.finish at h
  split at h
  case isTrue he =>
    cases h
    exact he
  case isFalse =>
    cases hc : d.copyFrame with
    | none => simp [hc] at h
    | some frame =>
      simp only [hc, Option.bind_eq_bind, Option.bind_some, Option.some.injEq, Prod.mk.injEq] at h
      rw [← h.1]

lemma FreshOrFinished.ready {d : FrameStreamDecoder} (h : FreshOrFinished d) : Ready d [] := by
  obtain e | ⟨d₀, calls, e⟩ := h
  · subst e
    exact .empty rfl
  · exact .empty (size_finish e)

/-- The incremental decoder computes the offline greedy scan: however a stream is cut into chunks, the
delivered frames are those of the scan of the whole stream, and the pending bytes are the suffix that
the scan has not read. -/
theorem push_refines_scan {d : FrameStreamDecoder} (hd : FreshOrFinished d)
    (chunks : List (List UInt8)) :
    ∃ d' calls, Mealy.run FrameStreamDecoder.push d chunks = some (d', calls) ∧
      decodedFrames calls = frames (frameScanner.scan chunks.flatten).1 ∧
      d'.bufferedSize = (frameScanner.scan chunks.flatten).2.length ∧
      d'.pending = (frameScanner.scan chunks.flatten).2 := by
  obtain ⟨d', calls, ts, r', hpush, hready, hscan, hdec, -⟩ :=
    FrameStreamDecoder.push_scans hd.ready chunks.flatten
  rw [List.nil_append] at hscan
  rw [hscan.scan_eq]
  exact ⟨d', calls, Mealy.run_run.mpr hpush, hdec, hready.size, hready.pending⟩

/-- Noise and the start of a header, in two chunks. -/
theorem push_refines_scan_fresh :
    ∃ d' calls, Mealy.run FrameStreamDecoder.push {} [[0x00, 0xA5], [0x5A, 0x01, 0xA5]] =
        some (d', calls) ∧
      decodedFrames calls =
        frames (frameScanner.scan [[0x00, 0xA5], [0x5A, 0x01, 0xA5]].flatten).1 ∧
      d'.bufferedSize = (frameScanner.scan [[0x00, 0xA5], [0x5A, 0x01, 0xA5]].flatten).2.length ∧
      d'.pending = (frameScanner.scan [[0x00, 0xA5], [0x5A, 0x01, 0xA5]].flatten).2 :=
  push_refines_scan (.inl rfl) _

end ApogeeFC.Stream
